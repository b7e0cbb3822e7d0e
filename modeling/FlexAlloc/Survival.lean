/-
What survives a power cut: the objects that were live at the last sync, with all that has been written to them since.

Syncs write the metadata and nothing of the objects, and writes to objects go to the device at once. So after a cut the
pools and slabs are those of the last sync, and the bytes of the objects are those of the cut. An object that was live at
both is read as it was last written.

- `Since.step`: what each call other than a sync leaves as it was at the sync.
- `Since.reopened`: a system that opens serves the pools that the search of the open comes to.
- `store_survives`: reads of it return what was known at the cut.
-/
import FlexAlloc.Store

namespace FlexAlloc

open FlexAlloc.Core Function

def StoreOp.isSync : StoreOp → Bool
  | .sync => true
  | _ => false

def Unsynced (s : Store) (x : Env × StoreOp) : Prop := StoreLegal s x ∧ x.2.isSync = false

instance (s : Store) (x : Env × StoreOp) : Decidable (Unsynced s x) := inferInstanceAs (Decidable (_ ∧ _))

/-- `s` has come of `s₁` without a sync: the pools of `s₁` are still there, and so is the metadata on the device -/
structure Since (dev : Dev) (geo : Geo) (s₁ s : Store) : Prop where
  inv : StoreInv dev geo s
  pools : ∀ p, s₁.sys.fs.PoolLive p →
    s.sys.fs.PoolLive p ∧ (s.sys.fs.pools.entries p).objNlb = (s₁.sys.fs.pools.entries p).objNlb
  metadata : ∀ i < flaGeoNbytes geo, s.sys.fs.disk i = s₁.sys.fs.disk i

section Since

variable {dev : Dev} {npools slabNlb : ℕ} {geo : Geo} {s s₁ t : Store} {async : StrpXfer}

theorem Mixed.poolLive {geo : Geo} {s t : Sys} {F : List ℕ} {A : Set ℕ} (hm : Mixed geo s F A)
    (hn : s.fs.npools ≤ 2 ^ 31) {env : Env} {op : Op} {err : ℤ} (hstay : PoolsStay op)
    (h : FlexAlloc.perform env s op = .ok (err, t)) {p : ℕ} (hp : s.fs.PoolLive p) : t.fs.PoolLive p := by
  cases op with
  | poolCreate arg =>
    obtain ⟨⟨err₁, handle, fs⟩, hrun, h⟩ := bind_eq_ok h
    cases h
    obtain ⟨-, -, ⟨-, hlive⟩ | ⟨-, k, e, hc⟩⟩ := poolCreate_cases hm.dir hn hrun
    · exact (hlive p).2 hp
    · exact (hc.live p).2 (.inr hp)
  | poolDestroy handle => exact hstay.elim
  | objectCreate ndx =>
    obtain ⟨⟨err₁, obj, fs⟩, hrun, h⟩ := bind_eq_ok h
    cases h
    unfold Flexalloc.PoolLive
    rw [(objectCreate_steady hrun).flist]
    exact hp
  | objectDestroy ndx obj =>
    obtain ⟨⟨err₁, fs⟩, hrun, h⟩ := bind_eq_ok h
    cases h
    unfold Flexalloc.PoolLive
    rw [(objectDestroy_steady hrun).flist]
    exact hp

theorem StoreInv.behind (hd : Medium dev npools slabNlb geo) (h : StoreInv dev geo s) {o : Obj × ℕ}
    (ho : o ∈ s.sys.live) : flaGeoNbytes geo ≤ s.sys.cells.start o := by
  obtain ⟨F, A, hm⟩ := h.mixed
  obtain ⟨-, hslba, -, -⟩ := hm.place hd (o := o.1) (p := o.2) ho
  obtain ⟨base, -, hbase, rfl⟩ := hd.unwrapped
  have hle : flaGeoNblocks geo ≤ flaObjectSlba (.single geo) (s.sys.fs.pools.entries o.2).objNlb o.1 := by
    rw [hslba]
    omega
  unfold Sys.cells flaGeoNbytes
  dsimp only
  rw [h.vol.geo_eq, hm.vol]
  exact Nat.mul_le_mul_right _ hle

theorem Since.wrote (hd : Medium dev npools slabNlb geo) (h : Since dev geo s₁ s) {ndx : ℕ} {obj : Obj} {buf : Bytes}
    {offset len : ℕ} (hin : InObject s.sys ndx obj offset len) {r : ℤ × Bytes}
    (hinv : StoreInv dev geo (s.wrote ndx obj buf offset len r))
    (hout : ∀ i < s.sys.cells.start (obj, ndx) + offset, r.2 i = s.sys.fs.disk i) :
    Since dev geo s₁ (s.wrote ndx obj buf offset len r) := by
  refine ⟨hinv, h.pools, fun i hi => ?_⟩
  have hbehind := h.inv.behind hd hin.live
  exact (hout i (by omega)).trans (h.metadata i hi)

/-- **Each call** other than a sync. -/
theorem Since.step (hd : Medium dev npools slabNlb geo) (h : Since dev geo s₁ s) {x : Env × StoreOp} (hx : Unsynced s x)
    (henv : x.1.Exact dev) (hstep : storeStep async s x = some t) : Since dev geo s₁ t := by
  have hinv := h.inv.step hd hx.1 henv hstep
  obtain ⟨env, op⟩ := x
  obtain ⟨hlegal, hsync⟩ := hx
  obtain ⟨F, A, hm⟩ := h.inv.mixed
  have hg := hd.formatted.volOk hd.nslabs
  cases op with
  | call op =>
    obtain ⟨sys, hop, rfl⟩ := Option.map_eq_some_iff.1 hstep
    obtain ⟨-, err, hperf⟩ := step_eq_some hop
    obtain ⟨c, res, hc, hcall⟩ := perform_call hperf
    have hn := hm.npools_le hg
    refine ⟨hinv, fun p hp => ?_, fun i hi => ?_⟩
    · obtain ⟨hp', hnlb⟩ := h.pools p hp
      exact ⟨hm.poolLive hn hlegal.1 hperf hp', (hm.objNlb hn hlegal.1 hperf hp').trans hnlb⟩
    · dsimp only
      rw [(baseCall_disks hc hcall).1]
      exact h.metadata i hi
  | sync => cases hsync
  | write ndx obj buf offset len =>
    obtain ⟨r, hrun, rfl⟩ := Option.map_eq_some_iff.1 hstep
    have hin : BlocksOf s.sys ndx obj offset len := hlegal
    exact h.wrote hd hin.toInObject hinv fun i hi => (h.inv.write_torn hd hin henv hrun).outside i (.inl hi)
  | unalignedWrite ndx obj buf offset len =>
    obtain ⟨r, hrun, rfl⟩ := Option.map_eq_some_iff.1 hstep
    have hin : InObject s.sys ndx obj offset len := hlegal
    exact h.wrote hd hin hinv fun i hi => (h.inv.unalignedWrite_torn hd hin henv hrun).outside i (.inl hi)

theorem StoreInv.since (h : StoreInv dev geo s) : Since dev geo s s := ⟨h, fun _ hp => ⟨hp, rfl⟩, fun _ _ => rfl⟩

end Since

/-! ## After a cut -/

section Survival

variable {dev : Dev} {npools slabNlb : ℕ} {geo : Geo} {s s₁ t : Store} {fs₁ fs' : Flexalloc} {async : StrpXfer} {env : Env}
  {p : ℕ} {o : Obj}

theorem Mixed.entry_stored {F : List ℕ} {A : Set ℕ} {s : Sys} (hm : Mixed geo s F A) (hd : Medium dev npools slabNlb geo)
    (hp : s.fs.PoolLive p) :
    (s.fs.pools.entries p).stored.objNlb = (s.fs.pools.entries p).objNlb ∧
      (s.fs.pools.entries p).stored.slabNobj = (s.fs.pools.entries p).slabNobj := by
  have hused := hm.dir.used p hp
  have hcalc := hm.nobj p hused
  rw [hm.vol] at hcalc
  obtain ⟨-, -, -, -, hslab, -, -⟩ := hd.formatted.bounds
  have h32 : geo.slabNlb < 2 ^ 32 := hslab ▸ (hd.mounted fun _ => 0).slabNlb_lt
  have hpos := Nat.pos_of_ne_zero hused
  have hfit : (s.fs.pools.entries p).slabNobj * (s.fs.pools.entries p).objNlb + _ ≤ geo.slabNlb :=
    (calcObjs_spec rfl h32 hcalc).2 hpos
  have hle := Nat.le_mul_of_pos_left (s.fs.pools.entries p).objNlb hpos
  have hcount : (s.fs.pools.entries p).slabNobj ≤ geo.slabNlb := calcObjs_le hcalc
  exact ⟨Nat.mod_eq_of_lt (by omega), Nat.mod_eq_of_lt (by omega)⟩

/-- **A system that opens** serves the pools that were live at the sync and that the search of the open comes to. -/
theorem Reopened.served (hd : Medium dev npools slabNlb geo) (h : StoreInv dev geo s) (hr : Reopened s.sys.fs fs')
    (hvis : p ∈ s.sys.fs.pools.freelist.visited) :
    Served geo fs' (fun _ => p) ∧ (fs'.pools.entries p).objNlb = (s.sys.fs.pools.entries p).objNlb ∧
      (fs'.pools.entries p).slabNobj = (s.sys.fs.pools.entries p).slabNobj := by
  obtain ⟨F, A, hm⟩ := h.mixed
  have hp : s.sys.fs.PoolLive p := (List.mem_filter.1 hvis).1
  have hs := hm.served hd h.vol.devs.1 hp
  obtain ⟨hnlb, hnobj⟩ := hm.entry_stored hd hp
  have hlt : p < s.sys.fs.npools := ((poolLive_iff hm.dir.len p).1 hp).1
  rw [← hr.entry p hlt] at hnlb hnobj
  have hnp : fs'.npools = s.sys.fs.npools := by rw [Flexalloc.npools, hr.vol]
  refine ⟨⟨hr.vol.trans hs.vol, ?_, hs.lb_pos, hs.lb_lt, ?_, hs.nlb_lt, hs.fits, fun _ _ => hnp ▸ hlt, fun _ _ => ?_,
    fun x hx => ?_⟩, hnlb, hnobj⟩
  · rw [hr.devs.1]
    exact hs.lb
  · rw [hr.devs.1]
    exact hs.nlb
  · rw [hr.funcs p, if_pos hvis]
  · rw [hnlb, hnobj]
    exact hs.nobj x hx

/-- what is read in `fs'` of the objects of `s`, in pools that were there at the sync of `s₁` -/
structure Survives (dev : Dev) (async : StrpXfer) (s₁ s : Store) (fs' : Flexalloc) : Prop where
  /-- a read that returns 0 returns what is known -/
  read : ∀ o p offset len, p ∈ s₁.sys.fs.pools.freelist.visited → BlocksOf s.sys p o offset len →
    ∀ env : Env, env.RangesOk dev → ∀ out out', flaObjectRead env async fs' p o out offset len = .ok (0, out') →
      ∀ i < len, ∀ v, s.known (o, p) (offset + i) = some v → out' i = v
  /-- a read whose commands succeed returns 0 -/
  works : ∀ o p offset len, p ∈ s₁.sys.fs.pools.freelist.visited → BlocksOf s.sys p o offset len →
    ∀ env : Env, env.RangesOk dev → (∀ b, env.nvmRead b = 0) → 0 < flaXneCalcMdtsNaddrs dev → ∀ out,
      ∃ out', flaObjectRead env async fs' p o out offset len = .ok (0, out')

theorem Since.survives (hd : Medium dev npools slabNlb geo) (h₁ : StoreInv dev geo s₁) (h : Since dev geo s₁ s)
    (hr : Reopened s₁.sys.fs fs') (hdisk : fs'.disk = s.sys.fs.disk) : Survives dev async s₁ s fs' := by
  obtain ⟨F₁, A₁, hm₁⟩ := h₁.mixed
  obtain ⟨F, A, hm⟩ := h.inv.mixed
  have hgeo : s.sys.fs.geo = geo := h.inv.vol.geo_eq
  have hdev : fs'.dev = dev := hr.devs.1.trans h₁.vol.devs.1
  -- the pool has the same objects as at the cut
  have hpool : ∀ p, p ∈ s₁.sys.fs.pools.freelist.visited → Served geo fs' (fun _ => p) ∧
      (fs'.pools.entries p).objNlb = (s.sys.fs.pools.entries p).objNlb ∧
        (fs'.pools.entries p).slabNobj = (s.sys.fs.pools.entries p).slabNobj := by
    intro p hvis
    obtain ⟨hs, hnlb, hnobj⟩ := hr.served hd h₁ hvis
    have hp₁ : s₁.sys.fs.PoolLive p := (List.mem_filter.1 hvis).1
    obtain ⟨hp, hsame⟩ := h.pools p hp₁
    have hcalc₁ := hm₁.nobj p (hm₁.dir.used p hp₁)
    have hcalc := hm.nobj p (hm.dir.used p hp)
    rw [hsame, hm.vol, ← hm₁.vol, hcalc₁] at hcalc
    exact ⟨hs, hnlb.trans hsame.symm, hnobj.trans (Except.ok.inj hcalc)⟩
  have hobj : ∀ {o p offset len}, p ∈ s₁.sys.fs.pools.freelist.visited → BlocksOf s.sys p o offset len →
      ValidObj geo fs' (fun _ => p) o ∧ Aligned geo (fs'.pools.entries p).objNlb offset len := by
    intro o p offset len hvis hb
    obtain ⟨-, hnlb, hnobj⟩ := hpool p hvis
    obtain ⟨hlt, hentry⟩ := hm.valid hb.live
    exact ⟨⟨hlt, hnobj.symm ▸ hentry⟩, hnlb.symm ▸ hb.aligned hgeo⟩
  refine ⟨fun o p offset len hvis hb env hr' out out' hrun i hi v hv => ?_,
    fun o p offset len hvis hb env hr' hok hmdts out => ?_⟩
  · obtain ⟨hs, hnlb, -⟩ := hpool p hvis
    obtain ⟨hvalid, haligned⟩ := hobj hvis hb
    have hcell : objStart geo fs' (fun _ => p) o = s.sys.cells.start (o, p) := by
      unfold objStart Flexalloc.objNlbOf Sys.cells
      dsimp only
      rw [hnlb, hgeo, hm.vol]
    have hk : ∀ j w, s.known (o, p) j = some w → fs'.disk (objStart geo fs' (fun _ => p) o + j) = w := by
      rw [hcell, hdisk]
      exact h.inv.holds.same (o, p)
    exact hs.read_known (hdev.symm ▸ hr') hvalid haligned hk hrun hi hv
  · obtain ⟨hvalid, haligned⟩ := hobj hvis hb
    exact (hpool p hvis).1.read_works (hdev.symm ▸ hr') hvalid haligned hok (hdev.symm ▸ hmdts) out

/-- **Power cuts.** After a sync clients go on; then the power goes. When the device is opened again the objects that were
live at the cut, in pools that were there at the sync, read as what was last written to them. -/
theorem store_survives (hd : Medium dev npools slabNlb geo) (hbytes : flaGeoNbytes geo < 2 ^ 32) (disk : Bytes)
    {before after : List (Env × StoreOp)} (henv : ∀ x ∈ before, x.1.Exact dev)
    (hlegal : along StoreLegal (storeStep async) (.init dev geo disk) before)
    (hbefore : run (storeStep async) (.init dev geo disk) before = some s) (hx : env.Exact dev)
    (hsync : flaFlush env s.sys.fs = .ok (0, fs₁)) (henv' : ∀ x ∈ after, x.1.Exact dev)
    (hunsynced : along Unsynced (storeStep async) ⟨⟨fs₁, s.sys.live⟩, s.known⟩ after)
    (hafter : run (storeStep async) ⟨⟨fs₁, s.sys.live⟩, s.known⟩ after = some t) {env' : Env} (hr : env'.OffsetsExact dev)
    {mdDisk : Bytes} {err : ℤ} (hopen : flaOpen env' dev dev false t.sys.fs.disk mdDisk = .ok (err, some fs')) :
    Survives dev async ⟨⟨fs₁, s.sys.live⟩, s.known⟩ t fs' := by
  have hinv := hd.reached disk henv hlegal hbefore
  have hl : Laid dev dev false npools slabNlb geo := ⟨hd.formatted.accepted, (hd.mounted disk).slabNlb_lt, rfl, hd.lb.1, hbytes⟩
  obtain ⟨hheld, hlen⟩ := hl.flushed hinv.vol (by rw [hinv.vol.mdHome]; exact hx.2) hsync
  have hstep : storeStep async s (env, .sync) = some ⟨⟨fs₁, s.sys.live⟩, s.known⟩ := by
    show (flaFlush env s.sys.fs).toOption.map _ = _
    rw [hsync]
    rfl
  have hsyncs : StoreLegal s (env, .sync) := trivial
  have hsynced := hinv.step hd hsyncs hx hstep
  have hsince : Since dev geo ⟨⟨fs₁, s.sys.live⟩, s.known⟩ t :=
    run_inv_along (fun _ _ _ h hx hr hstep => h.step hd hx hr hstep) hsynced.since henv' hunsynced hafter
  have hheld' : ∀ i < flaGeoNbytes geo, (if false then mdDisk else t.sys.fs.disk) i = mdBuffer fs₁ i := fun i hi =>
    (hsince.metadata i hi).trans (hheld i hi)
  obtain ⟨hreopened, hdisk, -⟩ := open_reopened hl hsynced.vol hlen hr hheld' hopen
  exact hsince.survives hd hsynced hreopened hdisk

/-- the object that is left is written over and another is created; then the power goes -/
def unsyncedCalls : List (Env × StoreOp) :=
  [.write 0 ⟨0, 0⟩ (fun _ => 4) 0 512, .call (.objectCreate 0)].map (Env.reliable, ·)

theorem store_survives_small : ∃ s fs₁ t fs' err,
    run (storeStep fun _ _ b => .ok (0, b)) (.init smallDev smallGeo 0) storeCalls = some s ∧
      flaFlush .reliable s.sys.fs = .ok (0, fs₁) ∧
      run (storeStep fun _ _ b => .ok (0, b)) ⟨⟨fs₁, s.sys.live⟩, s.known⟩ unsyncedCalls = some t ∧
      flaOpen .reliable smallDev smallDev false t.sys.fs.disk t.sys.fs.mdDisk = .ok (err, some fs') ∧
      0 ∈ fs₁.pools.freelist.visited ∧ (⟨0, 0⟩, 0) ∈ t.sys.live ∧ t.known (⟨0, 0⟩, 0) 3 = some 4 ∧
      Survives smallDev (fun _ _ b => .ok (0, b)) ⟨⟨fs₁, s.sys.live⟩, s.known⟩ t fs' := by
  obtain ⟨s, hrun, hval⟩ := Option.bind_eq_some_iff.1 (show ((run (storeStep fun _ _ b => .ok (0, b))
    (.init smallDev smallGeo 0) storeCalls).bind fun s => (flaFlush .reliable s.sys.fs).toOption.bind fun r =>
      (run (storeStep fun _ _ b => .ok (0, b)) ⟨⟨r.2, s.sys.live⟩, s.known⟩ unsyncedCalls).bind fun t =>
        (flaOpen .reliable smallDev smallDev false t.sys.fs.disk t.sys.fs.mdDisk).toOption.bind fun o => o.2.map fun _ =>
          decide (r.1 = 0 ∧ 0 ∈ r.2.pools.freelist.visited ∧ (⟨0, 0⟩, 0) ∈ t.sys.live ∧
            t.known (⟨0, 0⟩, 0) 3 = some 4 ∧ along Unsynced (storeStep fun _ _ b => .ok (0, b))
              ⟨⟨r.2, s.sys.live⟩, s.known⟩ unsyncedCalls)) = some true by decide +kernel)
  obtain ⟨⟨err₁, fs₁⟩, hsync, hval⟩ := Option.bind_eq_some_iff.1 hval
  obtain ⟨t, hafter, hval⟩ := Option.bind_eq_some_iff.1 hval
  obtain ⟨⟨err, opened⟩, hopen, hval⟩ := Option.bind_eq_some_iff.1 hval
  obtain ⟨fs', hfs', hchecks⟩ := Option.map_eq_some_iff.1 hval
  obtain rfl : opened = some fs' := hfs'
  obtain ⟨herr, hvis, hlive, hknown, halong⟩ := of_decide_eq_true hchecks
  obtain rfl : err₁ = 0 := herr
  refine ⟨s, fs₁, t, fs', err, hrun, toOption_eq_some hsync, hafter, toOption_eq_some hopen, hvis, hlive, hknown,
    store_survives small_medium (by decide +kernel) 0 storeCalls_exact (by decide +kernel) hrun
      ⟨reliable_rangesOk _, reliable_rangesExact _⟩ (toOption_eq_some hsync) (fun x hx => ?_) halong hafter
      (reliable_offsetsExact _) (toOption_eq_some hopen)⟩
  obtain ⟨op, -, rfl⟩ := List.mem_map.1 hx
  exact ⟨reliable_rangesOk _, reliable_rangesExact _⟩

end Survival

end FlexAlloc
