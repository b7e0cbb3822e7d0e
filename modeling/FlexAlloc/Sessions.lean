/-
Sessions: a device is opened, used and closed, and opened again.

A session is made of calls of the library, writes to objects and zones, and closing with opening again (`fla_base_close`,
then `fla_open`). Zone resets are sent by `fla_base_object_destroy` and reach the device whatever the call goes on to
return; what a zone reads as after a reset is a parameter (`wiped`).

- `Standing`: what every open system has, whatever was asked of it: it is on its volume, no pool is striped, and every
  link of its lists ends the list or is a slab, but for the one that mkfs leaves in the header of a single slab (`BackLink`).
- `Standing.reopen`: closing and opening again keeps it.
- `session_standing`: so every session does.
-/
import FlexAlloc.Links
import FlexAlloc.Reopen
import FlexAlloc.Striping
import FlexAlloc.UnalignedWrite
import FlexAlloc.Zones

namespace FlexAlloc

open FlexAlloc.Core Function

/-! ## What stands -/

section Effect

variable {P : ℕ → Prop} {fs fs' : Flexalloc}

theorem HtblAfter.tblSize {t t' : Htbl} (h : HtblAfter t t') : t'.tblSize = t.tblSize := by
  rcases h with ⟨name, ndx, err, h⟩ | ⟨name, h⟩
  · unfold htblInsert at h
    split_ifs at h
    · cases h
      rfl
    · obtain ⟨⟨tbl, new⟩, -, h⟩ := bind_eq_ok h
      cases h
      rfl
  · obtain ⟨found, -, h⟩ := bind_eq_ok h
    cases found with
    | none =>
      cases h
      rfl
    | some entry =>
      obtain ⟨tbl, -, h⟩ := bind_eq_ok h
      cases h
      rfl

theorem Effect.onVol {dev mdDev : Dev} {hasMd : Bool} {geo : Geo} (hv : OnVol dev mdDev hasMd geo fs)
    (h : Effect P fs fs') : OnVol dev mdDev hasMd geo fs' := by
  obtain ⟨hvol, hdevs, hflist, hhdr, htbl⟩ := hv
  cases h with
  | flist fl hlen => exact ⟨hvol, hdevs, hlen.trans hflist, hhdr, htbl⟩
  | htbl t ht => exact ⟨hvol, hdevs, hflist, hhdr, ht.tblSize.trans htbl⟩
  | dispatch ndx => exact ⟨hvol, hdevs, hflist, hhdr, htbl⟩
  | flushed _ h =>
    obtain ⟨n, hp⟩ := h.pools
    refine ⟨h.vol.trans hvol, ⟨h.devs.1.trans hdevs.1, h.devs.2.trans hdevs.2⟩, ?_, ?_, ?_⟩
    · rw [hp]
      exact hflist
    · rw [hp]
      exact hhdr
    · rw [hp]
      exact htbl
  | _ => exact ⟨hvol, hdevs, hflist, hhdr, htbl⟩

/-- links that lead back keep any property of the values that pass the checks -/
theorem Effect.prev {Q : ℕ → Prop} (hQ : ∀ v, Within fs.nslabs v → Q v) (hp : ∀ s, Q (fs.header s).prev)
    (h : Effect P fs fs') (s : ℕ) : Q (fs'.header s).prev := by
  have hrelinked : ∀ hd, Relinked P fs.nslabs fs.slabs.headers hd → Q (hd s).prev := fun hd hhd => by
    rcases hhd.prev s with heq | hw
    · rw [heq]
      exact hp s
    · exact hQ _ hw
  have hset : ∀ x h', Q h'.prev → Q ((fs.setHeader x h').header s).prev := fun x _ hq =>
    setHeader_forall (Q := fun h => Q h.prev) hp x hq s
  cases h with
  | list ndx k hd v hhd hv => exact hrelinked hd hhd
  | queue hd num head tail hhd _ _ _ => exact hrelinked hd hhd
  | format x => exact hset x _ (hQ _ (within_null _))
  | count x n _ => exact hset x _ (hp x)
  | flushed _ h =>
    rw [Flexalloc.header, h.slabs]
    exact hp s
  | _ => exact hp s

end Effect

/-- a link that leads back ends a list or is a slab, or it is what mkfs leaves in the header of a single slab -/
def BackLink (n v : ℕ) : Prop := Within n v ∨ n = 1 ∧ v = 2 ^ 32 - 1

/-- an open system on a volume, without striped pools, whose links end a list or are slabs -/
structure Standing (dev mdDev : Dev) (hasMd : Bool) (geo : Geo) (fs : Flexalloc) : Prop where
  vol : OnVol dev mdDev hasMd geo fs
  plain : NoStripes fs
  links : LinksIn (Within geo.nslabs) fs
  prev : ∀ s, BackLink geo.nslabs (fs.header s).prev

/-- the header still leads back to what mkfs left in it, on a system of one slab -/
def NeverAcquired (geo : Geo) (fs : Flexalloc) (slab : ℕ) : Prop := geo.nslabs = 1 ∧ (fs.header slab).prev = 2 ^ 32 - 1

section Standing

variable {dev mdDev : Dev} {hasMd : Bool} {npools slabNlb : ℕ} {geo : Geo} {fs fs' : Flexalloc}

theorem Standing.within_iff (h : Standing dev mdDev hasMd geo fs) (slab : ℕ) :
    Within geo.nslabs (fs.header slab).prev ↔ ¬ NeverAcquired geo fs slab := by
  constructor
  · rintro hw ⟨hone, hprev⟩
    rw [hone, hprev] at hw
    rcases hw with hnull | hck
    · exact absurd hnull (by decide)
    · exact absurd hck (by decide)
  · exact (h.prev slab).resolve_right

theorem Standing.effect (h : Standing dev mdDev hasMd geo fs) (he : Effect (Within geo.nslabs) fs fs') :
    Standing dev mdDev hasMd geo fs' := by
  have hn : fs.nslabs = geo.nslabs := congrArg Geo.nslabs h.vol.geo_eq
  refine ⟨he.onVol h.vol, h.plain.plain he.plain, he.linksIn h.links, fun s => ?_⟩
  exact he.prev (fun v hv => .inl (hn ▸ hv)) h.prev s

theorem Standing.effects (h : Standing dev mdDev hasMd geo fs) (he : Effects (Within geo.nslabs) fs fs') :
    Standing dev mdDev hasMd geo fs' :=
  he.inv (fun _ _ he h => h.effect he) h

theorem Standing.setDisk (h : Standing dev mdDev hasMd geo fs) (disk : Bytes) :
    Standing dev mdDev hasMd geo { fs with disk := disk } :=
  ⟨⟨h.vol.vol, h.vol.devs, h.vol.flist, h.vol.hdr, h.vol.tbl⟩, ⟨h.plain.funcs, ⟨h.plain.fits.1, h.plain.fits.2, h.plain.fits.3⟩⟩,
    ⟨h.links.checked, h.links.next, h.links.heads, h.links.queue⟩, h.prev⟩

theorem within_of_lt {n s : ℕ} (hn : n < 2 ^ 32) (hs : s < n) : Within n s := .inr (rangeCheck_of_lt hn hs)

/-- with a single slab its header leads back to 2^32 - 1, until the slab is acquired -/
theorem mkfs_within {n : ℕ} (hn : 0 < n) (h32 : n < 2 ^ 32) (s : ℕ) :
    BackLink n (mkfsHeaders n s).prev ∧ Within n (mkfsHeaders n s).next := by
  have hlast : sub32 n 1 = n - 1 := sub32_of_le hn h32
  unfold mkfsHeaders
  rw [hlast]
  split_ifs with hmid hend hzero
  · have hprev : s - 1 < n := by omega
    have hnext : s + 1 < n := by omega
    exact ⟨.inl (within_of_lt h32 hprev), within_of_lt h32 hnext⟩
  · refine ⟨?_, within_null n⟩
    show BackLink n (sub32 (n - 1) 1)
    rcases Nat.eq_or_lt_of_le hn with rfl | hmore
    · exact .inr ⟨rfl, rfl⟩
    · rw [sub32_of_le (by omega) (by omega)]
      exact .inl (within_of_lt h32 (by omega))
  · exact ⟨.inl (within_null n), within_of_lt h32 (show 1 < n by omega)⟩
  · exact ⟨.inl (within_of_lt h32 hn), within_of_lt h32 hn⟩

/-- **At the start.** -/
theorem Mounted.standing (hm : Mounted dev mdDev hasMd npools slabNlb geo fs) : Standing dev mdDev hasMd geo fs := by
  obtain ⟨hnpools, hle, h32, -⟩ := accepted_bounds hm.accepted
  have hn : 0 < geo.nslabs := hnpools.trans_le hle
  have hzero : Within geo.nslabs 0 := within_of_lt h32 hn
  have hheader : ∀ s, fs.header s = mkfsHeaders geo.nslabs s := fun s => by
    rw [Flexalloc.header, hm.fresh.slabs]
    rfl
  have hvol : OnVol dev mdDev hasMd geo fs := by
    refine ⟨hm.fresh.vol, hm.devs, ?_, ?_, ?_⟩
    · rw [hm.fresh.pools]
      rfl
    · rw [hm.fresh.pools]
      rfl
    · rw [hm.fresh.pools]
      rfl
  refine ⟨hvol, hm.noStripes, ⟨fun v hv => ?_, fun s => ?_, fun i k => ?_, ?_⟩, fun s => ?_⟩
  · rw [← congrArg Geo.nslabs hvol.geo_eq]
    exact hv
  · rw [hheader]
    exact (mkfs_within hn h32 s).2
  · rw [hm.fresh.pools]
    cases k <;> exact hzero
  · rw [hm.fresh.slabs]
    refine ⟨hzero, ?_⟩
    show Within geo.nslabs (sub32 geo.nslabs 1)
    rw [sub32_of_le (by omega) h32]
    exact within_of_lt h32 (by omega)
  · rw [hheader]
    exact (mkfs_within hn h32 s).1

/-! ## Closing and opening again -/

theorem Within.stored {n v : ℕ} (h : Within n v) : Within n (v % 2 ^ 32) := by
  rcases h with rfl | hck
  · exact .inl rfl
  · have hle : v ≤ sub32 n 1 := Nat.not_lt.1 (of_decide_eq_false hck)
    have hlt : sub32 n 1 < 2 ^ 32 := Nat.mod_lt _ (Nat.two_pow_pos 32)
    rw [Nat.mod_eq_of_lt (hle.trans_lt hlt)]
    exact .inr hck

theorem BackLink.stored {n v : ℕ} (h : BackLink n v) : BackLink n (v % 2 ^ 32) := by
  rcases h with hw | ⟨rfl, rfl⟩
  · exact .inl hw.stored
  · exact .inr ⟨rfl, rfl⟩

theorem PoolEntry.stored_head (e : PoolEntry) (k : SlabKind) : e.stored.head k = e.head k % 2 ^ 32 := by
  cases k <;> rfl

/-- **Closing and opening again** keeps what stands. -/
theorem Standing.reopen (hl : Laid dev mdDev hasMd npools slabNlb geo) (h : Standing dev mdDev hasMd geo fs)
    {env₁ env₂ : Env} (hr₁ : env₁.RangesExact fs.mdHome) (hr₂ : env₂.OffsetsExact fs.mdHome) {fs₁ : Flexalloc} {err : ℤ}
    (hflush : flaFlush env₁ fs = .ok (0, fs₁))
    (hopen : flaOpen env₂ fs.dev fs.mdDev fs.vol.hasMd fs₁.disk fs₁.mdDisk = .ok (err, some fs')) :
    Standing dev mdDev hasMd geo fs' := by
  obtain ⟨hr, -⟩ := reopen_inv hl h.vol hr₁ hr₂ hflush hopen
  obtain ⟨-, h32, -⟩ := hl.bounds
  have hpos : 0 < geo.nslabs := (accepted_bounds hl.accepted).1.trans_le (accepted_bounds hl.accepted).2.1
  have hzero : Within geo.nslabs 0 := within_of_lt h32 hpos
  have hheader : ∀ s, BackLink geo.nslabs (fs'.header s).prev ∧ Within geo.nslabs (fs'.header s).next := fun s => by
    by_cases hs : s < fs.nslabs
    · rw [hr.header s hs]
      exact ⟨(h.prev s).stored, (h.links.next s).stored⟩
    · rw [hr.header_past s (Nat.not_lt.1 hs)]
      exact ⟨.inl hzero, hzero⟩
  have hvol : OnVol dev mdDev hasMd geo fs' :=
    ⟨hr.vol.trans h.vol.vol, ⟨hr.devs.1.trans h.vol.devs.1, hr.devs.2.trans h.vol.devs.2⟩,
      (congrArg Freelist.len hr.flist).trans h.vol.flist, hr.hdr.trans h.vol.hdr, hr.tblSize.trans h.vol.tbl⟩
  refine ⟨hvol, open_noStripes hopen, ⟨fun v hv => ?_, fun s => (hheader s).2, fun i k => ?_, ?_⟩, fun s => (hheader s).1⟩
  · rw [← congrArg Geo.nslabs hvol.geo_eq]
    exact hv
  · by_cases hi : i < fs.npools
    · rw [hr.entry i hi, PoolEntry.stored_head]
      exact (h.links.heads i k).stored
    · rw [hr.entry_past i (Nat.not_lt.1 hi)]
      cases k <;> exact hzero
  · rw [hr.head, hr.tail]
    exact ⟨h.links.queue.1.stored, h.links.queue.2.stored⟩

end Standing

/-! ## Zone resets -/

def resetZone (wiped : Bytes) (lb nzsect slba : ℕ) (disk : Bytes) : Bytes :=
  copyBytes disk (slba / nzsect * nzsect * lb) wiped (slba / nzsect * nzsect * lb) (nzsect * lb)

def ZoneByte (lb nzsect slba i : ℕ) : Prop :=
  slba / nzsect * nzsect * lb ≤ i ∧ i < slba / nzsect * nzsect * lb + nzsect * lb

theorem resetZone_in {wiped : Bytes} {lb nzsect slba i : ℕ} (h : ZoneByte lb nzsect slba i) (disk : Bytes) :
    resetZone wiped lb nzsect slba disk i = wiped i := by
  rw [resetZone, copyBytes_of_mem h.1 h.2, Nat.add_sub_cancel' h.1]

theorem resetZone_out {wiped : Bytes} {lb nzsect slba i : ℕ} (h : ¬ ZoneByte lb nzsect slba i) (disk : Bytes) :
    resetZone wiped lb nzsect slba disk i = disk i := by
  unfold ZoneByte at h
  exact copyBytes_of_not_mem (by omega)

/-- the device after the zone resets that `fla_base_object_destroy` sends first; one that fails resets nothing -/
def afterResets (wiped : Bytes) (env : Env) (fs : Flexalloc) (ndx : ℕ) (obj : Obj) : Bytes :=
  match fs.vol.cs with
  | .cns => fs.disk
  | .zns nzsect =>
    match zndManagedSlbas fs nzsect ndx obj with
    | .error _ => fs.disk
    | .ok slbas => slbas.foldl (fun disk slba =>
        if env.zndMgmtSend slba = 0 then resetZone wiped fs.dev.lbNbytes nzsect slba disk else disk) fs.disk

/-- `fla_base_object_destroy` with what it does to the device -/
def destroyObject (wiped : Bytes) (env : Env) (fs : Flexalloc) (ndx : ℕ) (obj : Obj) : Ret (ℤ × Flexalloc) :=
  flaBaseObjectDestroy env { fs with disk := afterResets wiped env fs ndx obj } ndx obj

/-! ## Sessions -/

/-- what a client may do with an open system -/
inductive SessionOp where
  | call (c : Call)
  | write (ndx : ℕ) (obj : Obj) (buf : Bytes) (offset len : ℕ)
  | unalignedWrite (ndx : ℕ) (obj : Obj) (buf : Bytes) (offset len : ℕ)
  /-- close, and open with the devices behaving as `env` -/
  | reopen (env : Env)

/-- one call; closing stops at a flush that fails -/
def sessionStep (wiped : Bytes) (async : StrpXfer) (fs : Flexalloc) (x : Env × SessionOp) : Option Flexalloc :=
  match x.2 with
  | .call (.objectDestroy pool obj) => (destroyObject wiped x.1 fs pool.ndx obj).toOption.map (·.2)
  | .call c => (baseCall x.1 fs c).toOption.map (·.2)
  | .write ndx obj buf offset len =>
    (flaObjectWrite x.1 async fs ndx obj buf offset len).toOption.map fun r => { fs with disk := r.2 }
  | .unalignedWrite ndx obj buf offset len =>
    (flaObjectUnalignedWrite x.1 fs ndx obj buf offset len).toOption.map fun r => { fs with disk := r.2 }
  | .reopen env =>
    match flaFlush x.1 fs with
    | .ok (0, fs₁) => (flaOpen env fs.dev fs.mdDev fs.vol.hasMd fs₁.disk fs₁.mdDisk).toOption.bind (·.2)
    | _ => none

/-- the block ranges of the metadata are built as they should be when a system is closed and opened -/
def ExactRanges (home : Dev) : Env × SessionOp → Prop
  | (env₁, .reopen env₂) => env₁.RangesExact home ∧ env₂.OffsetsExact home
  | _ => True

section Sessions

variable {dev mdDev : Dev} {hasMd : Bool} {npools slabNlb : ℕ} {geo : Geo} {fs fs' : Flexalloc}
variable {wiped : Bytes} {async : StrpXfer}

theorem reopen_eq_some {env env₂ : Env} (hstep : sessionStep wiped async fs (env, .reopen env₂) = some fs') :
    ∃ fs₁ err, flaFlush env fs = .ok (0, fs₁) ∧
      flaOpen env₂ fs.dev fs.mdDev fs.vol.hasMd fs₁.disk fs₁.mdDisk = .ok (err, some fs') := by
  simp only [sessionStep] at hstep
  split at hstep
  · rename_i fs₁ hflush
    obtain ⟨⟨err, r⟩, hopen, hr⟩ := Option.bind_eq_some_iff.1 hstep
    obtain rfl : r = some fs' := hr
    exact ⟨fs₁, err, hflush, toOption_eq_some hopen⟩
  · cases hstep

theorem destroyObject_effects {P : ℕ → Prop} {env : Env} {ndx : ℕ} {obj : Obj} {err : ℤ}
    (hl : LinksIn P { fs with disk := afterResets wiped env fs ndx obj })
    (h : destroyObject wiped env fs ndx obj = .ok (err, fs')) :
    Effects P { fs with disk := afterResets wiped env fs ndx obj } fs' := objectDestroy_effects hl h

/-- **Each step keeps what stands.** -/
theorem Standing.step (hl : Laid dev mdDev hasMd npools slabNlb geo) (h : Standing dev mdDev hasMd geo fs)
    {x : Env × SessionOp} (hx : ExactRanges (if hasMd then mdDev else dev) x)
    (hstep : sessionStep wiped async fs x = some fs') : Standing dev mdDev hasMd geo fs' := by
  obtain ⟨env, op⟩ := x
  cases op with
  | call c =>
    have hcall : ∀ {res : Res} {fs' : Flexalloc}, baseCall env fs c = .ok (res, fs') → Standing dev mdDev hasMd geo fs' :=
      fun hrun => h.effects (baseCall_effects h.links hrun)
    cases c with
    | objectDestroy pool obj =>
      obtain ⟨⟨err, fs₁⟩, hrun, rfl⟩ := Option.map_eq_some_iff.1 hstep
      have hd := h.setDisk (afterResets wiped env fs pool.ndx obj)
      exact hd.effects (destroyObject_effects hd.links (toOption_eq_some hrun))
    | _ =>
      obtain ⟨⟨res, fs₁⟩, hrun, rfl⟩ := Option.map_eq_some_iff.1 hstep
      exact hcall (toOption_eq_some hrun)
  | write ndx obj buf offset len =>
    obtain ⟨r, -, rfl⟩ := Option.map_eq_some_iff.1 hstep
    exact h.setDisk r.2
  | unalignedWrite ndx obj buf offset len =>
    obtain ⟨r, -, rfl⟩ := Option.map_eq_some_iff.1 hstep
    exact h.setDisk r.2
  | reopen env₂ =>
    obtain ⟨fs₁, err, hflush, hopen⟩ := reopen_eq_some hstep
    rw [← h.vol.mdHome] at hx
    exact h.reopen hl hx.1 hx.2 hflush hopen

/-- **Sessions.** What stands at the start stands in every state reached. -/
theorem session_standing (hm : Mounted dev mdDev hasMd npools slabNlb geo fs) (hlb : 512 ≤ dev.lbNbytes)
    (hbytes : flaGeoNbytes geo < 2 ^ 32) {xs : List (Env × SessionOp)}
    (hxs : ∀ x ∈ xs, ExactRanges (if hasMd then mdDev else dev) x)
    (hrun : run (sessionStep wiped async) fs xs = some fs') : Standing dev mdDev hasMd geo fs' :=
  run_inv_visited (P := Standing dev mdDev hasMd geo) (Q := fun _ => True)
    (fun _ _ _ h _ hx hstep => h.step ⟨hm.accepted, hm.slabNlb_lt, hm.same_lb, hlb, hbytes⟩ hx hstep) hm.standing hxs
    (fun _ _ _ _ => trivial) hrun

end Sessions

end FlexAlloc
