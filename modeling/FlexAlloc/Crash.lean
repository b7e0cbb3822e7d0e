/-
Power cuts: what is left of an open file system when it is not closed.

Between two syncs the base functions change nothing but memory; the devices change where objects are written and zones
reset. So a file system that is cut off comes back as the last sync left it, with the objects as they were written since and
the zones that were reset erased, also those of objects that the sync still knows.

- `baseCall_disks`: only a sync writes to the devices.
- `objectWrite_frame`, `unalignedWrite_frame`: a write to an object, whatever it returns, writes to the object's blocks.
- `open_congr`: an open looks at nothing but the metadata.
- `crash_is_restart`: opening after a cut finds what opening right after the last sync would have found.
-/
import FlexAlloc.Preservation
import FlexAlloc.Registry

namespace FlexAlloc

open FlexAlloc.Core Function

/-! ## Calls -/

/-- **Only a sync writes to the devices.** -/
theorem baseCall_disks {env : Env} {fs fs' : Flexalloc} {c : Call} {res : Res} (hc : c ≠ .sync)
    (h : baseCall env fs c = .ok (res, fs')) : fs'.disk = fs.disk ∧ fs'.mdDisk = fs.mdDisk := by
  cases c with
  | sync => exact absurd rfl hc
  | poolOpen name =>
    obtain ⟨r, -, h⟩ := bind_eq_ok h
    cases h
    exact ⟨rfl, rfl⟩
  | poolCreate arg =>
    obtain ⟨r, hrun, h⟩ := bind_eq_ok h
    cases h
    exact (poolCreate_poolsOnly hrun).disks
  | poolDestroy handle =>
    obtain ⟨r, hrun, h⟩ := bind_eq_ok h
    cases h
    exact poolDestroy_disks hrun
  | objectOpen pool obj =>
    obtain ⟨r, hrun, h⟩ := bind_eq_ok h
    cases h
    exact (objectOpen_steady hrun).disks
  | objectCreate pool =>
    obtain ⟨r, hrun, h⟩ := bind_eq_ok h
    cases h
    exact (objectCreate_steady hrun).disks
  | objectDestroy pool obj =>
    obtain ⟨r, hrun, h⟩ := bind_eq_ok h
    cases h
    exact (objectDestroy_steady hrun).disks
  | poolSetRootObject pool obj act =>
    obtain ⟨r, hrun, h⟩ := bind_eq_ok h
    cases h
    exact (setRootObject_poolsOnly hrun).disks
  | poolGetRootObject pool =>
    obtain ⟨r, -, h⟩ := bind_eq_ok h
    cases h
    exact ⟨rfl, rfl⟩

/-! ## Writes -/

section Writes

variable {env : Env} {async : StrpXfer} {fs : Flexalloc} {ndx slba elba : ℕ} {obj : Obj} {offset len : ℕ}
  {buf disk disk' : Bytes} {err : ℤ} {i : ℕ}

theorem seqW_between {dev : Dev} (hb : env.RangesBounded dev) (hlb : 0 < dev.lbNbytes)
    (hblocks : dev.tbytes / dev.lbNbytes < 2 ^ 63) {off n lo hi : ℕ} {prep : Bool}
    (hvalid : (env.rangeFromOffsetNbytes dev off n).isValid = true) (hlo : lo * dev.lbNbytes ≤ off)
    (hhi : off + n ≤ hi * dev.lbNbytes)
    (h : flaXneSyncSeqWXneio env dev prep (env.rangeFromOffsetNbytes dev off n) buf disk = .ok (err, disk'))
    (hi' : i ∉ Set.Ico (lo * dev.lbNbytes) (hi * dev.lbNbytes)) : disk' i = disk i := by
  obtain ⟨-, hend, hslba, -, hlast⟩ := hb _ _ hvalid
  generalize env.rangeFromOffsetNbytes dev off n = range at h hslba hlast
  have hfirst : lo ≤ range.slba := by
    rw [hslba]
    exact (Nat.le_div_iff_mul_le hlb).2 hlo
  have hbelow : range.elba < hi := lt_of_mul_lt_mul_right (hlast.trans_le hhi) (Nat.zero_le _)
  have h63 : range.elba < 2 ^ 63 := by
    refine lt_of_le_of_lt ?_ hblocks
    rw [Nat.le_div_iff_mul_le hlb]
    omega
  have hstart := Nat.mul_le_mul_right dev.lbNbytes hfirst
  have hstop := Nat.mul_le_mul_right dev.lbNbytes (Nat.succ_le_of_lt hbelow)
  refine seqW_frame h63 h ?_
  rw [Set.mem_Ico, not_and_or, Nat.not_le, Nat.not_lt] at hi'
  rcases hi' with hlt | hge
  · exact .inl (hlt.trans_le hstart)
  · exact .inr (le_trans hstop hge)

/-- **Aligned writes** to an object write to its blocks, when the start of the request does not wrap. -/
theorem objectWrite_frame (hh : Handle fs ndx obj slba elba) (hb : env.RangesBounded fs.dev)
    (hoff : slba * fs.dev.lbNbytes + offset < 2 ^ 64)
    (h : flaObjectWrite env async fs ndx obj buf offset len = .ok (err, disk'))
    (hi : i ∉ Set.Ico (slba * fs.dev.lbNbytes) (elba * fs.dev.lbNbytes)) : disk' i = fs.disk i := by
  obtain ⟨x, hx, h⟩ := bind_eq_ok h
  cases x with
  | none =>
    cases h
    rfl
  | some x =>
    obtain ⟨soffset, rfl⟩ := objectXfer_seq hx
    obtain ⟨rfl, hle⟩ := hh.xfer hx
    rw [u64_of_lt hoff] at h hle
    dsimp only at h
    split_ifs at h with hvalid
    · have hend := (hb _ _ hvalid).2.1
      have htb := hh.tbytes
      have hlb := hh.lb_pos
      rw [u64_of_lt (by omega)] at hle
      exact seqW_between hb hlb hh.blocks hvalid (Nat.le_add_right _ _) hle h hi
    · cases h
      rfl

/-- **Unaligned writes** to a part of an object write to its blocks. -/
theorem unalignedWrite_frame (hh : Handle fs ndx obj slba elba) (hb : env.RangesBounded fs.dev)
    (hin : offset + len ≤ (elba - slba) * fs.dev.lbNbytes)
    (h : flaObjectUnalignedWrite env fs ndx obj buf offset len = .ok (err, disk'))
    (hi : i ∉ Set.Ico (slba * fs.dev.lbNbytes) (elba * fs.dev.lbNbytes)) : disk' i = fs.disk i := by
  have hlb := hh.lb_pos
  have htb := hh.tbytes
  have hinside := hh.inside
  have hsize : slba * fs.dev.lbNbytes + (elba - slba) * fs.dev.lbNbytes = elba * fs.dev.lbNbytes := by
    rw [← Nat.add_mul, Nat.add_sub_cancel' hh.lt.le]
  rw [hh.unalignedWrite, u64_of_lt (n := slba * fs.dev.lbNbytes) (by omega), bounceOf_eq hlb (by omega)] at h
  -- the blocks around the request are blocks of the object
  have hfirst : slba * fs.dev.lbNbytes ≤ (slba * fs.dev.lbNbytes + offset) / fs.dev.lbNbytes * fs.dev.lbNbytes := by
    refine Nat.mul_le_mul_right _ ?_
    rw [Nat.le_div_iff_mul_le hlb]
    exact Nat.le_add_right _ _
  have hlast := roundUp_le hlb (show slba * fs.dev.lbNbytes + offset + len ≤ elba * fs.dev.lbNbytes by omega)
  have hle : (slba * fs.dev.lbNbytes + offset) / fs.dev.lbNbytes * fs.dev.lbNbytes ≤
      (slba * fs.dev.lbNbytes + offset + len + fs.dev.lbNbytes - 1) / fs.dev.lbNbytes * fs.dev.lbNbytes :=
    Nat.mul_le_mul_right _ (Nat.div_le_div_right (by omega))
  split_ifs at h with halloc
  · obtain ⟨⟨err₁, bounce⟩, -, h⟩ := bind_eq_ok h
    dsimp only at h
    split_ifs at h with herr
    · cases h
      rfl
    unfold writeBack at h
    dsimp only at h
    split_ifs at h with hfits hvalid
    · exact seqW_between hb hlb hh.blocks hvalid hfirst (by omega) h hi
    · cases h
      rfl
  · cases h
    rfl

/-- on a single device objects lie behind the metadata -/
theorem OnVol.behind {dev mdDev : Dev} {geo : Geo} (hv : OnVol dev mdDev false geo fs)
    (h : fs.objectSlba ndx obj = .ok slba) : flaGeoNblocks geo ≤ slba := by
  obtain ⟨e, -, h⟩ := bind_eq_ok h
  cases h
  have hmd : flaGeoNblocks geo ≤ flaGeoSlabsLbOff geo := u32_le _
  have hcns : ∀ s, flaGeoSlabsLbOff geo ≤ flaCsCnsSlabOffset (.formatted dev false geo) s (flaGeoSlabsLbOff geo) :=
    fun s => Nat.le_add_right _ _
  have hoff : flaGeoSlabsLbOff geo ≤ flaGeoSlabLbOff fs.vol obj.slabId := by
    rw [hv.vol]
    unfold flaGeoSlabLbOff
    cases (Volume.formatted dev false geo).cs with
    | cns => exact hcns _
    | zns nzsect =>
      show flaGeoSlabsLbOff geo ≤ flaCsZnsSlabOffset (.formatted dev false geo) nzsect obj.slabId (flaGeoSlabsLbOff geo)
      unfold flaCsZnsSlabOffset
      dsimp only
      split_ifs
      · exact hcns _
      · exact (hcns _).trans (Nat.le_add_right _ _)
  exact hmd.trans (hoff.trans (Nat.le_add_right _ _))

end Writes

/-! ## Between two syncs -/

/-- a step after a sync and before the next one: a write is to a part of an object whose bytes are in `W`, and so are the
zones that are reset -/
def Between (wiped : Bytes) (W : Set ℕ) (fs : Flexalloc) (x : Env × SessionOp) : Prop :=
  match x.2 with
  | .call (.objectDestroy pool obj) => ∀ i, i ∉ W → afterResets wiped x.1 fs pool.ndx obj i = fs.disk i
  | .call c => c ≠ .sync
  | .write ndx obj _ offset _ => x.1.RangesBounded fs.dev ∧ ∃ slba elba, Handle fs ndx obj slba elba ∧
      Set.Ico (slba * fs.dev.lbNbytes) (elba * fs.dev.lbNbytes) ⊆ W ∧ slba * fs.dev.lbNbytes + offset < 2 ^ 64
  | .unalignedWrite ndx obj _ offset len => x.1.RangesBounded fs.dev ∧ ∃ slba elba, Handle fs ndx obj slba elba ∧
      Set.Ico (slba * fs.dev.lbNbytes) (elba * fs.dev.lbNbytes) ⊆ W ∧ offset + len ≤ (elba - slba) * fs.dev.lbNbytes
  | .reopen _ => False

/-- what the devices of `fs` still have of those of `fs₁`: everything outside of `W`, and all of the metadata -/
structure DisksKept (dev mdDev : Dev) (hasMd : Bool) (geo : Geo) (W : Set ℕ) (fs₁ fs : Flexalloc) : Prop where
  vol : OnVol dev mdDev hasMd geo fs
  mdDisk : fs.mdDisk = fs₁.mdDisk
  rest : ∀ i, i ∉ W → fs.disk i = fs₁.disk i
  md : hasMd = false → ∀ i < flaGeoNbytes geo, fs.disk i = fs₁.disk i

section Between

variable {dev mdDev : Dev} {hasMd : Bool} {npools slabNlb : ℕ} {geo : Geo} {fs fs₁ fs' : Flexalloc} {W : Set ℕ}
  {wiped : Bytes} {async : StrpXfer}

theorem OnVol.effects {P : ℕ → Prop} (hv : OnVol dev mdDev hasMd geo fs) (he : Effects P fs fs') :
    OnVol dev mdDev hasMd geo fs' :=
  he.inv (fun _ _ he h => he.onVol h) hv

theorem OnVol.setDisk (hv : OnVol dev mdDev hasMd geo fs) (disk : Bytes) :
    OnVol dev mdDev hasMd geo { fs with disk := disk } :=
  ⟨hv.vol, hv.devs, hv.flist, hv.hdr, hv.tbl⟩

theorem DisksKept.write (hl : Laid dev mdDev hasMd npools slabNlb geo) (h : DisksKept dev mdDev hasMd geo W fs₁ fs)
    {ndx slba elba : ℕ} {obj : Obj} (hh : Handle fs ndx obj slba elba)
    (hW : Set.Ico (slba * fs.dev.lbNbytes) (elba * fs.dev.lbNbytes) ⊆ W) {disk : Bytes}
    (hframe : ∀ i, i ∉ Set.Ico (slba * fs.dev.lbNbytes) (elba * fs.dev.lbNbytes) → disk i = fs.disk i) :
    DisksKept dev mdDev hasMd geo W fs₁ { fs with disk := disk } := by
  refine ⟨h.vol.setDisk disk, h.mdDisk, fun i hi => ?_, fun hmd i hi => ?_⟩
  · have hout : i ∉ Set.Ico (slba * fs.dev.lbNbytes) (elba * fs.dev.lbNbytes) := fun hmem => hi (hW hmem)
    exact (hframe i hout).trans (h.rest i hi)
  · subst hmd
    have hbehind := Nat.mul_le_mul_right fs.dev.lbNbytes (h.vol.behind hh.starts)
    have hsame : fs.dev.lbNbytes = geo.lbNbytes := by rw [h.vol.devs.1, hl.bounds.1]
    rw [flaGeoNbytes, ← hsame] at hi
    have hout : i ∉ Set.Ico (slba * fs.dev.lbNbytes) (elba * fs.dev.lbNbytes) := fun hmem =>
      absurd hmem.1 (Nat.not_le.2 (hi.trans_le hbehind))
    exact (hframe i hout).trans (h.md rfl i (by rw [flaGeoNbytes, ← hsame]; exact hi))

theorem DisksKept.same (h : DisksKept dev mdDev hasMd geo W fs₁ fs) (hv : OnVol dev mdDev hasMd geo fs')
    (hdisks : fs'.disk = fs.disk ∧ fs'.mdDisk = fs.mdDisk) : DisksKept dev mdDev hasMd geo W fs₁ fs' := by
  obtain ⟨hdisk, hmd⟩ := hdisks
  refine ⟨hv, hmd.trans h.mdDisk, fun i hi => ?_, fun hf i hi => ?_⟩
  · rw [hdisk]
    exact h.rest i hi
  · rw [hdisk]
    exact h.md hf i hi

/-- **Each step** between two syncs. -/
theorem DisksKept.step (hl : Laid dev mdDev hasMd npools slabNlb geo) (hcs : hasMd = false → dev.cs = .cns)
    (h : DisksKept dev mdDev hasMd geo W fs₁ fs) {x : Env × SessionOp} (hx : Between wiped W fs x)
    (hstep : sessionStep wiped async fs x = some fs') : DisksKept dev mdDev hasMd geo W fs₁ fs' := by
  obtain ⟨env, op⟩ := x
  cases op with
  | call c =>
    cases c with
    | objectDestroy pool obj =>
      obtain ⟨⟨err, fs₂⟩, hrun, rfl⟩ := Option.map_eq_some_iff.1 hstep
      have hdestroy := toOption_eq_some hrun
      have hreset : DisksKept dev mdDev hasMd geo W fs₁ { fs with disk := afterResets wiped env fs pool.ndx obj } := by
        refine ⟨h.vol.setDisk _, h.mdDisk, fun i hi => (hx i hi).trans (h.rest i hi), fun hmd i hi => ?_⟩
        have hnone : afterResets wiped env fs pool.ndx obj = fs.disk := by
          have hcns : fs.vol.cs = .cns := by
            rw [h.vol.vol]
            exact hcs hmd
          unfold afterResets
          rw [hcns]
        show afterResets wiped env fs pool.ndx obj i = _
        rw [hnone]
        exact h.md hmd i hi
      have hsteady : Steady { fs with disk := afterResets wiped env fs pool.ndx obj } fs₂ := objectDestroy_steady hdestroy
      exact hreset.same (hreset.vol.effects (destroyObject_effects (linksIn_true _) hdestroy)) hsteady.disks
    | _ =>
      obtain ⟨⟨res, fs₂⟩, hrun, rfl⟩ := Option.map_eq_some_iff.1 hstep
      have hcall := toOption_eq_some hrun
      exact h.same (h.vol.effects (baseCall_effects (linksIn_true fs) hcall)) (baseCall_disks hx hcall)
  | write ndx obj buf offset len =>
    obtain ⟨⟨err, disk⟩, hrun, rfl⟩ := Option.map_eq_some_iff.1 hstep
    obtain ⟨hb, slba, elba, hh, hW, hoff⟩ := hx
    exact h.write hl hh hW fun i hi => objectWrite_frame hh hb hoff (toOption_eq_some hrun) hi
  | unalignedWrite ndx obj buf offset len =>
    obtain ⟨⟨err, disk⟩, hrun, rfl⟩ := Option.map_eq_some_iff.1 hstep
    obtain ⟨hb, slba, elba, hh, hW, hin⟩ := hx
    exact h.write hl hh hW fun i hi => unalignedWrite_frame hh hb hin (toOption_eq_some hrun) hi
  | reopen env₂ => exact absurd hx id

end Between

/-! ## Opening after a cut -/

/-- a system with other devices -/
def Flexalloc.onDisks (fs : Flexalloc) (disk mdDisk : Bytes) : Flexalloc := { fs with disk := disk, mdDisk := mdDisk }

/-- what an open returns, with other devices -/
def relocated (disk mdDisk : Bytes) (r : ℤ × Option Flexalloc) : ℤ × Option Flexalloc :=
  (r.1, r.2.map fun fs => fs.onDisks disk mdDisk)

section Open

variable {env : Env} {dev mdDev : Dev} {hasMd : Bool} {npools slabNlb : ℕ} {geo : Geo} {fs fs₁ fs₂ : Flexalloc}

theorem readHead_congr {home : Dev} (hr : env.OffsetsExact home) (hlb : 0 < home.lbNbytes) {n : ℕ} (hn : 0 < n)
    (hlt : n < 2 ^ 63) {bytes bytes' : Bytes} (hsame : ∀ i < n * home.lbNbytes, bytes' i = bytes i) :
    readHead env home bytes' (n * home.lbNbytes) = readHead env home bytes (n * home.lbNbytes) := by
  unfold readHead
  dsimp only
  by_cases hvalid : (env.rangeFromOffsetNbytes home 0 (n * home.lbNbytes)).isValid
  · have hrange := hr 0 _ (dvd_zero _) (Dvd.intro_left n rfl) (Nat.mul_pos hn hlb) hvalid
    rw [Nat.zero_div, Nat.zero_add, Nat.mul_div_cancel _ hlb] at hrange
    have hlast : (⟨0, n - 1, true⟩ : LbaRange).elba < 2 ^ 63 := by
      dsimp only
      omega
    rw [hrange, seqR_congr hlast fun i _ hi => ?_]
    dsimp only at hi
    rw [show n - 1 + 1 = n by omega] at hi
    exact hsame i hi
  · rw [if_pos hvalid, if_pos hvalid]

theorem init_relocated (b disk mdDisk disk' mdDisk' : Bytes) :
    flaInit env dev mdDev hasMd geo b disk' mdDisk' = relocated disk' mdDisk' (flaInit env dev mdDev hasMd geo b disk mdDisk) := by
  unfold flaInit
  cases flaPoolInit env geo b with
  | mk err pools =>
    dsimp only
    split_ifs
    · rfl
    · rfl

/-- **An open looks at the metadata only.** -/
theorem open_congr (hl : Laid dev mdDev hasMd npools slabNlb geo) (hv : fs.vol = .formatted dev hasMd geo)
    (hr : env.OffsetsExact (if hasMd then mdDev else dev)) {disk mdDisk disk' mdDisk' : Bytes}
    (hheld : ∀ i < flaGeoNbytes geo, (if hasMd then mdDisk else disk) i = mdBuffer fs i)
    (hsame : ∀ i < flaGeoNbytes geo, (if hasMd then mdDisk' else disk') i = (if hasMd then mdDisk else disk) i) :
    flaOpen env dev mdDev hasMd disk' mdDisk' =
      relocated disk' mdDisk' <$> flaOpen env dev mdDev hasMd disk mdDisk := by
  obtain ⟨hpos, hlt, hone⟩ := hl.nblocks
  have hlb := hl.lb
  have hhomelb := hl.home_lb
  unfold flaOpen
  dsimp only
  generalize (if hasMd then mdDev else dev) = home at *
  generalize (if hasMd then mdDisk else disk) = bytes at *
  generalize (if hasMd then mdDisk' else disk') = bytes' at *
  have hlbpos : 0 < home.lbNbytes := by omega
  have hall : flaGeoNbytes geo = flaGeoNblocks geo * home.lbNbytes := by rw [flaGeoNbytes, hhomelb, hl.bounds.1]
  have hsuper : flaSuperRead env home bytes' dev.lbNbytes = flaSuperRead env home bytes dev.lbNbytes := by
    have hfirst := readHead_congr hr hlbpos Nat.one_pos (by norm_num) fun i hi =>
      hsame i (by rw [Nat.one_mul, hhomelb] at hi; omega)
    rw [Nat.one_mul, hhomelb] at hfirst
    rw [flaSuperRead, flaSuperRead, hfirst]
  have hrest : readHead env home bytes' (flaGeoNbytes geo) = readHead env home bytes (flaGeoNbytes geo) := by
    rw [hall] at hsame ⊢
    exact readHead_congr hr hlbpos hpos hlt hsame
  rw [hsuper]
  by_cases hm : ¬ env.malloc
  · rw [if_pos hm, if_pos hm]
    rfl
  rw [if_neg hm, if_neg hm]
  by_cases hsane : flaDevSanityCheck dev home ≠ 0
  · rw [if_pos hsane, if_pos hsane]
    rfl
  rw [if_neg hsane, if_neg hsane]
  cases hread : flaSuperRead env home bytes dev.lbNbytes with
  | error => rfl
  | ok r =>
    obtain ⟨err, super⟩ := r
    rw [ok_bind, ok_bind]
    dsimp only
    by_cases herr : err ≠ 0
    · rw [if_pos herr, if_pos herr]
      rfl
    rw [if_neg herr, if_neg herr]
    -- the super block gives the geometry of the volume
    rw [not_ne_iff.1 herr] at hread
    rw [hl.superRead hv hr hhomelb hheld hread, accepted_fromSuper hl.accepted, hrest]
    cases readHead env home bytes (flaGeoNbytes geo) with
    | error => rfl
    | ok r =>
      obtain ⟨err, b⟩ := r
      rw [ok_bind, ok_bind]
      dsimp only
      split_ifs
      · rfl
      · rw [init_relocated b disk mdDisk disk' mdDisk']
        rfl

end Open

/-! ## Power cuts -/

/-- what is left of `fs`, which was synced to `fs₁` and then used up to `fs₂`, when it is cut off there -/
structure CrashSafe (dev mdDev : Dev) (hasMd : Bool) (W : Set ℕ) (fs fs₁ fs₂ : Flexalloc) : Prop where
  /-- an open returns what it would have returned right after the sync, on the devices as they are -/
  same : ∀ env, env.OffsetsExact (if hasMd then mdDev else dev) →
    flaOpen env dev mdDev hasMd fs₂.disk fs₂.mdDisk =
      relocated fs₂.disk fs₂.mdDisk <$> flaOpen env dev mdDev hasMd fs₁.disk fs₁.mdDisk
  /-- a system that opens has what was synced -/
  found : ∀ env err fs', env.OffsetsExact (if hasMd then mdDev else dev) →
    flaOpen env dev mdDev hasMd fs₂.disk fs₂.mdDisk = .ok (err, some fs') → Reopened fs fs'
  /-- devices that pass the checks and do all they are asked can be opened -/
  works : flaDevSanityCheck dev (if hasMd then mdDev else dev) = 0 →
    0 < flaXneCalcMdtsNaddrs (if hasMd then mdDev else dev) →
    ∃ fs', flaOpen .reliable dev mdDev hasMd fs₂.disk fs₂.mdDisk = .ok (0, some fs')
  /-- the bytes that were neither written nor in a zone that was reset are as they were -/
  rest : ∀ i, i ∉ W → fs₂.disk i = fs₁.disk i

section Crash

variable {env : Env} {dev mdDev : Dev} {hasMd : Bool} {npools slabNlb : ℕ} {geo : Geo} {fs₀ fs fs₁ fs₂ : Flexalloc}
variable {W : Set ℕ} {wiped : Bytes} {async : StrpXfer}

theorem session_onVol (hl : Laid dev mdDev hasMd npools slabNlb geo)
    (hm : Mounted dev mdDev hasMd npools slabNlb geo fs₀) {ws : List (Env × SessionOp)}
    (hws : ∀ x ∈ ws, ExactRanges (if hasMd then mdDev else dev) x) (h : run (sessionStep wiped async) fs₀ ws = some fs) :
    OnVol dev mdDev hasMd geo fs := by
  have hboth : OnVol dev mdDev hasMd geo fs ∧ Registry fs :=
    run_inv_visited (P := fun fs => OnVol dev mdDev hasMd geo fs ∧ Registry fs) (Q := fun _ => True)
      (fun _ _ _ h _ hx hstep => Registry.step hl h.1 h.2 hx hstep) ⟨hm.onVol, hm.registry hl⟩ hws
      (fun _ _ _ _ => trivial) h
  exact hboth.1

/-- **Power cuts.** A system that was synced, then used and cut off without another sync, is found again as it was at the
sync; only the bytes of the objects that were written in between, and of the zones that were reset, have changed. -/
theorem crash_is_restart (hm : Mounted dev mdDev hasMd npools slabNlb geo fs₀) (hlb : 512 ≤ dev.lbNbytes)
    (hbytes : flaGeoNbytes geo < 2 ^ 32) {ws xs : List (Env × SessionOp)}
    (hws : ∀ x ∈ ws, ExactRanges (if hasMd then mdDev else dev) x)
    (hbefore : run (sessionStep wiped async) fs₀ ws = some fs) (hr : env.RangesExact (if hasMd then mdDev else dev))
    (hflush : flaFlush env fs = .ok (0, fs₁)) (hcs : hasMd = false → dev.cs = .cns)
    (hxs : along (Between wiped W) (sessionStep wiped async) fs₁ xs) (hrun : run (sessionStep wiped async) fs₁ xs = some fs₂) :
    CrashSafe dev mdDev hasMd W fs fs₁ fs₂ := by
  have hl : Laid dev mdDev hasMd npools slabNlb geo := ⟨hm.accepted, hm.slabNlb_lt, hm.same_lb, hlb, hbytes⟩
  have hv := session_onVol hl hm hws hbefore
  have hfl := flush_flushed hflush
  have hv₁ : OnVol dev mdDev hasMd geo fs₁ := hfl.onVol hv
  obtain ⟨hheld, hlen⟩ := hl.flushed hv (by rw [hv.mdHome]; exact hr) hflush
  -- nothing of the metadata has been written since
  have hstart : DisksKept dev mdDev hasMd geo W fs₁ fs₁ := ⟨hv₁, rfl, fun _ _ => rfl, fun _ _ _ => rfl⟩
  have hkept : DisksKept dev mdDev hasMd geo W fs₁ fs₂ :=
    run_inv_along (R := fun _ => True) (fun _ _ _ h hx _ hstep => h.step hl hcs hx hstep) hstart (fun _ _ => trivial) hxs
      hrun
  have hsame : ∀ i < flaGeoNbytes geo,
      (if hasMd then fs₂.mdDisk else fs₂.disk) i = (if hasMd then fs₁.mdDisk else fs₁.disk) i := fun i hi => by
    cases hasMd with
    | false => exact hkept.md rfl i hi
    | true => exact congrFun hkept.mdDisk i
  have hheld₂ : ∀ i < flaGeoNbytes geo, (if hasMd then fs₂.mdDisk else fs₂.disk) i = mdBuffer fs₁ i := fun i hi =>
    (hsame i hi).trans (hheld i hi)
  refine ⟨fun env' hr' => open_congr hl hv₁.vol hr' hheld hsame, fun env' err fs' hr' hopen => ?_,
    fun hsane hmdts => open_ok hl hv₁ hsane hmdts hheld₂, hkept.rest⟩
  exact hfl.reopened (open_reopened hl hv₁ hlen hr' hheld₂ hopen).1

/-- after a sync the first object of a pool is written and another is created; then the power goes -/
theorem crash_is_restart_small : ∃ fs fs₁ fs₂, run (sessionStep 0 fun _ _ b => .ok (0, b)) (flaMkfs smallDev smallGeo 0)
      keptCalls = some fs ∧ flaFlush .reliable fs = .ok (0, fs₁) ∧
    run (sessionStep 0 fun _ _ b => .ok (0, b)) fs₁ [(.strict, .write 0 ⟨0, 0⟩ 1 0 512),
      (.reliable, .call (.objectCreate ⟨0, 0⟩))] = some fs₂ ∧
    CrashSafe smallDev smallDev false (Set.Ico 2560 3072) fs fs₁ fs₂ := by
  obtain ⟨fs, hbefore, hval⟩ := Option.bind_eq_some_iff.1 (show ((run (sessionStep 0 fun _ _ b => .ok (0, b))
    (flaMkfs smallDev smallGeo 0) keptCalls).bind fun fs => (flaFlush .reliable fs).toOption.bind fun r =>
      (run (sessionStep 0 fun _ _ b => .ok (0, b)) r.2 [(.strict, .write 0 ⟨0, 0⟩ 1 0 512),
        (.reliable, .call (.objectCreate ⟨0, 0⟩))]).map fun _ => decide (r.1 = 0 ∧ r.2.dev = smallDev ∧
          (r.2.objectSlba 0 ⟨0, 0⟩).toOption = some 5 ∧ (r.2.objectElba 0 ⟨0, 0⟩).toOption = some 6)) =
            some true by decide +kernel)
  obtain ⟨⟨err, fs₁⟩, hflush, hval⟩ := Option.bind_eq_some_iff.1 hval
  obtain ⟨fs₂, hrun, hval⟩ := Option.map_eq_some_iff.1 hval
  obtain ⟨herr, hdev, hslba, helba⟩ := of_decide_eq_true hval
  obtain rfl : err = 0 := herr
  dsimp only at hrun hdev hslba helba
  have hlb : fs₁.dev.lbNbytes = 512 := by rw [hdev]; rfl
  have hh : Handle fs₁ 0 ⟨0, 0⟩ 5 6 := by
    refine ⟨toOption_eq_some hslba, toOption_eq_some helba, by decide, ?_, ?_, ?_, ?_⟩
    all_goals rw [hdev]; decide
  have hbetween : along (Between 0 (Set.Ico 2560 3072)) (sessionStep 0 fun _ _ b => .ok (0, b)) fs₁
      [(.strict, .write 0 ⟨0, 0⟩ 1 0 512), (.reliable, .call (.objectCreate ⟨0, 0⟩))] := by
    refine ⟨⟨strict_rangesBounded hh.lb_pos, 5, 6, hh, ?_, ?_⟩, fun t _ => ⟨?_, fun _ _ => trivial⟩⟩
    · rw [hlb]
    · rw [hlb]
      norm_num
    · exact Call.noConfusion
  exact ⟨fs, fs₁, fs₂, hbefore, toOption_eq_some hflush, hrun, crash_is_restart small_mounted (by decide) (by decide +kernel)
    (fun x hx => (kept_args x hx).1) hbefore (reliable_rangesExact _) (toOption_eq_some hflush) (fun _ => rfl) hbetween hrun⟩

end Crash

end FlexAlloc
