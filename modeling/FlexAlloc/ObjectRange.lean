/-
The bounds checks of `fla_object_read` and `fla_object_write`, for every offset and length a caller can pass.

Where a request starts is `fla_object_soffset` plus the offset, and where it ends that plus the length, both on
`uint64_t`. Only the end is compared, with the end of the object and of the slab. An offset so large that the first sum
wraps gives a request that starts before the object.

- `objectRead_issues`, `objectWrite_issues`: the blocks a call moves are those of `objectRange`.
- `aligned_io_inside_iff`: a call that issues I/O stays in its object exactly when the first sum does not wrap.
- `aligned_io_escapes`: a write of one block, accepted, to the block in front of its object.
-/
import FlexAlloc.ObjectData
import FlexAlloc.Mdts

namespace FlexAlloc

open FlexAlloc.Core

/-! ## Ranges -/

/-- what xNVMe says of a range built from an offset and a length: a valid range is not empty, ends in the device, and
has blocks that hold some of the bytes asked for, from the first on -/
def Env.RangesBounded (env : Env) (dev : Dev) : Prop :=
  ∀ off nbytes, (env.rangeFromOffsetNbytes dev off nbytes).isValid = true →
    0 < nbytes ∧ off + nbytes ≤ dev.tbytes ∧
      (env.rangeFromOffsetNbytes dev off nbytes).slba = off / dev.lbNbytes ∧
      (env.rangeFromOffsetNbytes dev off nbytes).slba ≤ (env.rangeFromOffsetNbytes dev off nbytes).elba ∧
      (env.rangeFromOffsetNbytes dev off nbytes).elba * dev.lbNbytes < off + nbytes

/-- nothing fails, and the ranges that are valid are those of whole blocks of the device -/
def Env.strict : Env :=
  { Env.reliable with
    rangeFromOffsetNbytes := fun dev off nbytes =>
      ⟨off / dev.lbNbytes, (off + nbytes) / dev.lbNbytes - 1,
        decide (dev.lbNbytes ∣ off ∧ dev.lbNbytes ∣ nbytes ∧ 0 < nbytes ∧ off + nbytes ≤ dev.tbytes)⟩ }

theorem strict_rangesBounded {dev : Dev} (hlb : 0 < dev.lbNbytes) : Env.strict.RangesBounded dev := by
  intro off nbytes h
  obtain ⟨⟨a, rfl⟩, ⟨b, rfl⟩, hpos, hend⟩ := of_decide_eq_true h
  have hb : 0 < b := Nat.pos_of_mul_pos_left hpos
  have hsum : (dev.lbNbytes * a + dev.lbNbytes * b) / dev.lbNbytes = a + b := by
    rw [← Nat.mul_add, Nat.mul_div_cancel_left _ hlb]
  refine ⟨hpos, hend, rfl, ?_, ?_⟩
  · simp only [Env.strict, hsum, Nat.mul_div_cancel_left _ hlb]
    omega
  · simp only [Env.strict, hsum]
    rw [← Nat.mul_add, Nat.mul_comm]
    exact Nat.mul_lt_mul_of_pos_left (by omega) hlb

theorem strict_rangesOk (dev : Dev) : Env.strict.RangesOk dev := by
  refine ⟨fun off nbytes hoff hn hpos hend => ?_, fun _ _ _ _ => rfl⟩
  simp only [Env.strict, LbaRange.mk.injEq, true_and, decide_eq_true_eq]
  exact ⟨hoff, hn, hpos, hend⟩

def LbaRange.bytes (range : LbaRange) (lb : ℕ) : Set ℕ := Set.Ico (range.slba * lb) ((range.elba + 1) * lb)

/-- the range that a read or a write issues its commands for, if it comes to that -/
def objectRange (env : Env) (fs : Flexalloc) (write : Bool) (ndx : ℕ) (obj : Obj) (offset len : ℕ) :
    Ret (Option LbaRange) := do
  match ← objectXfer fs write ndx obj offset len with
  | some (.seq soffset n) =>
    let range := env.rangeFromOffsetNbytes fs.dev soffset n
    .ok (if range.isValid then some range else none)
  | _ => .ok none

section Issues

variable {env : Env} {fs : Flexalloc} {ndx : ℕ} {obj : Obj} {offset len : ℕ} {range : LbaRange}

/-- a range is issued for a request that passed its checks and that xNVMe found valid -/
theorem objectRange_some {write : Bool} (h : objectRange env fs write ndx obj offset len = .ok (some range)) :
    ∃ soffset, objectXfer fs write ndx obj offset len = .ok (some (.seq soffset len)) ∧
      env.rangeFromOffsetNbytes fs.dev soffset len = range ∧ range.isValid = true := by
  obtain ⟨x, hx, h⟩ := bind_eq_ok h
  cases x with
  | none => cases h
  | some x =>
    obtain ⟨soffset, rfl⟩ := objectXfer_seq hx
    dsimp only at h
    split_ifs at h with hvalid
    · cases h
      exact ⟨soffset, hx, rfl, hvalid⟩
    · cases h

/-- **Reads** move the blocks of the range. -/
theorem objectRead_issues (h : objectRange env fs false ndx obj offset len = .ok (some range)) (async : StrpXfer)
    (buf : Bytes) :
    flaObjectRead env async fs ndx obj buf offset len = flaXneSyncSeqRXneio env fs.dev range fs.disk buf := by
  obtain ⟨soffset, hx, hrange, hvalid⟩ := objectRange_some h
  rw [flaObjectRead, hx, ok_bind]
  dsimp only
  rw [hrange, if_neg (by simp [hvalid])]

/-- **Writes** move the blocks of the range. -/
theorem objectWrite_issues (h : objectRange env fs true ndx obj offset len = .ok (some range)) (async : StrpXfer)
    (buf : Bytes) :
    flaObjectWrite env async fs ndx obj buf offset len = flaXneSyncSeqWXneio env fs.dev true range buf fs.disk := by
  obtain ⟨soffset, hx, hrange, hvalid⟩ := objectRange_some h
  rw [flaObjectWrite, hx, ok_bind]
  dsimp only
  rw [hrange, if_neg (by simp [hvalid])]

end Issues

/-! ## Handles -/

/-- `obj` is an object of the pool at `ndx`: its blocks, from `slba` up to `elba`, are blocks of the device, which has
fewer than 2^63 blocks and ends at least a block before the last 64-bit address -/
structure Handle (fs : Flexalloc) (ndx : ℕ) (obj : Obj) (slba elba : ℕ) : Prop where
  starts : fs.objectSlba ndx obj = .ok slba
  ends : fs.objectElba ndx obj = .ok elba
  lt : slba < elba
  lb_pos : 0 < fs.dev.lbNbytes
  inside : elba * fs.dev.lbNbytes ≤ fs.dev.tbytes
  tbytes : fs.dev.tbytes + fs.dev.lbNbytes ≤ 2 ^ 64
  blocks : fs.dev.tbytes / fs.dev.lbNbytes < 2 ^ 63

theorem Served.handle {geo : Geo} {fs : Flexalloc} {poolOf : ℕ → ℕ} (h : Served geo fs poolOf) {obj : Obj}
    (hv : ValidObj geo fs poolOf obj) :
    Handle fs (poolOf obj.slabId) obj (flaObjectSlba (.single geo) (fs.objNlbOf poolOf obj.slabId) obj)
      (flaObjectElba (.single geo) (fs.objNlbOf poolOf obj.slabId) obj) := by
  obtain ⟨hsize, hslab, hdev⟩ := h.bounds hv
  obtain ⟨hslba, helba⟩ := h.addresses hv
  have hpos : 0 < fs.objNlbOf poolOf obj.slabId := h.objNlb_pos hv
  have hnlb := h.nlb_lt
  have hlb := h.lb_lt
  have hdiv := Nat.div_add_mod fs.dev.tbytes geo.lbNbytes
  have hmod := Nat.mod_lt fs.dev.tbytes h.lb_pos
  have htotal : (geo.nlb + 2) * geo.lbNbytes ≤ (2 ^ 32 + 1) * (2 ^ 32 - 1) := Nat.mul_le_mul (by omega) (by omega)
  rw [← h.nlb, Nat.mul_comm] at hdiv
  rw [Nat.add_mul] at htotal
  refine ⟨hslba, helba, by omega, by rw [h.lb]; exact h.lb_pos, ?_, by rw [h.lb]; omega, by rw [h.lb, ← h.nlb]; omega⟩
  calc flaObjectElba (.single geo) (fs.objNlbOf poolOf obj.slabId) obj * fs.dev.lbNbytes
      ≤ geo.nlb * geo.lbNbytes := by rw [h.lb]; exact Nat.mul_le_mul_right _ (hslab.trans hdev)
    _ ≤ fs.dev.tbytes := by omega

section Bounds

variable {env : Env} {fs : Flexalloc} {ndx slba elba : ℕ} {obj : Obj} {offset len : ℕ} {range : LbaRange}

/-- what the checks leave of a request: its start, computed on 64 bits, and an end that is not past the object -/
theorem Handle.xfer (hh : Handle fs ndx obj slba elba) {write : Bool} {soffset : ℕ}
    (h : objectXfer fs write ndx obj offset len = .ok (some (.seq soffset len))) :
    soffset = u64 (slba * fs.dev.lbNbytes + offset) ∧ u64 (soffset + len) ≤ elba * fs.dev.lbNbytes := by
  obtain ⟨e, -, h⟩ := bind_eq_ok h
  obtain ⟨elba', helba, h⟩ := bind_eq_ok h
  obtain ⟨slba', hslba, h⟩ := bind_eq_ok h
  rw [hh.ends] at helba
  rw [hh.starts] at hslba
  cases helba
  cases hslba
  have hin := hh.inside
  have htb := hh.tbytes
  have hle : slba * fs.dev.lbNbytes ≤ elba * fs.dev.lbNbytes := Nat.mul_le_mul_right _ hh.lt.le
  have hlb := hh.lb_pos
  dsimp only at h
  rw [u64_of_lt (n := elba * fs.dev.lbNbytes) (by omega), u64_of_lt (n := slba * fs.dev.lbNbytes) (by omega)] at h
  rw [if_pos (c := ¬ (e.flags ≠ 0 ∧ flaPoolEntryStrp ≠ 0)) fun hf => hf.2 rfl] at h
  split_ifs at h with h1 h2
  · cases h
  · cases h
  · cases h
    exact ⟨rfl, Nat.not_lt.1 h2⟩

/-- **Aligned I/O stays in its object** if and only if the start of the request is computed without a wrap. -/
theorem aligned_io_inside_iff (hh : Handle fs ndx obj slba elba) (hb : env.RangesBounded fs.dev) {write : Bool}
    (hoff : offset < 2 ^ 64) (hio : objectRange env fs write ndx obj offset len = .ok (some range)) :
    range.bytes fs.dev.lbNbytes ⊆ Set.Ico (slba * fs.dev.lbNbytes) (elba * fs.dev.lbNbytes) ↔
      slba * fs.dev.lbNbytes + offset < 2 ^ 64 := by
  obtain ⟨soffset, hx, rfl, hvalid⟩ := objectRange_some hio
  obtain ⟨hs, he⟩ := hh.xfer hx
  obtain ⟨hpos, hend, hslba, hle, hlast⟩ := hb _ _ hvalid
  have hlb := hh.lb_pos
  have hin := hh.inside
  have htb := hh.tbytes
  have hobj : slba * fs.dev.lbNbytes ≤ elba * fs.dev.lbNbytes := Nat.mul_le_mul_right _ hh.lt.le
  rw [u64_of_lt (by omega)] at he
  set range := env.rangeFromOffsetNbytes fs.dev soffset len
  constructor
  · intro hsub
    by_contra hwrap
    -- the first byte of the range lies before the object
    have hstart : soffset < slba * fs.dev.lbNbytes := by
      rw [hs, u64]
      omega
    have hfirst : range.slba * fs.dev.lbNbytes ∈ range.bytes fs.dev.lbNbytes :=
      ⟨le_rfl, Nat.mul_lt_mul_of_pos_right (by omega) hlb⟩
    have hbefore : range.slba * fs.dev.lbNbytes ≤ soffset := by
      rw [hslba]
      exact Nat.div_mul_le_self _ _
    have := (hsub hfirst).1
    omega
  · intro hfits
    rw [u64_of_lt hfits] at hs
    have hfirst : slba * fs.dev.lbNbytes ≤ range.slba * fs.dev.lbNbytes := by
      refine Nat.mul_le_mul_right _ ?_
      rw [hslba, hs, Nat.add_comm, Nat.add_mul_div_right _ _ hlb]
      exact Nat.le_add_left _ _
    have hblocks : range.elba < elba := lt_of_mul_lt_mul_right (hlast.trans_le he) (Nat.zero_le _)
    refine Set.Ico_subset_Ico hfirst (Nat.mul_le_mul_right _ hblocks)

end Bounds

theorem small_handle : ∃ s, run stepOk (.init smallDev smallGeo 0)
      (reliably [.poolCreate (smallArg 97 1), .objectCreate 0]) = some s ∧
    s.live = [(⟨0, 0⟩, 0)] ∧ Handle s.fs 0 ⟨0, 0⟩ 5 6 ∧
    objectRange .strict s.fs true 0 ⟨0, 0⟩ 0 512 = .ok (some ⟨5, 5, true⟩) ∧
    objectRange .strict s.fs true 0 ⟨0, 0⟩ (2 ^ 64 - 512) 512 = .ok (some ⟨4, 4, true⟩) := by
  obtain ⟨s, hrun, hval⟩ := Option.map_eq_some_iff.1 (show (run stepOk (.init smallDev smallGeo 0)
    (reliably [.poolCreate (smallArg 97 1), .objectCreate 0])).map (fun s => decide (s.live = [(⟨0, 0⟩, 0)] ∧
      s.fs.dev = smallDev ∧ (s.fs.objectSlba 0 ⟨0, 0⟩).toOption = some 5 ∧
      (s.fs.objectElba 0 ⟨0, 0⟩).toOption = some 6 ∧
      (objectRange .strict s.fs true 0 ⟨0, 0⟩ 0 512).toOption = some (some ⟨5, 5, true⟩) ∧
      (objectRange .strict s.fs true 0 ⟨0, 0⟩ (2 ^ 64 - 512) 512).toOption = some (some ⟨4, 4, true⟩))) =
        some true by decide +kernel)
  rw [decide_eq_true_eq] at hval
  obtain ⟨hlive, hdev, hslba, helba, hfirst, hwrap⟩ := hval
  have hh : Handle s.fs 0 ⟨0, 0⟩ 5 6 := by
    refine ⟨toOption_eq_some hslba, toOption_eq_some helba, by decide, ?_, ?_, ?_, ?_⟩
    all_goals rw [hdev]; decide
  exact ⟨s, hrun, hlive, hh, toOption_eq_some hfirst, toOption_eq_some hwrap⟩

/-- the write of that block stays in the object -/
theorem aligned_io_inside_iff_small : ∃ s,
    run stepOk (.init smallDev smallGeo 0) (reliably [.poolCreate (smallArg 97 1), .objectCreate 0]) = some s ∧
    ((⟨5, 5, true⟩ : LbaRange).bytes s.fs.dev.lbNbytes ⊆ Set.Ico (5 * s.fs.dev.lbNbytes) (6 * s.fs.dev.lbNbytes) ↔
      5 * s.fs.dev.lbNbytes + 0 < 2 ^ 64) := by
  obtain ⟨s, hrun, -, hh, hfirst, -⟩ := small_handle
  exact ⟨s, hrun, aligned_io_inside_iff hh (strict_rangesBounded hh.lb_pos) (by decide) hfirst⟩

/-- **A write in front of its object.** A length of one block at offset 2^64 - 512 passes the checks and is issued for
block 4; the object is block 5. -/
theorem aligned_io_escapes : ∃ s range,
    run stepOk (.init smallDev smallGeo 0) (reliably [.poolCreate (smallArg 97 1), .objectCreate 0]) = some s ∧
    s.live = [(⟨0, 0⟩, 0)] ∧ Handle s.fs 0 ⟨0, 0⟩ 5 6 ∧
    objectRange .strict s.fs true 0 ⟨0, 0⟩ (2 ^ 64 - 512) 512 = .ok (some range) ∧
    ¬ range.bytes s.fs.dev.lbNbytes ⊆ Set.Ico (5 * s.fs.dev.lbNbytes) (6 * s.fs.dev.lbNbytes) := by
  obtain ⟨s, hrun, hlive, hh, -, hwrap⟩ := small_handle
  refine ⟨s, ⟨4, 4, true⟩, hrun, hlive, hh, hwrap, fun hsub => ?_⟩
  have hfirst : 4 * s.fs.dev.lbNbytes ∈ (⟨4, 4, true⟩ : LbaRange).bytes s.fs.dev.lbNbytes :=
    ⟨le_rfl, Nat.mul_lt_mul_of_pos_right (by decide) hh.lb_pos⟩
  have hstart := (hsub hfirst).1
  have hlb := hh.lb_pos
  omega

end FlexAlloc
