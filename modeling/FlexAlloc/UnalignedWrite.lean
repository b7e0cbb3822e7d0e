/-
`fla_object_unaligned_write`: a read-modify-write through a bounce buffer of whole blocks.

The blocks that hold the first and the last byte are read into the two ends of the bounce buffer where the request does
not cover them, the caller's bytes are copied over the middle, and the whole is written back. All sums are on
`uint64_t`. Nothing compares the request with the object.

- `unaligned_write_exact`: for a request in its object, a call that returns 0 has written the caller's bytes and left
  every other byte of the device as it was.
- `rejected_iff`: which requests are turned away, whatever the device does, and nothing written.
- `unaligned_outside_iff`: requests that end past their object are turned away only where the device ends too.
- `unaligned_overruns`: a write to the last object of a slab that changes the slab's freelist.
-/
import FlexAlloc.ObjectRange

namespace FlexAlloc

open FlexAlloc.Core

def eNOENT : ℤ := 2

/-! ## The call -/

/-- what the call computes from its request: the bytes asked for, the whole blocks around them, and their number of
bytes -/
structure Bounce where
  origSb : ℕ
  origEb : ℕ
  alignedSb : ℕ
  alignedEb : ℕ
  size : ℕ
deriving DecidableEq, Repr

/-- the first lines of `fla_object_unaligned_write`, for an object that starts at byte `start` -/
def bounceOf (lb start objOffset len : ℕ) : Bounce :=
  let origSb := u64 (start + objOffset)
  let origEb := u64 (origSb + len)
  let alignedSb := origSb / lb * lb
  let alignedEb := u64 (origEb + lb - 1) / lb * lb
  ⟨origSb, origEb, alignedSb, alignedEb, sub64 alignedEb alignedSb⟩

/-- memory whose part from `pos` on has become `part` -/
def splice (buf : Bytes) (pos : ℕ) (part : Bytes) : Bytes := fun i => if i < pos then buf i else part (i - pos)

/-- read the block at byte `off` of the device into a buffer of `size` bytes, at `pos` -/
def readBlock (env : Env) (dev : Dev) (disk : Bytes) (off size pos : ℕ) (buf : Bytes) : Ret (ℤ × Bytes) :=
  let range := env.rangeFromOffsetNbytes dev off dev.lbNbytes
  if ¬ range.isValid then .ok (1, buf)
  else if size < pos + dev.lbNbytes then .error .outOfBounds
  else do
    let (err, part) ← flaXneSyncSeqRXneio env dev range disk (buf.from pos)
    .ok (err, splice buf pos part)

/-- the first read of `fla_object_unaligned_write`, into a fresh buffer -/
def readFirst (env : Env) (dev : Dev) (disk : Bytes) (b : Bounce) : Ret (ℤ × Bytes) :=
  if b.alignedSb < b.origSb then readBlock env dev disk b.alignedSb b.size 0 env.junk else .ok (0, env.junk)

/-- the two reads of `fla_object_unaligned_write` -/
def readEnds (env : Env) (dev : Dev) (disk : Bytes) (b : Bounce) : Ret (ℤ × Bytes) := do
  let (err, buf) ← readFirst env dev disk b
  if err ≠ 0 then .ok (err, buf)
  else if b.origEb < b.alignedEb then
    readBlock env dev disk (b.alignedEb - dev.lbNbytes) b.size (b.size - dev.lbNbytes) buf
  else .ok (0, buf)

/-- the end of `fla_object_unaligned_write`: `memcpy` the `len` bytes of the caller over the middle of the bounce buffer,
and write it back -/
def writeBack (env : Env) (dev : Dev) (disk : Bytes) (b : Bounce) (wBuf : Bytes) (len : ℕ) (buf : Bytes) :
    Ret (ℤ × Bytes) :=
  if b.size < b.origSb - b.alignedSb + len then .error .outOfBounds
  else
    let buf := copyBytes buf (b.origSb - b.alignedSb) wBuf 0 len
    let range := env.rangeFromOffsetNbytes dev b.alignedSb b.size
    if ¬ range.isValid then .ok (1, disk) else flaXneSyncSeqWXneio env dev true range buf disk

/-- `fla_object_unaligned_write`: the return value and the device -/
def flaObjectUnalignedWrite (env : Env) (fs : Flexalloc) (ndx : ℕ) (obj : Obj) (wBuf : Bytes) (objOffset len : ℕ) :
    Ret (ℤ × Bytes) := do
  let slba ← fs.objectSlba ndx obj
  if fs.dev.lbNbytes = 0 then .error .divByZero
  else
    let b := bounceOf fs.dev.lbNbytes (u64 (slba * fs.dev.lbNbytes)) objOffset len
    if ¬ env.bufAlloc then .ok (-eNOENT, fs.disk)
    else do
      let (err, buf) ← readEnds env fs.dev fs.disk b
      if err ≠ 0 then .ok (err, fs.disk) else writeBack env fs.dev fs.disk b wBuf len buf

/-! ## Requests that do not wrap -/

section Blocks

variable {lb start objOffset len : ℕ}

/-- the blocks around a request: they hold it, and no block more than needed -/
theorem bounceOf_eq (hlb : 0 < lb) (h : start + objOffset + len + lb ≤ 2 ^ 64) :
    bounceOf lb start objOffset len = ⟨start + objOffset, start + objOffset + len, (start + objOffset) / lb * lb,
      (start + objOffset + len + lb - 1) / lb * lb,
      (start + objOffset + len + lb - 1) / lb * lb - (start + objOffset) / lb * lb⟩ := by
  have hle : (start + objOffset) / lb * lb ≤ (start + objOffset + len + lb - 1) / lb * lb :=
    Nat.mul_le_mul_right _ (Nat.div_le_div_right (by omega))
  have hmul := Nat.div_mul_le_self (start + objOffset + len + lb - 1) lb
  unfold bounceOf
  dsimp only
  rw [u64_of_lt (n := start + objOffset) (by omega), u64_of_lt (n := start + objOffset + len) (by omega),
    u64_of_lt (by omega), sub64_of_le hle (by omega)]

theorem block_bounds (hlb : 0 < lb) (x : ℕ) :
    x / lb * lb ≤ x ∧ x < x / lb * lb + lb ∧ x ≤ (x + lb - 1) / lb * lb ∧ (x + lb - 1) / lb * lb < x + lb := by
  have h1 := Nat.div_add_mod x lb
  have h2 := Nat.mod_lt x hlb
  have h3 := Nat.div_add_mod (x + lb - 1) lb
  have h4 := Nat.mod_lt (x + lb - 1) hlb
  rw [Nat.mul_comm] at h1 h3
  omega

theorem roundUp_le (hlb : 0 < lb) {x k : ℕ} (h : x ≤ k * lb) : (x + lb - 1) / lb * lb ≤ k * lb := by
  refine Nat.mul_le_mul_right _ (Nat.lt_succ_iff.1 ((Nat.div_lt_iff_lt_mul hlb).2 ?_))
  rw [Nat.succ_mul]
  omega

end Blocks

/-! ## Reading a block -/

section ReadBlock

variable {env : Env} {dev : Dev} {disk buf buf' : Bytes} {off size pos : ℕ}

/-- **A block that is read** fills its place in the buffer. -/
theorem readBlock_exact (hr : env.RangesOk dev) (hlb : 0 < dev.lbNbytes) (hm : 0 < flaXneCalcMdtsNaddrs dev)
    (hblocks : dev.tbytes / dev.lbNbytes < 2 ^ 63) (hdvd : dev.lbNbytes ∣ off) (hin : off + dev.lbNbytes ≤ dev.tbytes)
    (h : readBlock env dev disk off size pos buf = .ok (0, buf')) : buf' = copyBytes buf pos disk off dev.lbNbytes := by
  obtain ⟨k, rfl⟩ := hdvd
  have hk : k + 1 ≤ dev.tbytes / dev.lbNbytes := by
    rw [Nat.le_div_iff_mul_le hlb, Nat.add_mul, Nat.one_mul, Nat.mul_comm]
    exact hin
  have hrange := hr.offset _ _ (Dvd.intro _ rfl) dvd_rfl hlb hin
  rw [← Nat.mul_add_one, Nat.mul_div_cancel_left _ hlb, Nat.mul_div_cancel_left _ hlb, Nat.add_sub_cancel] at hrange
  unfold readBlock at h
  dsimp only at h
  rw [hrange, if_neg (by simp)] at h
  split_ifs at h with hsize
  obtain ⟨⟨err, part⟩, hread, h⟩ := bind_eq_ok h
  cases h
  have hpart := seqR_spec hm (show k < 2 ^ 63 by omega) hread
  rw [hpart]
  funext i
  dsimp only
  rw [Nat.add_sub_cancel_left, Nat.one_mul, Nat.mul_comm k]
  by_cases hi : pos ≤ i ∧ i < pos + dev.lbNbytes
  · rw [splice, if_neg (by omega), copyBytes_of_mem (by omega) (by omega), copyBytes_of_mem hi.1 hi.2, Nat.sub_zero]
  · rw [copyBytes_of_not_mem (by omega), splice]
    by_cases hlow : i < pos
    · rw [if_pos hlow]
    · rw [if_neg hlow, copyBytes_of_not_mem (by omega), Core.Bytes.from]
      congr 1
      omega

/-- a bounce buffer for blocks of the device, around a request of at least a byte -/
structure Bounce.InDevice (b : Bounce) (dev : Dev) : Prop where
  sb_dvd : dev.lbNbytes ∣ b.alignedSb
  eb_dvd : dev.lbNbytes ∣ b.alignedEb
  sb_le : b.alignedSb ≤ b.origSb
  sb_lt : b.origSb < b.alignedSb + dev.lbNbytes
  le_eb : b.origEb ≤ b.alignedEb
  eb_lt : b.alignedEb < b.origEb + dev.lbNbytes
  pos : b.origSb < b.origEb
  size : b.size = b.alignedEb - b.alignedSb
  inside : b.alignedEb ≤ dev.tbytes

theorem Bounce.InDevice.block_le {b : Bounce} (hb : b.InDevice dev) : b.alignedSb + dev.lbNbytes ≤ b.alignedEb := by
  obtain ⟨k, hk⟩ := hb.sb_dvd
  obtain ⟨m, hm⟩ := hb.eb_dvd
  have hlt : dev.lbNbytes * k < dev.lbNbytes * m := by
    rw [← hk, ← hm]
    have := hb.sb_le
    have := hb.pos
    have := hb.le_eb
    omega
  have hkm : k + 1 ≤ m := Nat.lt_of_mul_lt_mul_left hlt
  rw [hk, hm, ← Nat.mul_add_one]
  exact Nat.mul_le_mul_left _ hkm

/-- **The ends of the bounce buffer** hold what the device holds around the request. -/
theorem readEnds_exact {b : Bounce} (hr : env.RangesOk dev) (hlb : 0 < dev.lbNbytes) (hm : 0 < flaXneCalcMdtsNaddrs dev)
    (hblocks : dev.tbytes / dev.lbNbytes < 2 ^ 63) (hb : b.InDevice dev) (h : readEnds env dev disk b = .ok (0, buf))
    {j : ℕ} (hj : j < b.size) (hout : j < b.origSb - b.alignedSb ∨ b.origEb - b.alignedSb ≤ j) :
    buf j = disk (b.alignedSb + j) := by
  have hblock := hb.block_le
  have hsize := hb.size
  have hsb := hb.sb_le
  have hlt := hb.sb_lt
  have hinside := hb.inside
  unfold readEnds at h
  obtain ⟨⟨err, buf₁⟩, hhead, h⟩ := bind_eq_ok h
  dsimp only at h
  split_ifs at h with herr htail
  · cases h
    exact absurd rfl herr
  all_goals rw [not_not.1 herr] at hhead
  · -- the last block is read over what is there
    have hread := readBlock_exact hr hlb hm hblocks (Nat.dvd_sub hb.eb_dvd dvd_rfl) (by omega) h
    have hafter := hb.eb_lt
    rw [hread]
    by_cases hlast : b.size - dev.lbNbytes ≤ j
    · rw [copyBytes_of_mem hlast (by omega)]
      congr 1
      omega
    · rw [copyBytes_of_not_mem (by omega)]
      have hfirst : j < b.origSb - b.alignedSb := by omega
      rw [readFirst, if_pos (by omega)] at hhead
      rw [readBlock_exact hr hlb hm hblocks hb.sb_dvd (by omega) hhead, copyBytes_of_mem (by omega) (by omega)]
      congr 1
  · -- the request ends with its last block
    cases h
    have hend := hb.le_eb
    have hfirst : j < b.origSb - b.alignedSb := by omega
    rw [readFirst, if_pos (by omega)] at hhead
    rw [readBlock_exact hr hlb hm hblocks hb.sb_dvd (by omega) hhead, copyBytes_of_mem (by omega) (by omega)]
    congr 1

end ReadBlock

/-! ## Requests in the object -/

section Exact

variable {env : Env} {fs : Flexalloc} {ndx slba elba : ℕ} {obj : Obj} {objOffset len : ℕ}

/-- the blocks around a request in its object are blocks of the object -/
theorem Handle.bounce (hh : Handle fs ndx obj slba elba) (hlen : 1 ≤ len)
    (hin : objOffset + len ≤ (elba - slba) * fs.dev.lbNbytes) :
    (bounceOf fs.dev.lbNbytes (u64 (slba * fs.dev.lbNbytes)) objOffset len).InDevice fs.dev ∧
      (bounceOf fs.dev.lbNbytes (u64 (slba * fs.dev.lbNbytes)) objOffset len).origSb = slba * fs.dev.lbNbytes + objOffset ∧
      (bounceOf fs.dev.lbNbytes (u64 (slba * fs.dev.lbNbytes)) objOffset len).origEb =
        slba * fs.dev.lbNbytes + objOffset + len := by
  have hlb := hh.lb_pos
  have htb := hh.tbytes
  have hinside := hh.inside
  have hsize : slba * fs.dev.lbNbytes + (elba - slba) * fs.dev.lbNbytes = elba * fs.dev.lbNbytes := by
    rw [← Nat.add_mul, Nat.add_sub_cancel' hh.lt.le]
  rw [u64_of_lt (n := slba * fs.dev.lbNbytes) (by omega), bounceOf_eq hlb (by omega)]
  obtain ⟨h1, h2, -, -⟩ := block_bounds hlb (slba * fs.dev.lbNbytes + objOffset)
  obtain ⟨-, -, h3, h4⟩ := block_bounds hlb (slba * fs.dev.lbNbytes + objOffset + len)
  have hend := roundUp_le hlb (show slba * fs.dev.lbNbytes + objOffset + len ≤ elba * fs.dev.lbNbytes by omega)
  exact ⟨⟨Dvd.intro_left _ rfl, Dvd.intro_left _ rfl, h1, h2, h3, h4, by dsimp only; omega, rfl, by dsimp only; omega⟩,
    rfl, rfl⟩

theorem unalignedWrite_done {wBuf disk' : Bytes} (h : flaObjectUnalignedWrite env fs ndx obj wBuf objOffset len = .ok (0, disk')) :
    ∃ slba buf, fs.objectSlba ndx obj = .ok slba ∧
      readEnds env fs.dev fs.disk (bounceOf fs.dev.lbNbytes (u64 (slba * fs.dev.lbNbytes)) objOffset len) = .ok (0, buf) ∧
      (env.rangeFromOffsetNbytes fs.dev
        (bounceOf fs.dev.lbNbytes (u64 (slba * fs.dev.lbNbytes)) objOffset len).alignedSb
        (bounceOf fs.dev.lbNbytes (u64 (slba * fs.dev.lbNbytes)) objOffset len).size).isValid = true ∧
      flaXneSyncSeqWXneio env fs.dev true (env.rangeFromOffsetNbytes fs.dev
        (bounceOf fs.dev.lbNbytes (u64 (slba * fs.dev.lbNbytes)) objOffset len).alignedSb
        (bounceOf fs.dev.lbNbytes (u64 (slba * fs.dev.lbNbytes)) objOffset len).size)
        (copyBytes buf ((bounceOf fs.dev.lbNbytes (u64 (slba * fs.dev.lbNbytes)) objOffset len).origSb -
          (bounceOf fs.dev.lbNbytes (u64 (slba * fs.dev.lbNbytes)) objOffset len).alignedSb) wBuf 0 len) fs.disk =
        .ok (0, disk') := by
  obtain ⟨slba, hslba, h⟩ := bind_eq_ok h
  refine ⟨slba, ?_⟩
  by_cases hlb : fs.dev.lbNbytes = 0
  · rw [if_pos hlb] at h
    cases h
  rw [if_neg hlb] at h
  dsimp only at h
  generalize bounceOf fs.dev.lbNbytes (u64 (slba * fs.dev.lbNbytes)) objOffset len = b at h ⊢
  by_cases halloc : ¬ env.bufAlloc
  · rw [if_pos halloc] at h
    cases h
  rw [if_neg halloc] at h
  obtain ⟨⟨err, buf⟩, hends, h⟩ := bind_eq_ok h
  dsimp only at h
  by_cases herr : err ≠ 0
  · rw [if_pos herr] at h
    exact absurd (Prod.mk.inj (Except.ok.inj h)).1 herr
  rw [if_neg herr, writeBack] at h
  by_cases hfits : b.size < b.origSb - b.alignedSb + len
  · rw [if_pos hfits] at h
    cases h
  rw [if_neg hfits] at h
  by_cases hvalid : ¬ (env.rangeFromOffsetNbytes fs.dev b.alignedSb b.size).isValid
  · rw [if_pos hvalid] at h
    exact absurd (Prod.mk.inj (Except.ok.inj h)).1 one_ne_zero
  rw [if_neg hvalid] at h
  rw [not_not.1 herr] at hends
  exact ⟨buf, hslba, hends, not_not.1 hvalid, h⟩

/-- **Unaligned writes are exact.** A call for a part of an object that returns 0 has written the caller's bytes to their
place, and no other byte of the device has changed. -/
theorem unaligned_write_exact (hh : Handle fs ndx obj slba elba) (hr : env.RangesOk fs.dev) (hlen : 1 ≤ len)
    (hin : objOffset + len ≤ (elba - slba) * fs.dev.lbNbytes) {wBuf disk' : Bytes}
    (h : flaObjectUnalignedWrite env fs ndx obj wBuf objOffset len = .ok (0, disk')) :
    (∀ i < len, disk' (slba * fs.dev.lbNbytes + objOffset + i) = wBuf i) ∧
      ∀ i, i < slba * fs.dev.lbNbytes + objOffset ∨ slba * fs.dev.lbNbytes + objOffset + len ≤ i →
        disk' i = fs.disk i := by
  obtain ⟨slba', buf, hslba, hends, -, hwrite⟩ := unalignedWrite_done h
  rw [hh.starts] at hslba
  cases hslba
  obtain ⟨hb, hsb, heb⟩ := hh.bounce hlen hin
  set b := bounceOf fs.dev.lbNbytes (u64 (slba * fs.dev.lbNbytes)) objOffset len
  have hblock := hb.block_le
  have hsize := hb.size
  have hlb := hh.lb_pos
  have hle := hb.sb_le
  have hend := hb.le_eb
  -- the range of the write is that of the bounce buffer
  obtain ⟨k, hk⟩ := hb.sb_dvd
  obtain ⟨m, hm⟩ := hb.eb_dvd
  have hinside := hb.inside
  have hrange := hr.offset b.alignedSb b.size hb.sb_dvd (hsize ▸ Nat.dvd_sub hb.eb_dvd hb.sb_dvd) (by omega) (by omega)
  rw [hsize, Nat.add_sub_cancel' (by omega), ← hsize] at hrange
  have hfirst : b.alignedSb / fs.dev.lbNbytes = k := by rw [hk, Nat.mul_div_cancel_left _ hlb]
  have hlast : b.alignedEb / fs.dev.lbNbytes = m := by rw [hm, Nat.mul_div_cancel_left _ hlb]
  have hm1 : 1 ≤ m := Nat.pos_of_ne_zero fun h0 => by rw [h0, Nat.mul_zero] at hm; omega
  have hkm : k < m := by
    by_contra hcon
    have := Nat.mul_le_mul_left fs.dev.lbNbytes (Nat.not_lt.1 hcon)
    omega
  have hm63 : m - 1 < 2 ^ 63 := by
    have hblocks := hh.blocks
    have : m ≤ fs.dev.tbytes / fs.dev.lbNbytes := by
      rw [Nat.le_div_iff_mul_le hlb, Nat.mul_comm]
      omega
    omega
  rw [hfirst, hlast] at hrange
  rw [hrange] at hwrite
  have hmdts := seqW_mdts (show k ≤ m - 1 by omega) hm63 hwrite
  have hdisk := seqW_spec hmdts hm63 hwrite
  dsimp only at hdisk
  have hbytes : (m - 1 + 1 - k) * fs.dev.lbNbytes = b.size := by
    rw [show m - 1 + 1 - k = m - k by omega, Nat.sub_mul, Nat.mul_comm m, Nat.mul_comm k, ← hk, ← hm, hsize]
  rw [Nat.mul_comm k, ← hk, hbytes] at hdisk
  refine ⟨fun i hi => ?_, fun i hi => ?_⟩
  · rw [hdisk, copyBytes_of_mem (by omega) (by omega), copyBytes_of_mem (by omega) (by omega)]
    congr 1
    omega
  · rw [hdisk]
    by_cases hmem : b.alignedSb ≤ i ∧ i < b.alignedSb + b.size
    · -- a byte of the blocks around the request is written back
      rw [copyBytes_of_mem hmem.1 hmem.2, copyBytes_of_not_mem (by omega), Nat.zero_add,
        readEnds_exact hr hlb hmdts hh.blocks hb hends (by omega) (by omega), Nat.add_sub_cancel' hmem.1]
    · exact copyBytes_of_not_mem (by omega)

end Exact

/-- a pool of one-block objects on the small device, and the seven objects of its first slab -/
def sevenObjects : List (Env × Op) := reliably (.poolCreate (smallArg 97 1) :: List.replicate 7 (.objectCreate 0))

/-- the last of them is block 11; a write in it, and one that goes on behind it -/
theorem seven_objects : ∃ s inside beyond, run stepOk (.init smallDev smallGeo 0) sevenObjects = some s ∧
    (⟨0, 6⟩, 0) ∈ s.live ∧ Handle s.fs 0 ⟨0, 6⟩ 11 12 ∧ s.fs.dev = smallDev ∧
    flaObjectUnalignedWrite .strict s.fs 0 ⟨0, 6⟩ (fun _ => 1) 100 300 = .ok (0, inside) ∧
    flaObjectUnalignedWrite .strict s.fs 0 ⟨0, 6⟩ (fun _ => 1) 500 100 = .ok (0, beyond) ∧
    s.fs.disk (12 * 512) = 0 ∧ beyond (12 * 512) = 1 := by
  obtain ⟨s, hrun, hval⟩ := Option.map_eq_some_iff.1 (show (run stepOk (.init smallDev smallGeo 0) sevenObjects).map
    (fun s => decide ((⟨0, 6⟩, 0) ∈ s.live ∧ s.fs.dev = smallDev ∧ (s.fs.objectSlba 0 ⟨0, 6⟩).toOption = some 11 ∧
      (s.fs.objectElba 0 ⟨0, 6⟩).toOption = some 12 ∧ s.fs.disk (12 * 512) = 0 ∧
      (flaObjectUnalignedWrite .strict s.fs 0 ⟨0, 6⟩ (fun _ => 1) 100 300).toOption.map (·.1) = some 0 ∧
      (flaObjectUnalignedWrite .strict s.fs 0 ⟨0, 6⟩ (fun _ => 1) 500 100).toOption.map
        (fun r => (r.1, r.2 (12 * 512))) = some (0, 1))) = some true by decide +kernel)
  rw [decide_eq_true_eq] at hval
  obtain ⟨hlive, hdev, hslba, helba, hzero, hin, hout⟩ := hval
  obtain ⟨⟨err, inside⟩, hin, rfl⟩ := Option.map_eq_some_iff.1 hin
  obtain ⟨⟨err, beyond⟩, hout, hval⟩ := Option.map_eq_some_iff.1 hout
  obtain ⟨rfl, hone⟩ := Prod.mk.inj hval
  refine ⟨s, inside, beyond, hrun, hlive,
    ⟨toOption_eq_some hslba, toOption_eq_some helba, by decide, ?_, ?_, ?_, ?_⟩, hdev, toOption_eq_some hin,
    toOption_eq_some hout, hzero, hone⟩
  all_goals rw [hdev]; decide

/-- the write of three hundred bytes in the last object -/
theorem unaligned_write_exact_small : ∃ s disk', run stepOk (.init smallDev smallGeo 0) sevenObjects = some s ∧
    flaObjectUnalignedWrite .strict s.fs 0 ⟨0, 6⟩ (fun _ => 1) 100 300 = .ok (0, disk') ∧
    (∀ i < 300, disk' (11 * s.fs.dev.lbNbytes + 100 + i) = 1) ∧
    ∀ i, i < 11 * s.fs.dev.lbNbytes + 100 ∨ 11 * s.fs.dev.lbNbytes + 100 + 300 ≤ i → disk' i = s.fs.disk i := by
  obtain ⟨s, disk', -, hrun, -, hh, hdev, hin, -⟩ := seven_objects
  exact ⟨s, disk', hrun, hin, unaligned_write_exact hh (strict_rangesOk _) (by decide) (by rw [hdev]; decide) hin⟩

/-! ## Requests that are turned away -/

/-- a block can be read into the bounce buffer, and the read returns -/
def Bounce.Ready (b : Bounce) (dev : Dev) : Prop := dev.lbNbytes ≤ b.size ∧ 0 < flaXneCalcMdtsNaddrs dev

/-- a check of xNVMe's turns the request away before anything is written: the block of the first byte is not in the
device; or that of the last byte; or there are no blocks, or not all of them are in the device. Before the later checks
nothing may have gone wrong with the bounce buffer. -/
def Bounce.Refused (b : Bounce) (dev : Dev) (len : ℕ) : Prop :=
  (b.alignedSb < b.origSb ∧ dev.tbytes < b.alignedSb + dev.lbNbytes) ∨
  ((b.alignedSb < b.origSb → b.Ready dev) ∧ b.origEb < b.alignedEb ∧ dev.tbytes < b.alignedEb) ∨
  ((b.alignedSb < b.origSb → b.Ready dev) ∧ (b.origEb < b.alignedEb → b.Ready dev) ∧
    b.origSb - b.alignedSb + len ≤ b.size ∧ (b.size = 0 ∨ dev.tbytes < b.alignedSb + b.size))

/-- whatever the caller's bytes and whatever the commands return, the call returns an error and the device is as before -/
def Rejected (fs : Flexalloc) (ndx : ℕ) (obj : Obj) (objOffset len : ℕ) : Prop :=
  ∀ env, env.RangesBounded fs.dev → ∀ wBuf, ∃ err, err ≠ 0 ∧
    flaObjectUnalignedWrite env fs ndx obj wBuf objOffset len = .ok (err, fs.disk)

section Refused

variable {env : Env} {dev : Dev} {disk buf : Bytes} {off size pos : ℕ}

theorem readBlock_refused (hb : env.RangesBounded dev) (hout : dev.tbytes < off + dev.lbNbytes) :
    readBlock env dev disk off size pos buf = .ok (1, buf) := by
  refine if_pos fun hvalid => ?_
  have := (hb _ _ hvalid).2.1
  omega

theorem readBlock_returns (hb : env.RangesBounded dev) (hlb : 0 < dev.lbNbytes)
    (hblocks : dev.tbytes / dev.lbNbytes < 2 ^ 63) (hdvd : dev.lbNbytes ∣ off) (hm : 0 < flaXneCalcMdtsNaddrs dev)
    (hsize : pos + dev.lbNbytes ≤ size) : ∃ err buf', readBlock env dev disk off size pos buf = .ok (err, buf') := by
  unfold readBlock
  dsimp only
  by_cases hvalid : ¬ (env.rangeFromOffsetNbytes dev off dev.lbNbytes).isValid
  · exact ⟨1, buf, if_pos hvalid⟩
  rw [if_neg hvalid, if_neg (by omega)]
  -- a range of one block
  obtain ⟨-, hend, hslba, hle, hlast⟩ := hb _ _ (not_not.1 hvalid)
  obtain ⟨k, rfl⟩ := hdvd
  generalize env.rangeFromOffsetNbytes dev (dev.lbNbytes * k) dev.lbNbytes = range at hslba hle hlast
  rw [Nat.mul_div_cancel_left _ hlb] at hslba
  rw [← Nat.mul_add_one, Nat.mul_comm _ (k + 1)] at hlast hend
  have hk : k + 1 ≤ dev.tbytes / dev.lbNbytes := (Nat.le_div_iff_mul_le hlb).2 hend
  have helba : range.elba < k + 1 := lt_of_mul_lt_mul_right hlast (Nat.zero_le _)
  have hlt := mdts_lt dev
  have hone : (range.elba - range.slba) / flaXneCalcMdtsNaddrs dev = 0 := by
    rw [show range.elba - range.slba = 0 by omega, Nat.zero_div]
  obtain ⟨⟨err, part⟩, hread⟩ : ∃ r, flaXneSyncSeqRXneio env dev range disk (buf.from pos) = .ok r :=
    seqLoop_returns hm _ _ _ (by omega) (fun _ => by rw [hone]; omega) _
  rw [hread]
  exact ⟨_, _, rfl⟩

theorem strict_seqR_stuck {range : LbaRange} (hle : range.slba ≤ range.elba) (h64 : range.elba < 2 ^ 64)
    (hm : flaXneCalcMdtsNaddrs dev = 0) : flaXneSyncSeqRXneio .strict dev range disk buf = .error .endless := by
  have hok : Env.strict.nvmRead range.slba = 0 := rfl
  rw [flaXneSyncSeqRXneio, hm]
  exact seqLoop_forever hle h64 hok _ _ _

/-- a block of the device, on a device that does all it is asked: it is read, or the call does not return -/
theorem strict_readBlock (hlb : 0 < dev.lbNbytes) (hblocks : dev.tbytes / dev.lbNbytes < 2 ^ 63)
    (hdvd : dev.lbNbytes ∣ off) (hin : off + dev.lbNbytes ≤ dev.tbytes) (disk buf : Bytes) (size pos : ℕ) :
    (pos + dev.lbNbytes ≤ size ∧ 0 < flaXneCalcMdtsNaddrs dev →
      ∃ buf', readBlock .strict dev disk off size pos buf = .ok (0, buf')) ∧
    (¬ (pos + dev.lbNbytes ≤ size ∧ 0 < flaXneCalcMdtsNaddrs dev) →
      ∃ f, readBlock .strict dev disk off size pos buf = .error f) := by
  have hrange := (strict_rangesOk dev).offset off dev.lbNbytes hdvd dvd_rfl hlb hin
  obtain ⟨k, rfl⟩ := hdvd
  rw [← Nat.mul_add_one, Nat.mul_div_cancel_left _ hlb, Nat.mul_div_cancel_left _ hlb, Nat.add_sub_cancel] at hrange
  have hk : k + 1 ≤ dev.tbytes / dev.lbNbytes := by
    rw [Nat.le_div_iff_mul_le hlb, Nat.mul_comm, Nat.mul_add_one]
    exact hin
  have hcall : readBlock .strict dev disk (dev.lbNbytes * k) size pos buf =
      if size < pos + dev.lbNbytes then .error .outOfBounds
      else flaXneSyncSeqRXneio .strict dev ⟨k, k, true⟩ disk (buf.from pos) >>= fun r =>
        .ok (r.1, splice buf pos r.2) := by
    rw [readBlock, hrange]
    exact if_neg (by simp)
  rw [hcall]
  refine ⟨fun ⟨hsize, hm⟩ => ?_, fun hnot => ?_⟩
  · have hok : ∀ b, Env.strict.nvmRead b = 0 := fun _ => rfl
    obtain ⟨part, hpart⟩ : ∃ part, flaXneSyncSeqRXneio .strict dev ⟨k, k, true⟩ disk (buf.from pos) = .ok (0, part) :=
      seqR_ok hm (show k < 2 ^ 63 by omega) le_rfl hok _ _
    rw [if_neg (by omega), hpart]
    exact ⟨_, rfl⟩
  · by_cases hfit : size < pos + dev.lbNbytes
    · exact ⟨_, if_pos hfit⟩
    · have hstuck : flaXneSyncSeqRXneio .strict dev ⟨k, k, true⟩ disk (buf.from pos) = .error .endless :=
        strict_seqR_stuck le_rfl (show k < 2 ^ 64 by omega) (by omega)
      rw [if_neg hfit, hstuck]
      exact ⟨_, rfl⟩

theorem writeBack_refused {b : Bounce} {len : ℕ} (hb : env.RangesBounded dev)
    (hfits : b.origSb - b.alignedSb + len ≤ b.size) (hout : b.size = 0 ∨ dev.tbytes < b.alignedSb + b.size)
    (wBuf : Bytes) : writeBack env dev disk b wBuf len buf = .ok (1, disk) := by
  unfold writeBack
  dsimp only
  rw [if_neg (by omega), if_pos fun hvalid => ?_]
  obtain ⟨hpos, hend, -⟩ := hb _ _ hvalid
  omega

theorem strict_writeBack {b : Bounce} {len : ℕ} (hlb : 0 < dev.lbNbytes) (hblocks : dev.tbytes / dev.lbNbytes < 2 ^ 63)
    (htb : dev.tbytes < 2 ^ 64) (hsb : dev.lbNbytes ∣ b.alignedSb) (heb : dev.lbNbytes ∣ b.alignedEb)
    (hsb64 : b.alignedSb < 2 ^ 64) (heb64 : b.alignedEb < 2 ^ 64) (hsize : b.size = sub64 b.alignedEb b.alignedSb)
    (hnot : ¬ (b.origSb - b.alignedSb + len ≤ b.size ∧ (b.size = 0 ∨ dev.tbytes < b.alignedSb + b.size)))
    (disk buf wBuf : Bytes) : (∃ f, writeBack .strict dev disk b wBuf len buf = .error f) ∨
      ∃ disk', writeBack .strict dev disk b wBuf len buf = .ok (0, disk') := by
  unfold writeBack
  dsimp only
  by_cases hfits : b.size < b.origSb - b.alignedSb + len
  · exact Or.inl ⟨_, if_pos hfits⟩
  obtain ⟨hpos, hend⟩ : 0 < b.size ∧ b.alignedSb + b.size ≤ dev.tbytes := by omega
  -- the blocks are in the device, so their number did not wrap
  have hexact : b.alignedSb + b.size = b.alignedEb := by
    rw [hsize, sub64, u64] at hend ⊢
    omega
  have hdvd : dev.lbNbytes ∣ b.size := (Nat.dvd_add_right hsb).1 (hexact ▸ heb)
  have hrange := (strict_rangesOk dev).offset _ _ hsb hdvd hpos hend
  obtain ⟨k, hk⟩ := hsb
  obtain ⟨m, hm⟩ := heb
  have hm1 : k < m := by
    by_contra hcon
    have := Nat.mul_le_mul_left dev.lbNbytes (Nat.not_lt.1 hcon)
    omega
  have hblocks' : m ≤ dev.tbytes / dev.lbNbytes := by
    rw [Nat.le_div_iff_mul_le hlb, Nat.mul_comm, ← hm, ← hexact]
    exact hend
  rw [hexact, hk, hm, Nat.mul_div_cancel_left _ hlb, Nat.mul_div_cancel_left _ hlb, ← hk] at hrange
  rw [if_neg hfits, hrange, if_neg (by simp)]
  by_cases hmdts : 0 < flaXneCalcMdtsNaddrs dev
  · have hok : ∀ b, Env.strict.nvmWrite b = 0 := fun _ => rfl
    exact Or.inr (seqW_ok hmdts (show m - 1 < 2 ^ 63 by omega) (show k ≤ m - 1 by omega) rfl hok _ _)
  · refine Or.inl ⟨.endless, ?_⟩
    have hok : Env.strict.nvmWrite k = 0 := rfl
    rw [flaXneSyncSeqWXneio, if_neg (by simp [Env.strict, Env.reliable]), flaXneSyncSeqW, Nat.eq_zero_of_not_pos hmdts]
    exact seqLoop_forever (show k ≤ m - 1 by omega) (show m - 1 < 2 ^ 64 by omega) hok _ _ _

theorem bounceOf_blocks (lb start objOffset len : ℕ) :
    lb ∣ (bounceOf lb start objOffset len).alignedSb ∧ lb ∣ (bounceOf lb start objOffset len).alignedEb ∧
      (bounceOf lb start objOffset len).alignedSb < 2 ^ 64 ∧ (bounceOf lb start objOffset len).alignedEb < 2 ^ 64 :=
  ⟨Dvd.intro_left _ rfl, Dvd.intro_left _ rfl, (Nat.div_mul_le_self _ _).trans_lt (u64_lt _),
    (Nat.div_mul_le_self _ _).trans_lt (u64_lt _)⟩

variable {b : Bounce}

theorem readFirst_returns (hb : env.RangesBounded dev) (hlb : 0 < dev.lbNbytes)
    (hblocks : dev.tbytes / dev.lbNbytes < 2 ^ 63) (hsb : dev.lbNbytes ∣ b.alignedSb)
    (hready : b.alignedSb < b.origSb → b.Ready dev) (disk : Bytes) :
    ∃ err buf, readFirst env dev disk b = .ok (err, buf) := by
  unfold readFirst
  split_ifs with hfirst
  · obtain ⟨hsize, hm⟩ := hready hfirst
    exact readBlock_returns hb hlb hblocks hsb hm (by omega)
  · exact ⟨0, env.junk, rfl⟩

theorem readEnds_returns (hb : env.RangesBounded dev) (hlb : 0 < dev.lbNbytes)
    (hblocks : dev.tbytes / dev.lbNbytes < 2 ^ 63) (hsb : dev.lbNbytes ∣ b.alignedSb) (heb : dev.lbNbytes ∣ b.alignedEb)
    (hfirst : b.alignedSb < b.origSb → b.Ready dev) (hlast : b.origEb < b.alignedEb → b.Ready dev) (disk : Bytes) :
    ∃ err buf, readEnds env dev disk b = .ok (err, buf) := by
  obtain ⟨err, buf, hread⟩ := readFirst_returns hb hlb hblocks hsb hfirst disk
  rw [readEnds, hread, ok_bind]
  dsimp only
  split_ifs with herr htail
  · exact ⟨err, buf, rfl⟩
  · obtain ⟨hsize, hm⟩ := hlast htail
    exact readBlock_returns hb hlb hblocks (Nat.dvd_sub heb dvd_rfl) hm (by omega)
  · exact ⟨0, buf, rfl⟩

theorem strict_readEnds (hlb : 0 < dev.lbNbytes) (hblocks : dev.tbytes / dev.lbNbytes < 2 ^ 63)
    (hsb : dev.lbNbytes ∣ b.alignedSb) (heb : dev.lbNbytes ∣ b.alignedEb)
    (hhead : ¬ (b.alignedSb < b.origSb ∧ dev.tbytes < b.alignedSb + dev.lbNbytes))
    (htail : ¬ ((b.alignedSb < b.origSb → b.Ready dev) ∧ b.origEb < b.alignedEb ∧ dev.tbytes < b.alignedEb))
    (disk : Bytes) : (∃ f, readEnds .strict dev disk b = .error f) ∨
      (b.alignedSb < b.origSb → b.Ready dev) ∧ (b.origEb < b.alignedEb → b.Ready dev) ∧
        ∃ buf, readEnds .strict dev disk b = .ok (0, buf) := by
  have hfirst : (∃ f, readFirst .strict dev disk b = .error f) ∨
      (b.alignedSb < b.origSb → b.Ready dev) ∧ ∃ buf, readFirst .strict dev disk b = .ok (0, buf) := by
    by_cases hneed : b.alignedSb < b.origSb
    · obtain ⟨hok, hstuck⟩ := strict_readBlock hlb hblocks hsb (by omega) disk Env.strict.junk b.size 0
      rw [readFirst, if_pos hneed]
      rw [Nat.zero_add] at hok hstuck
      by_cases hready : b.Ready dev
      · exact Or.inr ⟨fun _ => hready, hok hready⟩
      · exact Or.inl (hstuck hready)
    · exact Or.inr ⟨fun h => absurd h hneed, _, if_neg hneed⟩
  rcases hfirst with ⟨f, hf⟩ | ⟨hready, buf, hbuf⟩
  · exact Or.inl ⟨f, by rw [readEnds, hf]; rfl⟩
  have hends : readEnds .strict dev disk b = if b.origEb < b.alignedEb then
      readBlock .strict dev disk (b.alignedEb - dev.lbNbytes) b.size (b.size - dev.lbNbytes) buf else .ok (0, buf) := by
    rw [readEnds, hbuf, ok_bind]
    exact if_neg (by simp)
  rw [hends]
  by_cases hneed : b.origEb < b.alignedEb
  · have hwhole : dev.lbNbytes ≤ b.alignedEb := Nat.le_of_dvd (by omega) heb
    have hin : b.alignedEb ≤ dev.tbytes := by
      by_contra hout
      exact htail ⟨hready, hneed, by omega⟩
    obtain ⟨hok, hstuck⟩ := strict_readBlock hlb hblocks (Nat.dvd_sub heb dvd_rfl) (by omega) disk buf b.size
      (b.size - dev.lbNbytes)
    rw [if_pos hneed]
    by_cases hlast : b.Ready dev
    · exact Or.inr ⟨hready, fun _ => hlast, hok ⟨by have := hlast.1; omega, hlast.2⟩⟩
    · exact Or.inl (hstuck fun h => hlast ⟨by omega, h.2⟩)
  · exact Or.inr ⟨hready, fun h => absurd h hneed, buf, if_neg hneed⟩

end Refused

section Rejected

variable {fs : Flexalloc} {ndx slba elba : ℕ} {obj : Obj} {objOffset len : ℕ}

theorem Handle.unalignedWrite (hh : Handle fs ndx obj slba elba) (env : Env) (wBuf : Bytes) :
    flaObjectUnalignedWrite env fs ndx obj wBuf objOffset len =
      if ¬ env.bufAlloc then .ok (-eNOENT, fs.disk)
      else readEnds env fs.dev fs.disk (bounceOf fs.dev.lbNbytes (u64 (slba * fs.dev.lbNbytes)) objOffset len) >>= fun r =>
        if r.1 ≠ 0 then .ok (r.1, fs.disk)
        else writeBack env fs.dev fs.disk (bounceOf fs.dev.lbNbytes (u64 (slba * fs.dev.lbNbytes)) objOffset len) wBuf len
          r.2 := by
  have hlb := hh.lb_pos
  rw [flaObjectUnalignedWrite, hh.starts, ok_bind, if_neg (by omega)]

/-- a call whose reads return, and whose write is refused when they succeed -/
theorem Handle.rejected_of (hh : Handle fs ndx obj slba elba) {env : Env} {wBuf : Bytes} (err : ℤ) (buf : Bytes)
    (hends : readEnds env fs.dev fs.disk (bounceOf fs.dev.lbNbytes (u64 (slba * fs.dev.lbNbytes)) objOffset len) =
      .ok (err, buf))
    (hback : err = 0 → writeBack env fs.dev fs.disk (bounceOf fs.dev.lbNbytes (u64 (slba * fs.dev.lbNbytes)) objOffset len)
      wBuf len buf = .ok (1, fs.disk)) :
    ∃ err, err ≠ 0 ∧ flaObjectUnalignedWrite env fs ndx obj wBuf objOffset len = .ok (err, fs.disk) := by
  rw [hh.unalignedWrite, hends, ok_bind]
  by_cases halloc : ¬ env.bufAlloc
  · exact ⟨-eNOENT, by decide, if_pos halloc⟩
  rw [if_neg halloc]
  by_cases herr : err ≠ 0
  · exact ⟨err, herr, if_pos herr⟩
  · exact ⟨1, one_ne_zero, (if_neg herr).trans (hback (not_not.1 herr))⟩

/-- **Which requests are turned away.** -/
theorem rejected_iff (hh : Handle fs ndx obj slba elba) : Rejected fs ndx obj objOffset len ↔
    (bounceOf fs.dev.lbNbytes (u64 (slba * fs.dev.lbNbytes)) objOffset len).Refused fs.dev len := by
  have hlb := hh.lb_pos
  have htb := hh.tbytes
  have hblocks := hh.blocks
  obtain ⟨hsb, heb, hsb64, heb64⟩ :=
    bounceOf_blocks fs.dev.lbNbytes (u64 (slba * fs.dev.lbNbytes)) objOffset len
  have hsize : (bounceOf fs.dev.lbNbytes (u64 (slba * fs.dev.lbNbytes)) objOffset len).size =
      sub64 (bounceOf fs.dev.lbNbytes (u64 (slba * fs.dev.lbNbytes)) objOffset len).alignedEb
        (bounceOf fs.dev.lbNbytes (u64 (slba * fs.dev.lbNbytes)) objOffset len).alignedSb := rfl
  constructor
  · intro hrej
    by_contra hnot
    -- a device that does all it is asked writes the blocks, or the call does not return
    obtain ⟨err, herr, hrun⟩ := hrej .strict (strict_rangesBounded hlb) 0
    rw [hh.unalignedWrite, if_neg (by simp [Env.strict, Env.reliable])] at hrun
    generalize bounceOf fs.dev.lbNbytes (u64 (slba * fs.dev.lbNbytes)) objOffset len = b at *
    rw [Bounce.Refused, not_or, not_or] at hnot
    obtain ⟨hhead, htail, hmid⟩ := hnot
    rcases strict_readEnds hlb hblocks hsb heb hhead htail fs.disk with ⟨f, hf⟩ | ⟨hfirst, hlast, buf, hbuf⟩
    · rw [hf] at hrun
      cases hrun
    rw [hbuf, ok_bind, if_neg (by simp)] at hrun
    rcases strict_writeBack hlb hblocks (by omega) hsb heb hsb64 heb64 hsize (fun h => hmid ⟨hfirst, hlast, h⟩) fs.disk buf 0
      with ⟨f, hf⟩ | ⟨disk', hd⟩
    · rw [hf] at hrun
      cases hrun
    · rw [hd] at hrun
      exact herr (Prod.mk.inj (Except.ok.inj hrun)).1.symm
  · rintro (⟨hneed, hout⟩ | ⟨hfirst, hneed, hout⟩ | ⟨hfirst, hlast, hfits, hout⟩) env hb wBuf
    · refine hh.rejected_of 1 env.junk ?_ fun h => absurd h one_ne_zero
      rw [readEnds, readFirst, if_pos hneed, readBlock_refused hb hout, ok_bind]
      exact if_pos one_ne_zero
    · obtain ⟨err, buf, hread⟩ := readFirst_returns hb hlb hblocks hsb hfirst fs.disk
      have hwhole := Nat.le_of_dvd (by omega) heb
      by_cases herr : err ≠ 0
      · refine hh.rejected_of err buf ?_ fun h => absurd h herr
        rw [readEnds, hread, ok_bind]
        exact if_pos herr
      · refine hh.rejected_of 1 buf ?_ fun h => absurd h one_ne_zero
        rw [readEnds, hread, ok_bind]
        dsimp only
        rw [if_neg herr, if_pos hneed, readBlock_refused hb (by omega)]
    · obtain ⟨err, buf, hread⟩ := readEnds_returns hb hlb hblocks hsb heb hfirst hlast fs.disk
      exact hh.rejected_of err buf hread fun _ => writeBack_refused hb hfits hout wBuf

/-- **Requests past their object** are turned away with nothing written if and only if a check on the device's size turns
them away; nothing is compared with the size of the object. -/
theorem unaligned_outside_iff (hh : Handle fs ndx obj slba elba) :
    ((elba - slba) * fs.dev.lbNbytes < objOffset + len → Rejected fs ndx obj objOffset len) ↔
      objOffset + len ≤ (elba - slba) * fs.dev.lbNbytes ∨
        (bounceOf fs.dev.lbNbytes (u64 (slba * fs.dev.lbNbytes)) objOffset len).Refused fs.dev len := by
  rw [rejected_iff hh]
  constructor
  · intro h
    by_cases hin : objOffset + len ≤ (elba - slba) * fs.dev.lbNbytes
    · exact Or.inl hin
    · exact Or.inr (h (by omega))
  · rintro (hin | hout) hpast
    · omega
    · exact hout

end Rejected

/-- the write that goes on behind the last object -/
theorem unaligned_outside_iff_small : ∃ s, run stepOk (.init smallDev smallGeo 0) sevenObjects = some s ∧
    (((12 - 11) * s.fs.dev.lbNbytes < 500 + 100 → Rejected s.fs 0 ⟨0, 6⟩ 500 100) ↔
      500 + 100 ≤ (12 - 11) * s.fs.dev.lbNbytes ∨
        (bounceOf s.fs.dev.lbNbytes (u64 (11 * s.fs.dev.lbNbytes)) 500 100).Refused s.fs.dev 100) := by
  obtain ⟨s, -, -, hrun, -, hh, -⟩ := seven_objects
  exact ⟨s, hrun, unaligned_outside_iff hh⟩

/-- **A write that runs over its object.** A hundred bytes at byte 500 of the last object of a slab: the call returns 0,
and the block of the slab's freelist has changed. -/
theorem unaligned_overruns : ∃ s disk', run stepOk (.init smallDev smallGeo 0) sevenObjects = some s ∧
    (⟨0, 6⟩, 0) ∈ s.live ∧ Handle s.fs 0 ⟨0, 6⟩ 11 12 ∧ (12 - 11) * s.fs.dev.lbNbytes < 500 + 100 ∧
    flaObjectUnalignedWrite .strict s.fs 0 ⟨0, 6⟩ (fun _ => 1) 500 100 = .ok (0, disk') ∧
    disk' (12 * s.fs.dev.lbNbytes) ≠ s.fs.disk (12 * s.fs.dev.lbNbytes) ∧ ¬ Rejected s.fs 0 ⟨0, 6⟩ 500 100 := by
  obtain ⟨s, -, disk', hrun, hlive, hh, hdev, -, hout, hzero, hone⟩ := seven_objects
  refine ⟨s, disk', hrun, hlive, hh, by rw [hdev]; decide, hout, ?_, fun hrej => ?_⟩
  · rw [hdev]
    change disk' (12 * 512) ≠ s.fs.disk (12 * 512)
    rw [hzero, hone]
    decide
  · obtain ⟨err, herr, hcall⟩ := hrej .strict (strict_rangesBounded hh.lb_pos) fun _ => 1
    rw [hout] at hcall
    exact herr (Prod.mk.inj (Except.ok.inj hcall)).1.symm

end FlexAlloc
