/-
The device below FlexAlloc: `flexalloc_xnvme_env.c` over xNVMe.

A device is a function from byte addresses to bytes. What lies outside the repository is collected in `Env`: whether
allocations succeed, how xNVMe builds a block range, and what each command returns. A read or write command that
returns 0 transfers exactly the blocks it addresses; one that fails transfers nothing.

A transfer is cut into commands of at most `fla_xne_calc_mdts_naddrs` blocks. With a device that reports fewer bytes
than a block as its largest transfer that number is 0 and the loop does not end (`Fault.endless`).

- `seqW_spec`: a sequence of write commands that returns 0 has written the blocks of the range from the buffer, and no
  other.
- `seqW_frame`: whatever a sequence of write commands returns, bytes outside the range are as before.
- `seqR_spec`: a sequence of read commands that returns 0 has filled the buffer with the blocks of the range.
-/
import FlexAlloc.Geometry
import FlexAlloc.Core.Bytes

namespace FlexAlloc

open FlexAlloc.Core

/-- `struct xnvme_lba_range` -/
structure LbaRange where
  slba : ℕ
  elba : ℕ
  isValid : Bool
deriving DecidableEq, Repr

/-- what the code calls and cannot decide -/
structure Env where
  /-- `malloc` and `calloc` return memory, but for the handle of a new pool -/
  malloc : Bool
  /-- `fla_base_pool_create` gets memory for the handle of a new pool -/
  mallocNew : Bool
  /-- what lies behind the terminator of a pool's name in the buffer of the caller -/
  pastName : List (BitVec 8)
  /-- `xnvme_buf_alloc` returns a buffer -/
  bufAlloc : Bool
  /-- the contents of a fresh buffer -/
  junk : Bytes
  /-- `xnvme_lba_range_from_offset_nbytes` -/
  rangeFromOffsetNbytes : Dev → ℕ → ℕ → LbaRange
  /-- `xnvme_lba_range_from_slba_naddrs` -/
  rangeFromSlbaNaddrs : Dev → ℕ → ℕ → LbaRange
  /-- `xnvme_nvm_read` and its completion status, for the command that starts at a block -/
  nvmRead : ℕ → ℤ
  /-- `xnvme_nvm_write` and its completion status -/
  nvmWrite : ℕ → ℤ
  /-- `xnvme_znd_mgmt_send` and its completion status -/
  zndMgmtSend : ℕ → ℤ
  /-- the data placement's `prep_dp_ctx` -/
  prepCtx : ℤ

/-- what FlexAlloc relies on in xNVMe: a range built from an aligned part of the device is valid and covers exactly
those blocks -/
structure Env.RangesOk (env : Env) (dev : Dev) : Prop where
  offset : ∀ off nbytes, dev.lbNbytes ∣ off → dev.lbNbytes ∣ nbytes → 0 < nbytes → off + nbytes ≤ dev.tbytes →
    env.rangeFromOffsetNbytes dev off nbytes = ⟨off / dev.lbNbytes, (off + nbytes) / dev.lbNbytes - 1, true⟩
  slba : ∀ slba naddrs, 0 < naddrs → (slba + naddrs) * dev.lbNbytes ≤ dev.tbytes →
    env.rangeFromSlbaNaddrs dev slba naddrs = ⟨slba, slba + naddrs - 1, true⟩

/-- a range that xNVMe says is valid covers the blocks asked for; it may also refuse -/
def Env.RangesExact (env : Env) (dev : Dev) : Prop :=
  ∀ slba naddrs, 0 < naddrs → (env.rangeFromSlbaNaddrs dev slba naddrs).isValid →
    env.rangeFromSlbaNaddrs dev slba naddrs = ⟨slba, slba + naddrs - 1, true⟩

/-- the same for ranges built from an offset and a length of whole blocks -/
def Env.OffsetsExact (env : Env) (dev : Dev) : Prop :=
  ∀ off nbytes, dev.lbNbytes ∣ off → dev.lbNbytes ∣ nbytes → 0 < nbytes →
    (env.rangeFromOffsetNbytes dev off nbytes).isValid →
      env.rangeFromOffsetNbytes dev off nbytes = ⟨off / dev.lbNbytes, (off + nbytes) / dev.lbNbytes - 1, true⟩

/-- nothing fails, and ranges are built as they should be -/
def Env.reliable : Env where
  malloc := true
  mallocNew := true
  pastName := []
  bufAlloc := true
  junk := fun _ => 0
  rangeFromOffsetNbytes := fun dev off nbytes => ⟨off / dev.lbNbytes, (off + nbytes) / dev.lbNbytes - 1, true⟩
  rangeFromSlbaNaddrs := fun _ slba naddrs => ⟨slba, slba + naddrs - 1, true⟩
  nvmRead := fun _ => 0
  nvmWrite := fun _ => 0
  zndMgmtSend := fun _ => 0
  prepCtx := 0

theorem reliable_rangesOk (dev : Dev) : Env.reliable.RangesOk dev :=
  ⟨fun _ _ _ _ _ _ => rfl, fun _ _ _ _ => rfl⟩

theorem reliable_rangesExact (dev : Dev) : Env.reliable.RangesExact dev := fun _ _ _ _ => rfl

theorem reliable_offsetsExact (dev : Dev) : Env.reliable.OffsetsExact dev := fun _ _ _ _ _ _ => rfl

def flaXneCalcMdtsNaddrs (dev : Dev) : ℕ := min (dev.mdtsNbytes / dev.lbNbytes) (2 ^ 16 - 1)

/-- the loop of `fla_xne_sync_seq_w` and of `fla_xne_sync_seq_r`: one command for each `mdts` blocks, with `ret` its
return value and `xfer slba pos n` what it does to the bytes written to when it moves `n` bytes between block `slba`
and position `pos` of the buffer. Each turn but the last moves `slba` on by `mdts` blocks. -/
def seqLoop (ret : ℕ → ℤ) (xfer : ℕ → ℕ → ℕ → Bytes → Bytes) (lb mdts elba : ℕ) :
    ℕ → ℕ → ℕ → Bytes → Ret (ℤ × Bytes)
  | 0, _, _, _ => .error .endless
  | fuel + 1, slba, pos, dst =>
    if elba < slba then .ok (0, dst)
    else
      let nlb := min (elba - slba) (sub32 mdts 1)
      if ret slba ≠ 0 then .ok (ret slba, dst)
      else seqLoop ret xfer lb mdts elba fuel (u64 (slba + mdts)) (pos + (nlb + 1) * lb)
        (xfer slba pos ((nlb + 1) * lb) dst)

/-- `fla_xne_sync_seq_w`: the return value and the device -/
def flaXneSyncSeqW (env : Env) (dev : Dev) (range : LbaRange) (buf disk : Bytes) : Ret (ℤ × Bytes) :=
  seqLoop env.nvmWrite (fun slba pos n disk => copyBytes disk (slba * dev.lbNbytes) buf pos n) dev.lbNbytes
    (flaXneCalcMdtsNaddrs dev) range.elba (range.elba + 2 - range.slba) range.slba 0 disk

/-- `fla_xne_sync_seq_w_xneio`; `prep` says whether `prep_ctx` is set -/
def flaXneSyncSeqWXneio (env : Env) (dev : Dev) (prep : Bool) (range : LbaRange) (buf disk : Bytes) :
    Ret (ℤ × Bytes) :=
  if prep ∧ env.prepCtx ≠ 0 then .ok (env.prepCtx, disk) else flaXneSyncSeqW env dev range buf disk

/-- `fla_xne_sync_seq_r_xneio`: the return value and the buffer -/
def flaXneSyncSeqRXneio (env : Env) (dev : Dev) (range : LbaRange) (disk buf : Bytes) : Ret (ℤ × Bytes) :=
  seqLoop env.nvmRead (fun slba pos n buf => copyBytes buf pos disk (slba * dev.lbNbytes) n) dev.lbNbytes
    (flaXneCalcMdtsNaddrs dev) range.elba (range.elba + 2 - range.slba) range.slba 0 buf

/-! ## What a transfer does -/

section Transfer

variable {ret : ℕ → ℤ} {xfer : ℕ → ℕ → ℕ → Bytes → Bytes} {lb mdts elba : ℕ}

theorem transfer_split {slba : ℕ} (hle : slba ≤ elba) (hm : 0 < mdts) (hm32 : mdts < 2 ^ 32) :
    min (elba - slba) (sub32 mdts 1) + 1 + (elba + 1 - (slba + mdts)) = elba + 1 - slba ∧
      (elba + 1 ≤ slba + mdts ∨ min (elba - slba) (sub32 mdts 1) + 1 = mdts) := by
  rw [sub32_of_le (by omega) hm32]
  omega

/-- **Transfers.** When a transfer may be cut at a block boundary, the loop that returns 0 has done the whole of it. -/
theorem seqLoop_spec {dst dst' : Bytes} (hm : 0 < mdts) (hm32 : mdts < 2 ^ 32) (h64 : elba + mdts < 2 ^ 64)
    (hzero : ∀ slba pos b, xfer slba pos 0 b = b)
    (hcut : ∀ slba pos k n b, xfer (slba + k) (pos + k * lb) n (xfer slba pos (k * lb) b) = xfer slba pos (k * lb + n) b)
    (fuel slba pos : ℕ) (h : seqLoop ret xfer lb mdts elba fuel slba pos dst = .ok (0, dst')) :
    dst' = xfer slba pos ((elba + 1 - slba) * lb) dst := by
  induction fuel generalizing slba pos dst with
  | zero => cases h
  | succ fuel ih =>
    unfold seqLoop at h
    by_cases hle : elba < slba
    · rw [if_pos hle] at h
      cases h
      rw [show elba + 1 - slba = 0 by omega, Nat.zero_mul, hzero]
    · rw [if_neg hle] at h
      by_cases hret : ret slba ≠ 0
      · rw [if_pos hret] at h
        simp only [Except.ok.injEq, Prod.mk.injEq] at h
        exact absurd h.1 hret
      · rw [if_neg hret] at h
        obtain ⟨hsum, hcase⟩ := transfer_split (Nat.not_lt.1 hle) hm hm32
        have hrest := ih _ _ h
        rw [u64_of_lt (by omega)] at hrest
        generalize min (elba - slba) (sub32 mdts 1) + 1 = cnt at hsum hcase hrest
        rw [hrest, ← hsum, Nat.add_mul]
        rcases hcase with hlast | hfull
        · rw [show elba + 1 - (slba + mdts) = 0 by omega, Nat.zero_mul, hzero, Nat.add_zero]
        · rw [hfull, hcut]

/-- **Transfers stay in their range.** Where each command leaves a byte outside the blocks it moves as it was, the whole
loop leaves a byte outside the range as it was, whatever it returns. -/
theorem seqLoop_frame {dst dst' : Bytes} {err : ℤ} {i : ℕ} (first : ℕ) (h64 : elba + mdts < 2 ^ 64)
    (hxfer : ∀ slba pos k b, first ≤ slba → slba + k ≤ elba + 1 → xfer slba pos (k * lb) b i = b i)
    (fuel slba pos : ℕ) (hfirst : first ≤ slba) (h : seqLoop ret xfer lb mdts elba fuel slba pos dst = .ok (err, dst')) :
    dst' i = dst i := by
  induction fuel generalizing slba pos dst with
  | zero => cases h
  | succ fuel ih =>
    unfold seqLoop at h
    by_cases hle : elba < slba
    · rw [if_pos hle] at h
      cases h
      rfl
    · rw [if_neg hle] at h
      by_cases hret : ret slba ≠ 0
      · rw [if_pos hret] at h
        cases h
        rfl
      · rw [if_neg hret, u64_of_lt (by omega)] at h
        rw [ih _ _ (by omega) h]
        exact hxfer _ _ _ _ hfirst (by omega)

theorem seqLoop_congr {xfer' : ℕ → ℕ → ℕ → Bytes → Bytes} (first : ℕ) (h64 : elba + mdts < 2 ^ 64)
    (hxfer : ∀ slba pos k b, first ≤ slba → slba + k ≤ elba + 1 → xfer slba pos (k * lb) b = xfer' slba pos (k * lb) b)
    (fuel slba pos : ℕ) (hfirst : first ≤ slba) (dst : Bytes) :
    seqLoop ret xfer lb mdts elba fuel slba pos dst = seqLoop ret xfer' lb mdts elba fuel slba pos dst := by
  induction fuel generalizing slba pos dst with
  | zero => rfl
  | succ fuel ih =>
    unfold seqLoop
    by_cases hle : elba < slba
    · rw [if_pos hle, if_pos hle]
    · have hsame := hxfer slba pos (min (elba - slba) (sub32 mdts 1) + 1) dst hfirst (by omega)
      dsimp only
      rw [if_neg hle, if_neg hle, u64_of_lt (by omega), hsame, ih _ _ (by omega)]

/-- **Transfers end.** When every command succeeds the loop returns 0. -/
theorem seqLoop_ok (hm : 0 < mdts) (h64 : elba + mdts < 2 ^ 64) (hok : ∀ b, ret b = 0) (fuel slba pos : ℕ)
    (hfuel : elba + 1 ≤ fuel + slba) (dst : Bytes) :
    ∃ dst', seqLoop ret xfer lb mdts elba (fuel + 1) slba pos dst = .ok (0, dst') := by
  induction fuel generalizing slba pos dst with
  | zero => exact ⟨dst, by unfold seqLoop; rw [if_pos (by omega)]⟩
  | succ fuel ih =>
    unfold seqLoop
    by_cases hle : elba < slba
    · exact ⟨dst, by rw [if_pos hle]⟩
    · rw [if_neg hle, if_neg (by simp [hok])]
      exact ih _ _ (by rw [u64_of_lt (by omega)]; omega) _

/-- with `mdts` 0 a loop that has a block to move does not return 0 -/
theorem seqLoop_endless {dst dst' : Bytes} (h64 : elba < 2 ^ 64) (fuel slba pos : ℕ) (hle : slba ≤ elba) :
    seqLoop ret xfer lb 0 elba fuel slba pos dst ≠ .ok (0, dst') := by
  induction fuel generalizing pos dst with
  | zero => intro h; cases h
  | succ fuel ih =>
    intro h
    unfold seqLoop at h
    rw [if_neg (Nat.not_lt.2 hle)] at h
    by_cases hret : ret slba ≠ 0
    · rw [if_pos hret] at h
      simp only [Except.ok.injEq, Prod.mk.injEq] at h
      exact hret h.1
    · rw [if_neg hret, Nat.add_zero, u64_of_lt (by omega)] at h
      exact ih _ h

end Transfer

section Sync

variable {env : Env} {dev : Dev} {range : LbaRange}

theorem mdts_lt (dev : Dev) : flaXneCalcMdtsNaddrs dev < 2 ^ 16 := by
  unfold flaXneCalcMdtsNaddrs; omega

theorem seqW_mdts {prep : Bool} {buf disk disk' : Bytes} (hle : range.slba ≤ range.elba) (h63 : range.elba < 2 ^ 63)
    (h : flaXneSyncSeqWXneio env dev prep range buf disk = .ok (0, disk')) : 0 < flaXneCalcMdtsNaddrs dev := by
  refine Nat.pos_of_ne_zero fun h0 => ?_
  unfold flaXneSyncSeqWXneio at h
  by_cases hp : prep ∧ env.prepCtx ≠ 0
  · rw [if_pos hp] at h
    simp only [Except.ok.injEq, Prod.mk.injEq] at h
    exact hp.2 h.1
  · rw [if_neg hp, flaXneSyncSeqW, h0] at h
    exact seqLoop_endless (by omega) _ _ _ hle h

theorem seqR_mdts {buf disk buf' : Bytes} (hle : range.slba ≤ range.elba) (h63 : range.elba < 2 ^ 63)
    (h : flaXneSyncSeqRXneio env dev range disk buf = .ok (0, buf')) : 0 < flaXneCalcMdtsNaddrs dev := by
  refine Nat.pos_of_ne_zero fun h0 => ?_
  rw [flaXneSyncSeqRXneio, h0] at h
  exact seqLoop_endless (by omega) _ _ _ hle h

/-- **Writes.** A write that returns 0 has written the blocks of the range from the start of the buffer, and no other. -/
theorem seqW_spec {prep : Bool} {buf disk disk' : Bytes} (hm : 0 < flaXneCalcMdtsNaddrs dev)
    (h63 : range.elba < 2 ^ 63) (h : flaXneSyncSeqWXneio env dev prep range buf disk = .ok (0, disk')) :
    disk' = copyBytes disk (range.slba * dev.lbNbytes) buf 0 ((range.elba + 1 - range.slba) * dev.lbNbytes) := by
  have hlt := mdts_lt dev
  unfold flaXneSyncSeqWXneio at h
  by_cases hp : prep ∧ env.prepCtx ≠ 0
  · rw [if_pos hp] at h
    simp only [Except.ok.injEq, Prod.mk.injEq] at h
    exact absurd h.1 hp.2
  · rw [if_neg hp] at h
    refine seqLoop_spec hm (by omega) (by omega) (fun _ _ _ => copyBytes_zero _ _ _ _) (fun slba pos k n b => ?_) _ _ _ h
    rw [Nat.add_mul, copyBytes_append]

/-- bytes outside the range are as before, also when the write fails part of the way -/
theorem seqW_frame {prep : Bool} {buf disk disk' : Bytes} {err : ℤ} {i : ℕ} (h63 : range.elba < 2 ^ 63)
    (h : flaXneSyncSeqWXneio env dev prep range buf disk = .ok (err, disk'))
    (hi : i < range.slba * dev.lbNbytes ∨ (range.elba + 1) * dev.lbNbytes ≤ i) : disk' i = disk i := by
  have hlt := mdts_lt dev
  unfold flaXneSyncSeqWXneio at h
  by_cases hp : prep ∧ env.prepCtx ≠ 0
  · rw [if_pos hp] at h
    cases h
    rfl
  · rw [if_neg hp] at h
    refine seqLoop_frame range.slba (by omega) (fun slba pos k b hfirst hend => ?_) _ _ _ le_rfl h
    refine copyBytes_of_not_mem ?_
    have h1 : range.slba * dev.lbNbytes ≤ slba * dev.lbNbytes := Nat.mul_le_mul_right _ hfirst
    have h2 : (slba + k) * dev.lbNbytes ≤ (range.elba + 1) * dev.lbNbytes := Nat.mul_le_mul_right _ hend
    rw [Nat.add_mul] at h2
    omega

/-- **Reads.** A read that returns 0 has filled the start of the buffer with the blocks of the range. -/
theorem seqR_spec {buf disk buf' : Bytes} (hm : 0 < flaXneCalcMdtsNaddrs dev) (h63 : range.elba < 2 ^ 63)
    (h : flaXneSyncSeqRXneio env dev range disk buf = .ok (0, buf')) :
    buf' = copyBytes buf 0 disk (range.slba * dev.lbNbytes) ((range.elba + 1 - range.slba) * dev.lbNbytes) := by
  have hlt := mdts_lt dev
  refine seqLoop_spec hm (by omega) (by omega) (fun _ _ _ => copyBytes_zero _ _ _ _) (fun slba pos k n b => ?_) _ _ _ h
  rw [Nat.add_mul, copyBytes_append]

theorem seqR_congr {disk disk' : Bytes} (h63 : range.elba < 2 ^ 63)
    (h : ∀ i, range.slba * dev.lbNbytes ≤ i → i < (range.elba + 1) * dev.lbNbytes → disk i = disk' i) (buf : Bytes) :
    flaXneSyncSeqRXneio env dev range disk buf = flaXneSyncSeqRXneio env dev range disk' buf := by
  have hlt := mdts_lt dev
  refine seqLoop_congr range.slba (by omega) (fun slba pos k b hfirst hend => ?_) _ _ _ le_rfl _
  have h1 : range.slba * dev.lbNbytes ≤ slba * dev.lbNbytes := Nat.mul_le_mul_right _ hfirst
  have h2 : (slba + k) * dev.lbNbytes ≤ (range.elba + 1) * dev.lbNbytes := Nat.mul_le_mul_right _ hend
  rw [Nat.add_mul] at h2
  funext i
  by_cases hi : pos ≤ i ∧ i < pos + k * dev.lbNbytes
  · rw [copyBytes_of_mem hi.1 hi.2, copyBytes_of_mem hi.1 hi.2]
    exact h _ (by omega) (by omega)
  · rw [copyBytes_of_not_mem (by omega), copyBytes_of_not_mem (by omega)]

theorem seqR_ok (hm : 0 < flaXneCalcMdtsNaddrs dev) (h63 : range.elba < 2 ^ 63) (hle : range.slba ≤ range.elba)
    (hok : ∀ b, env.nvmRead b = 0) (disk buf : Bytes) :
    ∃ buf', flaXneSyncSeqRXneio env dev range disk buf = .ok (0, buf') := by
  have hlt := mdts_lt dev
  unfold flaXneSyncSeqRXneio
  rw [show range.elba + 2 - range.slba = (range.elba + 1 - range.slba) + 1 by omega]
  exact seqLoop_ok hm (by omega) hok _ _ _ (by omega) _

theorem seqW_ok {prep : Bool} (hm : 0 < flaXneCalcMdtsNaddrs dev) (h63 : range.elba < 2 ^ 63)
    (hle : range.slba ≤ range.elba) (hprep : env.prepCtx = 0) (hok : ∀ b, env.nvmWrite b = 0) (buf disk : Bytes) :
    ∃ disk', flaXneSyncSeqWXneio env dev prep range buf disk = .ok (0, disk') := by
  have hlt := mdts_lt dev
  unfold flaXneSyncSeqWXneio flaXneSyncSeqW
  rw [if_neg (by simp [hprep]), show range.elba + 2 - range.slba = (range.elba + 1 - range.slba) + 1 by omega]
  exact seqLoop_ok hm (by omega) hok _ _ _ (by omega) _

end Sync

end FlexAlloc
