/-
Cutting a transfer at the largest size a device takes: the loops of `fla_xne_sync_seq_w` and `fla_xne_sync_seq_r`.

The loop steps by `fla_xne_calc_mdts_naddrs` blocks, the largest transfer in bytes divided by the size of a block, while
`fla_dev_sanity_check` only asks that the largest transfer has more than 512 bytes. On a device with larger blocks than
that the step may be 0.

- `seqLoop_issue`: the loop issues the commands of `cut`, one after another, until one fails.
- `mdts_split`: these commands cover the range, each within the limit and with its part of the buffer; they do what one
  command for the whole range would do, and the first that fails ends the transfer.
- `transfers_end_iff`: the loops end, advancing in every turn, exactly when a block fits in the largest transfer and the
  last advance does not leave 64 bits.
- `transfer_endless`: an accepted device on which a transfer of one block never ends.
-/
import FlexAlloc.Open
import FlexAlloc.Core.Cut

namespace FlexAlloc

open FlexAlloc.Core

/-! ## Commands -/

/-- an `xnvme_nvm_write` or `xnvme_nvm_read`: its first block, the number of its blocks, and its place in the buffer -/
structure NvmCmd where
  slba : ℕ
  naddrs : ℕ
  pos : ℕ
deriving DecidableEq, Repr

def NvmCmd.write (dev : Dev) (buf : Bytes) (c : NvmCmd) (disk : Bytes) : Bytes :=
  copyBytes disk (c.slba * dev.lbNbytes) buf c.pos (c.naddrs * dev.lbNbytes)

def NvmCmd.read (dev : Dev) (disk : Bytes) (c : NvmCmd) (buf : Bytes) : Bytes :=
  copyBytes buf c.pos disk (c.slba * dev.lbNbytes) (c.naddrs * dev.lbNbytes)

/-- the one command for a range, as it is issued under `FLA_XNVME_IGNORE_MDTS` -/
def LbaRange.whole (range : LbaRange) : NvmCmd := ⟨range.slba, range.elba + 1 - range.slba, 0⟩

/-- the commands for the blocks from `slba` to `elba`, with the buffer from `pos` on -/
def seqCmdsFrom (lb mdts elba slba pos : ℕ) : List NvmCmd :=
  (cut mdts slba (elba + 1 - slba)).map fun p => ⟨p.1, p.2, pos + (p.1 - slba) * lb⟩

def seqCmds (dev : Dev) (range : LbaRange) : List NvmCmd :=
  seqCmdsFrom dev.lbNbytes (flaXneCalcMdtsNaddrs dev) range.elba range.slba 0

theorem seqCmdsFrom_nil {lb mdts elba slba : ℕ} (h : elba < slba) (pos : ℕ) : seqCmdsFrom lb mdts elba slba pos = [] := by
  rw [seqCmdsFrom, show elba + 1 - slba = 0 by omega, cut_nil]
  rfl

theorem seqCmdsFrom_cons {lb mdts elba slba : ℕ} (h : slba ≤ elba) (hm : 0 < mdts) (pos : ℕ) :
    seqCmdsFrom lb mdts elba slba pos = ⟨slba, min (elba + 1 - slba) mdts, pos⟩ ::
      seqCmdsFrom lb mdts elba (slba + mdts) (pos + min (elba + 1 - slba) mdts * lb) := by
  have hlater : ∀ p ∈ cut mdts (slba + mdts) (elba + 1 - slba - mdts),
      (⟨p.1, p.2, pos + (p.1 - slba) * lb⟩ : NvmCmd) =
        ⟨p.1, p.2, pos + min (elba + 1 - slba) mdts * lb + (p.1 - (slba + mdts)) * lb⟩ := fun p hp => by
    obtain ⟨h1, -, h3, h4⟩ := mem_cut hp
    rw [min_eq_right (by omega), Nat.add_assoc, ← Nat.add_mul, show mdts + (p.1 - (slba + mdts)) = p.1 - slba by omega]
  rw [seqCmdsFrom, cut_cons (by omega) hm, List.map_cons, Nat.sub_self, Nat.zero_mul, Nat.add_zero,
    List.map_congr_left hlater, Nat.sub_sub, seqCmdsFrom]
  rfl

/-- **The loop issues the commands** one after another, until one fails. -/
theorem seqLoop_issue {ret : ℕ → ℤ} {xfer : ℕ → ℕ → ℕ → Bytes → Bytes} {lb mdts elba : ℕ} (hm : 0 < mdts)
    (hm32 : mdts < 2 ^ 32) (h64 : elba + mdts < 2 ^ 64) (fuel slba pos : ℕ) (hfuel : elba + 1 - slba < fuel) (dst : Bytes) :
    seqLoop ret xfer lb mdts elba fuel slba pos dst = .ok (issue (fun c : NvmCmd => ret c.slba)
      (fun c => xfer c.slba c.pos (c.naddrs * lb)) (seqCmdsFrom lb mdts elba slba pos) dst) := by
  induction fuel generalizing slba pos dst with
  | zero => omega
  | succ fuel ih =>
    unfold seqLoop
    by_cases hle : elba < slba
    · rw [if_pos hle, seqCmdsFrom_nil hle]
      rfl
    · have hcount : min (elba - slba) (sub32 mdts 1) + 1 = min (elba + 1 - slba) mdts := by
        rw [sub32_of_le (by omega) hm32]
        omega
      rw [if_neg hle, seqCmdsFrom_cons (by omega) hm, issue]
      dsimp only
      rw [hcount]
      by_cases hret : ret slba ≠ 0
      · rw [if_pos hret, if_pos hret]
      · rw [if_neg hret, if_neg hret, u64_of_lt (by omega)]
        exact ih _ _ (by omega) _

/-! ## Splitting -/

/-- the commands cover the blocks of the range once each and in ascending order, each command within the limit of the
device, each block with its place in the buffer -/
structure Splits (dev : Dev) (range : LbaRange) (cmds : List NvmCmd) : Prop where
  covers : (cmds.flatMap fun c => List.range' c.slba c.naddrs) = List.range' range.slba (range.elba + 1 - range.slba)
  size : ∀ c ∈ cmds, 1 ≤ c.naddrs ∧ c.naddrs ≤ flaXneCalcMdtsNaddrs dev
  paired : ∀ c ∈ cmds, ∀ j < c.naddrs, c.pos + j * dev.lbNbytes = (c.slba + j - range.slba) * dev.lbNbytes

/-- `result` is that of the commands `cmds` on `dst`, where `ret` is what the command at a block returns and `act` what a
command does: the commands are issued in order; when all succeed, they do what the one command for the range does; the
first that fails is the last, and its error is returned -/
structure Issues (range : LbaRange) (cmds : List NvmCmd) (ret : ℕ → ℤ) (act : NvmCmd → Bytes → Bytes) (dst : Bytes)
    (result : Ret (ℤ × Bytes)) : Prop where
  ordered : result = .ok (issue (fun c => ret c.slba) act cmds dst)
  single : (∀ c ∈ cmds, ret c.slba = 0) → result = .ok (0, act range.whole dst)
  stops : ∀ pre c post, cmds = pre ++ c :: post → (∀ d ∈ pre, ret d.slba = 0) → ret c.slba ≠ 0 →
    result = .ok (ret c.slba, pre.foldl (fun b d => act d b) dst)

section Splitting

variable {dev : Dev} {range : LbaRange}

theorem seqCmds_splits (hm : 1 ≤ flaXneCalcMdtsNaddrs dev) : Splits dev range (seqCmds dev range) := by
  refine ⟨?_, fun c hc => ?_, fun c hc j hj => ?_⟩
  · rw [seqCmds, seqCmdsFrom, List.flatMap_map]
    exact cut_covers hm _ _
  · obtain ⟨p, hp, rfl⟩ := List.mem_map.1 hc
    obtain ⟨h1, h2, -⟩ := mem_cut hp
    exact ⟨h1, h2⟩
  · obtain ⟨p, hp, rfl⟩ := List.mem_map.1 hc
    obtain ⟨-, -, h3, -⟩ := mem_cut hp
    dsimp only
    rw [Nat.zero_add, ← Nat.add_mul, Nat.sub_add_comm h3]

theorem seqCmds_issues {ret : ℕ → ℤ} {act : NvmCmd → Bytes → Bytes} {dst : Bytes} {result : Ret (ℤ × Bytes)}
    (hm : 1 ≤ flaXneCalcMdtsNaddrs dev)
    (hzero : ∀ slba pos b, act ⟨slba, 0, pos⟩ b = b)
    (htwo : ∀ slba pos m n b, act ⟨slba + m, n, pos + m * dev.lbNbytes⟩ (act ⟨slba, m, pos⟩ b) = act ⟨slba, m + n, pos⟩ b)
    (hrun : result = .ok (issue (fun c => ret c.slba) act (seqCmds dev range) dst)) :
    Issues range (seqCmds dev range) ret act dst result := by
  refine ⟨hrun, fun hok => ?_, fun pre c post hcmds hpre hc => ?_⟩
  · -- a part of the range is found by its distance from the start
    have hfold := foldl_cut (fun a n b => act ⟨range.slba + a, n, a * dev.lbNbytes⟩ b)
      (fun a b => hzero _ _ b) (fun a m n b => by
        have := htwo (range.slba + a) (a * dev.lbNbytes) m n b
        rwa [Nat.add_assoc, ← Nat.add_mul] at this) hm 0 (range.elba + 1 - range.slba) dst
    have hparts : (cut (flaXneCalcMdtsNaddrs dev) range.slba (range.elba + 1 - range.slba)) =
        (cut (flaXneCalcMdtsNaddrs dev) 0 (range.elba + 1 - range.slba)).map fun p => (range.slba + p.1, p.2) := by
      have := cut_shift (flaXneCalcMdtsNaddrs dev) range.slba 0 (range.elba + 1 - range.slba)
      rwa [Nat.add_zero] at this
    rw [hrun, issue_ok hok, seqCmds, seqCmdsFrom, hparts, List.map_map, List.foldl_map]
    simp only [Function.comp_apply, Nat.add_sub_cancel_left, Nat.zero_add]
    rw [hfold, Nat.add_zero, Nat.zero_mul]
    rfl
  · rw [hrun, hcmds, issue_stops hpre hc]

/-- **Splitting a transfer** at the limit of the device changes nothing: for writes and for reads. -/
theorem mdts_split (hm : 1 ≤ flaXneCalcMdtsNaddrs dev) (hle : range.slba ≤ range.elba) (h63 : range.elba < 2 ^ 63) :
    Splits dev range (seqCmds dev range) ∧ ∀ env buf disk,
      Issues range (seqCmds dev range) env.nvmWrite (NvmCmd.write dev buf) disk (flaXneSyncSeqW env dev range buf disk) ∧
      Issues range (seqCmds dev range) env.nvmRead (NvmCmd.read dev disk) buf
        (flaXneSyncSeqRXneio env dev range disk buf) := by
  have hlt := mdts_lt dev
  refine ⟨seqCmds_splits hm, fun env buf disk => ⟨?_, ?_⟩⟩
  · refine seqCmds_issues hm (fun slba pos b => ?_) (fun slba pos m n b => ?_) ?_
    · rw [NvmCmd.write, Nat.zero_mul, copyBytes_zero]
    · simp only [NvmCmd.write, Nat.add_mul, copyBytes_append]
    · exact seqLoop_issue hm (by omega) (by omega) _ _ _ (by omega) _
  · refine seqCmds_issues hm (fun slba pos b => ?_) (fun slba pos m n b => ?_) ?_
    · rw [NvmCmd.read, Nat.zero_mul, copyBytes_zero]
    · simp only [NvmCmd.read, Nat.add_mul, copyBytes_append]
    · exact seqLoop_issue hm (by omega) (by omega) _ _ _ (by omega) _

end Splitting

/-- four blocks through a device that takes two at a time -/
theorem mdts_split_two : Splits ⟨2 ^ 15, 512, 1024, .cns⟩ ⟨3, 6, true⟩ (seqCmds ⟨2 ^ 15, 512, 1024, .cns⟩ ⟨3, 6, true⟩) ∧
    ∀ env buf disk,
      Issues ⟨3, 6, true⟩ (seqCmds ⟨2 ^ 15, 512, 1024, .cns⟩ ⟨3, 6, true⟩) env.nvmWrite
        (NvmCmd.write ⟨2 ^ 15, 512, 1024, .cns⟩ buf) disk (flaXneSyncSeqW env ⟨2 ^ 15, 512, 1024, .cns⟩ ⟨3, 6, true⟩ buf disk) ∧
      Issues ⟨3, 6, true⟩ (seqCmds ⟨2 ^ 15, 512, 1024, .cns⟩ ⟨3, 6, true⟩) env.nvmRead
        (NvmCmd.read ⟨2 ^ 15, 512, 1024, .cns⟩ disk) buf
        (flaXneSyncSeqRXneio env ⟨2 ^ 15, 512, 1024, .cns⟩ ⟨3, 6, true⟩ disk buf) :=
  mdts_split (by decide) (by decide) (by decide)

/-! ## Termination -/

section Termination

variable {dev : Dev} {range : LbaRange}

/-- the block at which turn `j` of the loops starts -/
def seqTurn (dev : Dev) (range : LbaRange) (j : ℕ) : ℕ :=
  (fun slba => u64 (slba + flaXneCalcMdtsNaddrs dev))^[j] range.slba

/-- the loops move on in every turn, and end -/
structure TransfersEnd (dev : Dev) (range : LbaRange) : Prop where
  step : 1 ≤ flaXneCalcMdtsNaddrs dev
  advances : ∀ j, (∀ i ≤ j, seqTurn dev range i ≤ range.elba) → seqTurn dev range j < seqTurn dev range (j + 1)
  write : ∀ env buf disk, ∃ r, flaXneSyncSeqW env dev range buf disk = .ok r
  read : ∀ env disk buf, ∃ r, flaXneSyncSeqRXneio env dev range disk buf = .ok r

/-- the first block past the last turn of the loops -/
def seqEnd (dev : Dev) (range : LbaRange) : ℕ :=
  range.slba + ((range.elba - range.slba) / flaXneCalcMdtsNaddrs dev + 1) * flaXneCalcMdtsNaddrs dev

theorem mdts_pos_iff (hlb : 1 ≤ dev.lbNbytes) : 1 ≤ flaXneCalcMdtsNaddrs dev ↔ dev.lbNbytes ≤ dev.mdtsNbytes := by
  rw [← Nat.one_le_div_iff hlb]
  unfold flaXneCalcMdtsNaddrs
  omega

theorem seqTurn_succ (j : ℕ) :
    seqTurn dev range (j + 1) = u64 (seqTurn dev range j + flaXneCalcMdtsNaddrs dev) :=
  Function.iterate_succ_apply' _ _ _

theorem seqTurn_eq {j : ℕ} (h : range.slba + j * flaXneCalcMdtsNaddrs dev < 2 ^ 64) :
    seqTurn dev range j = range.slba + j * flaXneCalcMdtsNaddrs dev := by
  induction j with
  | zero => simp [seqTurn]
  | succ j ih =>
    rw [Nat.add_mul, Nat.one_mul, ← Nat.add_assoc] at h ⊢
    rw [seqTurn_succ, ih (by omega), u64_of_lt h]

theorem lt_seqEnd (hm : 1 ≤ flaXneCalcMdtsNaddrs dev) (hle : range.slba ≤ range.elba) :
    range.slba + (range.elba - range.slba) / flaXneCalcMdtsNaddrs dev * flaXneCalcMdtsNaddrs dev ≤ range.elba ∧
      range.elba < seqEnd dev range := by
  have hdiv := Nat.div_add_mod (range.elba - range.slba) (flaXneCalcMdtsNaddrs dev)
  have hmod := Nat.mod_lt (range.elba - range.slba) hm
  rw [Nat.mul_comm] at hdiv
  rw [seqEnd, Nat.add_mul, Nat.one_mul]
  omega

theorem seqLoop_returns {ret : ℕ → ℤ} {xfer : ℕ → ℕ → ℕ → Bytes → Bytes} {lb mdts elba : ℕ} (hm : 0 < mdts)
    (fuel slba pos : ℕ) (hfuel : elba + 1 - slba < fuel)
    (hend : slba ≤ elba → slba + ((elba - slba) / mdts + 1) * mdts < 2 ^ 64) (dst : Bytes) :
    ∃ r, seqLoop ret xfer lb mdts elba fuel slba pos dst = .ok r := by
  induction fuel generalizing slba pos dst with
  | zero => omega
  | succ fuel ih =>
    unfold seqLoop
    by_cases hle : elba < slba
    · exact ⟨_, if_pos hle⟩
    have hlast := hend (by omega)
    have hone : mdts ≤ ((elba - slba) / mdts + 1) * mdts := Nat.le_mul_of_pos_left _ (Nat.succ_pos _)
    rw [if_neg hle]
    by_cases hret : ret slba ≠ 0
    · exact ⟨_, if_pos hret⟩
    · rw [if_neg hret, u64_of_lt (by omega)]
      refine ih _ _ (by omega) (fun hmore => ?_) _
      -- one turn fewer to the same end
      have hturn : (elba - slba) / mdts = (elba - (slba + mdts)) / mdts + 1 := by
        rw [← Nat.add_div_right _ hm]
        congr 1
        omega
      rw [hturn, Nat.add_mul, Nat.one_mul] at hlast
      omega

/-- with `mdts` 0 a loop whose command succeeds issues it forever -/
theorem seqLoop_forever {ret : ℕ → ℤ} {xfer : ℕ → ℕ → ℕ → Bytes → Bytes} {lb elba slba : ℕ} (hle : slba ≤ elba)
    (h64 : elba < 2 ^ 64) (hok : ret slba = 0) (fuel pos : ℕ) (dst : Bytes) :
    seqLoop ret xfer lb 0 elba fuel slba pos dst = .error .endless := by
  induction fuel generalizing pos dst with
  | zero => rfl
  | succ fuel ih =>
    unfold seqLoop
    rw [if_neg (by omega), if_neg (by simp [hok]), Nat.add_zero, u64_of_lt (by omega)]
    exact ih _ _

/-- **Transfers end**, advancing in every turn, if and only if a block fits in the largest transfer and the last advance
does not leave 64 bits. -/
theorem transfers_end_iff (hlb : 1 ≤ dev.lbNbytes) (hle : range.slba ≤ range.elba) (h64 : range.elba < 2 ^ 64) :
    TransfersEnd dev range ↔ dev.lbNbytes ≤ dev.mdtsNbytes ∧ seqEnd dev range < 2 ^ 64 := by
  have hlt := mdts_lt dev
  constructor
  · intro h
    obtain ⟨hlast, -⟩ := lt_seqEnd h.step hle
    refine ⟨(mdts_pos_iff hlb).1 h.step, ?_⟩
    by_contra hwrap
    -- the last turn would move back
    have hturns : ∀ i ≤ (range.elba - range.slba) / flaXneCalcMdtsNaddrs dev, seqTurn dev range i ≤ range.elba := fun i hi => by
      have : i * flaXneCalcMdtsNaddrs dev ≤ _ := Nat.mul_le_mul_right _ hi
      rw [seqTurn_eq (by omega)]
      omega
    have hadv := h.advances _ hturns
    rw [seqTurn_succ, seqTurn_eq (by omega)] at hadv
    rw [seqEnd, Nat.add_mul, Nat.one_mul] at hwrap
    unfold u64 at hadv
    omega
  · rintro ⟨hfits, hend⟩
    have hm := (mdts_pos_iff hlb).2 hfits
    obtain ⟨hlast, hpast⟩ := lt_seqEnd hm hle
    refine ⟨hm, fun j hj => ?_, fun env buf disk => ?_, fun env disk buf => ?_⟩
    · have hcount : j ≤ (range.elba - range.slba) / flaXneCalcMdtsNaddrs dev := by
        by_contra hmore
        have := hj ((range.elba - range.slba) / flaXneCalcMdtsNaddrs dev + 1) (by omega)
        rw [seqTurn_eq hend] at this
        exact absurd hpast (Nat.not_lt.2 this)
      have hnext : (j + 1) * flaXneCalcMdtsNaddrs dev ≤ _ := Nat.mul_le_mul_right _ (Nat.add_le_add_right hcount 1)
      rw [seqEnd] at hend
      rw [seqTurn_eq (j := j + 1) (by omega)]
      rw [Nat.add_mul, Nat.one_mul] at hnext ⊢
      rw [seqTurn_eq (by omega)]
      omega
    · exact seqLoop_returns hm _ _ _ (by omega) (fun _ => hend) _
    · exact seqLoop_returns hm _ _ _ (by omega) (fun _ => hend) _

/-- blocks of 512 bytes, at most 1024 bytes at a time -/
theorem transfers_end_iff_two : TransfersEnd ⟨2 ^ 15, 512, 1024, .cns⟩ ⟨3, 6, true⟩ :=
  (transfers_end_iff (by decide) (by decide) (by decide)).2 (by decide)

/-- **A transfer that never ends.** Blocks of 4096 bytes and a largest transfer of 1024 bytes pass the check at open; the
write of one block does not return, however long it runs, when its commands succeed. -/
theorem transfer_endless : flaDevSanityCheck ⟨2 ^ 15, 4096, 1024, .cns⟩ ⟨2 ^ 15, 4096, 1024, .cns⟩ = 0 ∧
    ¬ TransfersEnd ⟨2 ^ 15, 4096, 1024, .cns⟩ ⟨0, 0, true⟩ ∧
    ∀ fuel xfer dst, seqLoop Env.reliable.nvmWrite xfer 4096 (flaXneCalcMdtsNaddrs ⟨2 ^ 15, 4096, 1024, .cns⟩) 0 fuel 0 0
      dst = .error .endless := by
  refine ⟨by decide, fun h => absurd h.step (by decide), fun fuel xfer dst => ?_⟩
  rw [show flaXneCalcMdtsNaddrs ⟨2 ^ 15, 4096, 1024, .cns⟩ = 0 by decide]
  have hok : Env.reliable.nvmWrite 0 = 0 := rfl
  exact seqLoop_forever le_rfl (by decide) hok fuel 0 dst

end Termination

end FlexAlloc
