/-
The addresses of a striped object: in closed form, as a map, and as the callbacks come to them.

`calc_strp_obj_slba` gives the first block of a stripe from its offset in the striped object. The callbacks do not call
it again: they add the blocks of the completed command. `OnTrack` is what keeps the two together, for any number of
callbacks.

- `strp_addresses`: while `(tnbytes / chunk) * object` fits 64 bits, the address is that of the layout; the layout is a
  bijection of the block offsets of the object; every command of a stripe whose commands begin inside the object is
  addressed as its own offset says, in every run of the transfer.

A transfer that ends inside the object has no other commands. Nothing is asked of the first command of a stripe: if it
does not reach the end of its chunk, it is the last.
-/
import FlexAlloc.StripedErrors

namespace FlexAlloc

open FlexAlloc.Core

def blockOffsets (p : StrpParams) : Set ℕ := {x | x < p.strpObjTnbytes ∧ p.devLbaNbytes ∣ x}

/-- where in the striped object a command begins -/
def StrpCmd.offset (p : StrpParams) (c : StrpCmd) : ℕ := p.xferSnbytes + c.sbufNbytes

/-- the command is for the block that `calc_strp_obj_slba` gives for its offset -/
def Addressed (p : StrpParams) (c : StrpCmd) : Prop :=
  c.slba = u64 (calcStrpObjSlba p (c.offset p) + p.strpObjStartNbytes / p.devLbaNbytes)

/-- the loop of `fla_xne_async_strp_seq_xneio` comes to stripe `j` -/
structure Started (p : StrpParams) (j : ℕ) : Prop where
  lt : j < p.strpNobjs
  left : ∀ i ≤ j, sbufAt p i < p.xferNbytes

/-- the addresses of a striped object -/
structure StrpAddresses (p : StrpParams) : Prop where
  closed : ∀ x ∈ blockOffsets p, calcStrpObjSlba p x * p.devLbaNbytes = layout p x
  bijOn : Set.BijOn (fun x => calcStrpObjSlba p x * p.devLbaNbytes) (blockOffsets p) (blockOffsets p)
  steps : p.devLbaNbytes ∣ p.xferSnbytes → p.devLbaNbytes ∣ p.xferNbytes → ∀ j, Started p j →
    ∀ r, (∀ i < r, (chain p j i).nextSbuf p < p.xferNbytes) → (∀ i ≤ r, (chain p j i).offset p < p.strpObjTnbytes) →
      Addressed p (chain p j r)
  runs : ∀ evs m, run (strpStep p) (strpStart p) evs = some m →
    ∀ j, (∀ c ∈ m.issued j, c.offset p < p.strpObjTnbytes) → ∀ c ∈ m.issued j, Addressed p c

section Addresses

variable {p : StrpParams} {x j r : ℕ} {c : StrpCmd}
variable (h : StrpShape p) (hwide : p.strpObjTnbytes / p.strpChunkNbytes * (p.faobjNlbs * p.devLbaNbytes) < 2 ^ 64)

include h in
theorem obj_pos (hx : x < p.strpObjTnbytes) : 0 < p.faobjNlbs * p.devLbaNbytes := by
  rw [h.total] at hx
  exact Nat.pos_of_mul_pos_left (Nat.zero_lt_of_lt hx)

include h hwide

theorem tnbytes_add_row : p.strpObjTnbytes + p.strpChunkNbytes * p.strpNobjs ≤ 2 ^ 64 := by
  have hrow := h.chunk_lt
  obtain ⟨R, hR⟩ := h.chunk_obj
  have hchunks : p.strpObjTnbytes / p.strpChunkNbytes * (p.faobjNlbs * p.devLbaNbytes) = p.strpObjTnbytes * R := by
    rw [h.total, hR]
    calc p.strpNobjs * (p.strpChunkNbytes * R) / p.strpChunkNbytes * (p.strpChunkNbytes * R)
        = p.strpChunkNbytes * (p.strpNobjs * R) / p.strpChunkNbytes * (p.strpChunkNbytes * R) := by
          rw [Nat.mul_left_comm p.strpNobjs]
      _ = p.strpNobjs * R * (p.strpChunkNbytes * R) := by rw [Nat.mul_div_cancel_left _ h.chunk_pos]
      _ = p.strpNobjs * (p.strpChunkNbytes * R) * R := by ring
  rw [hchunks] at hwide
  have htotal : p.strpObjTnbytes = p.strpChunkNbytes * p.strpNobjs * R := by
    rw [h.total, hR]
    ring
  rcases Nat.lt_or_ge 1 R with hmany | hone
  · have hdouble := Nat.mul_le_mul_left p.strpObjTnbytes hmany
    omega
  · -- an object of one chunk: the whole is a row
    have hless := Nat.mul_le_mul_left (p.strpChunkNbytes * p.strpNobjs) hone
    omega

theorem chunkByte_lt (hx : x < p.strpObjTnbytes) : chunkByte p x < 2 ^ 64 := by
  have hobj := obj_pos h hx
  have hbyte : x % p.strpChunkNbytes < p.faobjNlbs * p.devLbaNbytes :=
    (Nat.mod_lt _ h.chunk_pos).trans_le (Nat.le_of_dvd hobj h.chunk_obj)
  have hdvd : p.strpChunkNbytes ∣ p.strpObjTnbytes := h.total ▸ h.chunk_obj.mul_left _
  have hchunk : x / p.strpChunkNbytes < p.strpObjTnbytes / p.strpChunkNbytes := Nat.div_lt_div_of_lt_of_dvd hdvd hx
  calc chunkByte p x < (x / p.strpChunkNbytes + 1) * (p.faobjNlbs * p.devLbaNbytes) := by
        rw [chunkByte, Nat.succ_mul]
        omega
    _ ≤ p.strpObjTnbytes / p.strpChunkNbytes * (p.faobjNlbs * p.devLbaNbytes) := Nat.mul_le_mul_right _ hchunk
    _ < 2 ^ 64 := hwide

theorem calcStrpObjSlba_layout (hx : x < p.strpObjTnbytes) : calcStrpObjSlba p x = layout p x / p.devLbaNbytes := by
  have hrow := tnbytes_add_row h hwide
  have hone : 0 < p.strpChunkNbytes * p.strpNobjs := Nat.mul_pos h.chunk_pos h.nobjs_pos
  exact calcStrpObjSlba_of_lt h (by omega) (obj_pos h hx) (chunkByte_lt h hwide hx)

theorem calcStrpObjSlba_closed (hx : x ∈ blockOffsets p) : calcStrpObjSlba p x * p.devLbaNbytes = layout p x := by
  rw [calcStrpObjSlba_layout h hwide hx.1]
  exact Nat.div_mul_cancel (deal_dvd h.chunk_blocks (Nat.dvd_mul_left _ _) hx.2)

theorem calcStrpObjSlba_bijOn :
    Set.BijOn (fun x => calcStrpObjSlba p x * p.devLbaNbytes) (blockOffsets p) (blockOffsets p) := by
  have hdeal := deal_bijOn h.nobjs_pos h.chunk_pos h.chunk_obj h.chunk_blocks
  rw [← h.total] at hdeal
  exact hdeal.congr fun x hx => (calcStrpObjSlba_closed h hwide hx).symm

/-! ## The commands of a stripe -/

omit h hwide in
/-- what is true of every command of a stripe that begins inside the object -/
structure OnTrack (p : StrpParams) (c : StrpCmd) : Prop where
  blocks : p.devLbaNbytes ∣ c.sbufNbytes
  inside : c.offset p < p.strpObjTnbytes
  addressed : Addressed p c
  nbytes_le : (c.nlbs + 1) * p.devLbaNbytes ≤ p.strpChunkNbytes
  goes : c.nextSbuf p < p.xferNbytes →
    (c.nlbs + 1) * p.devLbaNbytes = p.strpChunkNbytes - c.offset p % p.strpChunkNbytes

theorem nextSbuf_inside (hin : c.offset p < p.strpObjTnbytes)
    (hle : (c.nlbs + 1) * p.devLbaNbytes ≤ p.strpChunkNbytes) :
    c.nextSbuf p = c.sbufNbytes + (c.nlbs + 1) * p.devLbaNbytes + p.strpChunkNbytes * (p.strpNobjs - 1) := by
  have hrow := tnbytes_add_row h hwide
  have hoffset : c.offset p = p.xferSnbytes + c.sbufNbytes := rfl
  have hnobjs : p.strpChunkNbytes * p.strpNobjs = p.strpChunkNbytes * (p.strpNobjs - 1) + p.strpChunkNbytes := by
    rw [← Nat.mul_succ, Nat.succ_eq_add_one, Nat.sub_add_cancel h.nobjs_pos]
  rw [nextSbuf_eq h rfl rfl hle, u64_of_lt (by omega)]

theorem sbufAt_blocks (hs : p.devLbaNbytes ∣ p.xferSnbytes) (hL : p.devLbaNbytes ∣ p.xferNbytes)
    (hpos : 0 < p.xferNbytes) (hin : p.xferSnbytes < p.strpObjTnbytes) (hj : j ≤ p.strpNobjs) :
    p.devLbaNbytes ∣ sbufAt p j ∧ sbufAt p j ≤ p.strpChunkNbytes * j := by
  induction j with
  | zero => exact ⟨dvd_zero _, Nat.zero_le _⟩
  | succ j ih =>
    obtain ⟨hdvd, hle⟩ := ih (by omega)
    have hrow := tnbytes_add_row h hwide
    have hchunk := h.chunk_lt
    have hrest := Nat.mul_le_mul_left p.strpChunkNbytes hj
    rw [Nat.mul_succ] at hrest
    have hbytes := firstCmd_bytes h (hs.add hdvd) hL hpos (by omega)
    have hnext : sbufAt p (j + 1) = sbufAt p j + ((firstCmd p (sbufAt p j)).nlbs + 1) * p.devLbaNbytes := by
      rw [sbufAt, StrpCmd.after, firstCmd_sbufNbytes, u32_of_lt (by omega), u64_of_lt (by omega)]
    rw [hnext, Nat.mul_succ]
    exact ⟨hdvd.add (Nat.dvd_mul_left _ _), by omega⟩

theorem firstCmd_onTrack (hs : p.devLbaNbytes ∣ p.xferSnbytes) (hL : p.devLbaNbytes ∣ p.xferNbytes)
    (hj : Started p j) (hin : (chain p j 0).offset p < p.strpObjTnbytes) : OnTrack p (chain p j 0) := by
  have hoffset : (chain p j 0).offset p = p.xferSnbytes + sbufAt p j := rfl
  have hpos : 0 < p.xferNbytes := Nat.zero_lt_of_lt (hj.left 0 (Nat.zero_le _))
  have hrow := tnbytes_add_row h hwide
  obtain ⟨hdvd, -⟩ := sbufAt_blocks h hwide hs hL hpos (by omega) hj.lt.le
  have hbytes := firstCmd_bytes h (hs.add hdvd) hL hpos (by omega)
  have hle : ((chain p j 0).nlbs + 1) * p.devLbaNbytes ≤ p.strpChunkNbytes := by
    rw [chain, hbytes]
    exact (min_le_right _ _).trans (Nat.sub_le _ _)
  refine ⟨hdvd, hin, ?_, hle, ?_⟩
  · rw [Addressed, chain, firstCmd, Nat.add_comm (sbufAt p j), u64_of_lt (n := p.xferSnbytes + sbufAt p j) (by omega)]
    rfl
  · intro hgoes
    rw [nextSbuf_inside h hwide hin hle] at hgoes
    rw [chain] at hgoes ⊢
    rw [hbytes] at hgoes ⊢
    -- a command for all of the transfer is the last of its stripe
    rcases min_choice p.xferNbytes (p.strpChunkNbytes - (p.xferSnbytes + sbufAt p j) % p.strpChunkNbytes) with hall | hend
    · omega
    · exact hend

/-- **One callback** keeps the address with the offset. -/
theorem OnTrack.next (hL64 : p.xferNbytes < 2 ^ 64) (hL : p.devLbaNbytes ∣ p.xferNbytes) (hc : OnTrack p c)
    (hgoes : c.nextSbuf p < p.xferNbytes) (hin : (c.next p).offset p < p.strpObjTnbytes) : OnTrack p (c.next p) := by
  have hfull := hc.goes hgoes
  have hsbuf := nextSbuf_inside h hwide hc.inside hc.nbytes_le
  have hoffset : (c.next p).offset p =
      c.offset p + (p.strpChunkNbytes - c.offset p % p.strpChunkNbytes) + p.strpChunkNbytes * (p.strpNobjs - 1) := by
    change p.xferSnbytes + c.nextSbuf p = _
    rw [hsbuf, hfull, StrpCmd.offset]
    omega
  have hdvd : p.devLbaNbytes ∣ c.nextSbuf p := by
    rw [hsbuf]
    exact (hc.blocks.add (Nat.dvd_mul_left _ _)).add (h.chunk_blocks.mul_right _)
  have hfront : (c.next p).offset p % p.strpChunkNbytes = 0 := by
    rw [hoffset, next_row h.nobjs_pos _ h.chunk_pos, Nat.mul_mod_left]
  have hbytes : ((c.next p).nlbs + 1) * p.devLbaNbytes = min p.strpChunkNbytes (p.xferNbytes - c.nextSbuf p) := by
    have hle := h.chunk_le
    have hpos := h.chunk_pos
    rw [StrpCmd.next, calcStrpObjNextNbls, sub64_of_le hgoes.le hL64]
    exact nlbs_succ h.lb_pos (min_blocks h.chunk_blocks (Nat.dvd_sub hL hdvd)) (by omega) (by omega)
  have hle : ((c.next p).nlbs + 1) * p.devLbaNbytes ≤ p.strpChunkNbytes := hbytes ▸ min_le_left _ _
  refine ⟨hdvd, hin, ?_, hle, ?_⟩
  · -- the chunk one row on lies behind this one, by as many blocks as the command was for
    have hblocks : calcStrpObjSlba p ((c.next p).offset p) = calcStrpObjSlba p (c.offset p) + (c.nlbs + 1) := by
      rw [calcStrpObjSlba_layout h hwide hin, calcStrpObjSlba_layout h hwide hc.inside, hoffset, layout_eq_deal,
        deal_row h.nobjs_pos h.chunk_pos, ← hfull, Nat.add_mul_div_right _ _ h.lb_pos, layout_eq_deal]
    have hslba : (c.next p).slba = u64 (c.slba + (c.nlbs + 1)) := rfl
    rw [Addressed, hslba, hc.addressed, hblocks, u64_add_u64, Nat.add_right_comm]
  · intro hagain
    rw [nextSbuf_inside h hwide hin hle, hbytes] at hagain
    rw [hbytes, hfront, Nat.sub_zero]
    have hnext : (c.next p).sbufNbytes = c.nextSbuf p := rfl
    rcases min_choice p.strpChunkNbytes (p.xferNbytes - c.nextSbuf p) with hchunk | hlast
    · exact hchunk
    · omega

/-- **Any number of callbacks** keep the address with the offset. -/
theorem chain_onTrack (hL64 : p.xferNbytes < 2 ^ 64) (hs : p.devLbaNbytes ∣ p.xferSnbytes)
    (hL : p.devLbaNbytes ∣ p.xferNbytes) (hj : Started p j) (hgoes : ∀ i < r, (chain p j i).nextSbuf p < p.xferNbytes)
    (hin : ∀ i ≤ r, (chain p j i).offset p < p.strpObjTnbytes) : OnTrack p (chain p j r) := by
  induction r with
  | zero => exact firstCmd_onTrack h hwide hs hL hj (hin 0 le_rfl)
  | succ r ih =>
    have hc := ih (fun i hi => hgoes i (by omega)) (fun i hi => hin i (by omega))
    exact hc.next h hwide hL64 hL (hgoes r (Nat.lt_succ_self r)) (hin (r + 1) le_rfl)

theorem issued_addressed (hL64 : p.xferNbytes < 2 ^ 64) {evs : List StrpEvent} {m : StrpRun}
    (hrun : run (strpStep p) (strpStart p) evs = some m) (hin : ∀ c ∈ m.issued j, c.offset p < p.strpObjTnbytes)
    (hc : c ∈ m.issued j) : Addressed p c := by
  by_cases halign : p.devLbaNbytes ∣ p.xferNbytes ∧ p.devLbaNbytes ∣ p.xferSnbytes
  · have hi := run_strpInv hrun
    have hji : j < m.i := by
      by_contra hge
      rw [(hi.fresh j (Nat.not_lt.1 hge)).1] at hc
      exact absurd hc List.not_mem_nil
    obtain ⟨k, hissued, -⟩ := hi.chains j hji
    have hmem : ∀ i ≤ k, chain p j i ∈ m.issued j := by
      intro i hi
      rw [hissued.cmds]
      exact List.mem_map_of_mem (List.mem_range.2 (Nat.lt_succ_of_le hi))
    have hstarted : Started p j := ⟨hji.trans_le hi.le, fun i hij => hi.started i (hij.trans_lt hji)⟩
    rw [hissued.cmds] at hc
    obtain ⟨r, hr, rfl⟩ := List.mem_map.1 hc
    have hrk : r ≤ k := Nat.lt_succ_iff.1 (List.mem_range.1 hr)
    have htrack := chain_onTrack h hwide hL64 halign.2 halign.1 hstarted (fun i hir => hissued.goes i (by omega))
      (fun i hir => hin _ (hmem i (hir.trans hrk)))
    exact htrack.addressed
  · -- refused before anything is submitted
    rw [(run_unaligned halign hrun).1] at hc
    exact absurd hc List.not_mem_nil

/-- **Striping addresses.** The address is that of the layout, the layout is a bijection, and the callbacks address as
the offsets say. -/
theorem strp_addresses (hL64 : p.xferNbytes < 2 ^ 64) : StrpAddresses p where
  closed _ hx := calcStrpObjSlba_closed h hwide hx
  bijOn := calcStrpObjSlba_bijOn h hwide
  steps hs hL _ hj _ hgoes hin := (chain_onTrack h hwide hL64 hs hL hj hgoes hin).addressed
  runs _ _ hrun _ hin _ hc := issued_addressed h hwide hL64 hrun hin hc

end Addresses

/-- two objects of four blocks, with chunks of two -/
theorem strp_addresses_two : StrpAddresses (twoStripes 4096) ∧ Started (twoStripes 4096) 1 ∧
    (chain (twoStripes 4096) 1 0).nextSbuf (twoStripes 4096) < 4096 ∧
    Addressed (twoStripes 4096) (chain (twoStripes 4096) 1 1) := by
  have hall : StrpAddresses (twoStripes 4096) :=
    strp_addresses (twoStripes_striped le_rfl).shape (by decide) (by decide)
  have hstarted : Started (twoStripes 4096) 1 := ⟨by decide, by decide⟩
  refine ⟨hall, hstarted, by decide, hall.steps (by decide) (by decide) 1 hstarted 1 ?_ ?_⟩
  · decide
  · decide

end FlexAlloc
