/-
Torn writes: what a write to an object leaves on the device, whatever it returns.

A write is split into commands, and the first that fails ends it. The commands before it have been carried out, so the
device may hold the first part of what was to be written. An unaligned write also writes back the bytes around the
request that share its blocks; those it has read before.

- `seqW_torn`: each byte is as before or the one to be written.
- `Served.write_torn`, `Handle.unalignedWrite_torn`: aligned and unaligned writes tear nothing but what was asked for.
-/
import FlexAlloc.UnalignedWrite

namespace FlexAlloc

open FlexAlloc.Core

/-! ## Commands -/

section Commands

variable {env : Env} {dev : Dev} {range : LbaRange} {buf disk disk' : Bytes} {err : ℤ} {ret : ℕ → ℤ} {lb mdts elba : ℕ}

/-- with `mdts` 0 a loop returns only when its first command fails -/
theorem seqLoop_stuck {xfer : ℕ → ℕ → ℕ → Bytes → Bytes} (h64 : elba < 2 ^ 64) (fuel slba pos : ℕ) (hle : slba ≤ elba)
    (h : seqLoop ret xfer lb 0 elba fuel slba pos disk = .ok (err, disk')) : ret slba ≠ 0 ∧ disk' = disk := by
  induction fuel generalizing pos disk with
  | zero => cases h
  | succ fuel ih =>
    unfold seqLoop at h
    rw [if_neg (Nat.not_lt.2 hle)] at h
    by_cases hret : ret slba ≠ 0
    · rw [if_pos hret] at h
      cases h
      exact ⟨hret, rfl⟩
    · rw [if_neg hret, Nat.add_zero, u64_of_lt (by omega)] at h
      exact absurd (ih _ h).1 hret

/-- **The loop of a write**: a byte is as before, or it is the byte of the buffer. -/
theorem seqLoop_torn (hm : 0 < mdts) (hm32 : mdts < 2 ^ 32) (h64 : elba + mdts < 2 ^ 64) (fuel slba pos : ℕ)
    (h : seqLoop ret (fun slba pos n disk => copyBytes disk (slba * lb) buf pos n) lb mdts elba fuel slba pos disk =
      .ok (err, disk')) (i : ℕ) : disk' i = disk i ∨ slba * lb ≤ i ∧ disk' i = buf (pos + (i - slba * lb)) := by
  induction fuel generalizing slba pos disk with
  | zero => cases h
  | succ fuel ih =>
    unfold seqLoop at h
    by_cases hle : elba < slba
    · rw [if_pos hle] at h
      cases h
      exact .inl rfl
    rw [if_neg hle] at h
    by_cases hret : ret slba ≠ 0
    · rw [if_pos hret] at h
      cases h
      exact .inl rfl
    rw [if_neg hret, u64_of_lt (by omega)] at h
    obtain ⟨-, hcase⟩ := transfer_split (Nat.not_lt.1 hle) hm hm32
    generalize min (elba - slba) (sub32 mdts 1) + 1 = cnt at h hcase
    -- the bytes of the first command
    have hfirst : copyBytes disk (slba * lb) buf pos (cnt * lb) i = disk i ∨
        slba * lb ≤ i ∧ copyBytes disk (slba * lb) buf pos (cnt * lb) i = buf (pos + (i - slba * lb)) := by
      by_cases hi : slba * lb ≤ i ∧ i < slba * lb + cnt * lb
      · exact .inr ⟨hi.1, copyBytes_of_mem hi.1 hi.2⟩
      · exact .inl (copyBytes_of_not_mem (by omega))
    rcases ih _ _ h with heq | ⟨hlo, heq⟩
    · rw [heq]
      exact hfirst
    rcases hcase with hlast | hfull
    · -- there is no second one
      cases fuel with
      | zero => cases h
      | succ fuel =>
        unfold seqLoop at h
        rw [if_pos (by omega)] at h
        cases h
        exact hfirst
    · rw [Nat.add_mul] at hlo heq
      refine .inr ⟨by omega, ?_⟩
      rw [heq, hfull]
      congr 1
      omega

/-- **A write of a range**: a byte is as before, or it is the byte of the buffer. -/
theorem seqW_torn {prep : Bool} (hle : range.slba ≤ range.elba) (h63 : range.elba < 2 ^ 63)
    (h : flaXneSyncSeqWXneio env dev prep range buf disk = .ok (err, disk')) (i : ℕ) :
    disk' i = disk i ∨ range.slba * dev.lbNbytes ≤ i ∧ disk' i = buf (i - range.slba * dev.lbNbytes) := by
  have hlt := mdts_lt dev
  unfold flaXneSyncSeqWXneio at h
  by_cases hp : prep ∧ env.prepCtx ≠ 0
  · rw [if_pos hp] at h
    cases h
    exact .inl rfl
  rw [if_neg hp, flaXneSyncSeqW] at h
  rcases Nat.eq_zero_or_pos (flaXneCalcMdtsNaddrs dev) with h0 | hm
  · rw [h0] at h
    rw [(seqLoop_stuck (by omega) _ _ _ hle h).2]
    exact .inl rfl
  · have htorn := seqLoop_torn hm (by omega) (by omega) _ _ _ h i
    rw [Nat.zero_add] at htorn
    exact htorn

/-- a device that cannot move a block is not written to -/
theorem seqW_stuck {prep : Bool} (hle : range.slba ≤ range.elba) (h63 : range.elba < 2 ^ 63)
    (h0 : flaXneCalcMdtsNaddrs dev = 0) (h : flaXneSyncSeqWXneio env dev prep range buf disk = .ok (err, disk')) :
    disk' = disk := by
  unfold flaXneSyncSeqWXneio at h
  by_cases hp : prep ∧ env.prepCtx ≠ 0
  · rw [if_pos hp] at h
    cases h
    rfl
  · rw [if_neg hp, flaXneSyncSeqW, h0] at h
    exact (seqLoop_stuck (by omega) _ _ _ hle h).2

end Commands

/-! ## Writes to objects -/

/-- a write of `len` bytes of `buf` at byte `start` has returned `err` and left `disk'` -/
structure TornWrite (disk : Bytes) (start : ℕ) (buf : Bytes) (len : ℕ) (err : ℤ) (disk' : Bytes) : Prop where
  torn : ∀ i < len, disk' (start + i) = disk (start + i) ∨ disk' (start + i) = buf i
  done : err = 0 → ∀ i < len, disk' (start + i) = buf i
  outside : ∀ i, i < start ∨ start + len ≤ i → disk' i = disk i

theorem TornWrite.unchanged {disk buf : Bytes} {start len : ℕ} {err : ℤ} (herr : err ≠ 0) :
    TornWrite disk start buf len err disk := ⟨fun _ _ => .inl rfl, fun h => absurd h herr, fun _ _ => rfl⟩

section Objects

variable {env : Env} {fs : Flexalloc} {buf disk' : Bytes} {err : ℤ} {offset len : ℕ} {obj : Obj}

/-- **Aligned writes**, whatever they return. -/
theorem Served.write_torn {geo : Geo} {poolOf : ℕ → ℕ} {async : StrpXfer} (h : Served geo fs poolOf)
    (hr : env.RangesOk fs.dev) (hv : ValidObj geo fs poolOf obj)
    (ha : Aligned geo (fs.objNlbOf poolOf obj.slabId) offset len)
    (hw : flaObjectWrite env async fs (poolOf obj.slabId) obj buf offset len = .ok (err, disk')) :
    TornWrite fs.disk (objStart geo fs poolOf obj + offset) buf len err disk' := by
  obtain ⟨hx, hend⟩ := h.xfer hv ha true
  obtain ⟨range, hrange, hvalid, hle, h63, hstart, hstop, hlen⟩ := h.range hr (h.start_dvd ha) ha.len_dvd ha.pos hend
  rw [flaObjectWrite, hx, ok_bind] at hw
  dsimp only at hw
  rw [hrange, if_neg (by simp [hvalid])] at hw
  refine ⟨fun i _ => ?_, fun herr i hi => ?_, fun i hi => ?_⟩
  · rcases seqW_torn hle h63 hw (objStart geo fs poolOf obj + offset + i) with heq | ⟨-, heq⟩
    · exact .inl heq
    · rw [hstart, Nat.add_sub_cancel_left] at heq
      exact .inr heq
  · subst herr
    rw [seqW_spec (seqW_mdts hle h63 hw) h63 hw, hstart, hlen, copyBytes_of_mem (by omega) (by omega), Nat.zero_add,
      Nat.add_sub_cancel_left]
  · refine seqW_frame h63 hw ?_
    rw [hstart, hstop]
    exact hi

theorem Bounce.InDevice.blocks {dev : Dev} {b : Bounce} (hb : b.InDevice dev) (hr : env.RangesOk dev)
    (hlb : 0 < dev.lbNbytes) (hblocks : dev.tbytes / dev.lbNbytes < 2 ^ 63) :
    ∃ range, env.rangeFromOffsetNbytes dev b.alignedSb b.size = range ∧ range.slba ≤ range.elba ∧ range.elba < 2 ^ 63 ∧
      range.slba * dev.lbNbytes = b.alignedSb ∧ (range.elba + 1) * dev.lbNbytes = b.alignedEb ∧
      (range.elba + 1 - range.slba) * dev.lbNbytes = b.size := by
  have hblock := hb.block_le
  have hsize := hb.size
  have hinside := hb.inside
  have hrange := hr.offset b.alignedSb b.size hb.sb_dvd (hsize ▸ Nat.dvd_sub hb.eb_dvd hb.sb_dvd) (by omega) (by omega)
  rw [hsize, Nat.add_sub_cancel' (by omega), ← hsize] at hrange
  obtain ⟨k, hk⟩ := hb.sb_dvd
  obtain ⟨m, hm⟩ := hb.eb_dvd
  rw [hk, hm, Nat.mul_div_cancel_left _ hlb, Nat.mul_div_cancel_left _ hlb, ← hk] at hrange
  have hkm : k < m := by
    by_contra hcon
    have hle := Nat.mul_le_mul_left dev.lbNbytes (Nat.not_lt.1 hcon)
    omega
  have hm63 : m ≤ dev.tbytes / dev.lbNbytes := by
    rw [Nat.le_div_iff_mul_le hlb, Nat.mul_comm, ← hm]
    exact hinside
  refine ⟨_, hrange, by dsimp only; omega, by dsimp only; omega, ?_, ?_, ?_⟩
  · rw [hk]
    exact Nat.mul_comm _ _
  · rw [hm, Nat.sub_add_cancel (by omega)]
    exact Nat.mul_comm _ _
  · dsimp only
    rw [Nat.sub_add_cancel (by omega), Nat.sub_mul, Nat.mul_comm m, Nat.mul_comm k, ← hk, ← hm, hsize]

/-- what an unaligned write can do: fail before it writes, or write back what it has read with the request in it -/
theorem unalignedWrite_cases {ndx slba : ℕ} (hslba : fs.objectSlba ndx obj = .ok slba) {b : Bounce}
    (hb : bounceOf fs.dev.lbNbytes (u64 (slba * fs.dev.lbNbytes)) offset len = b)
    (h : flaObjectUnalignedWrite env fs ndx obj buf offset len = .ok (err, disk')) :
    err ≠ 0 ∧ disk' = fs.disk ∨ ∃ ends, readEnds env fs.dev fs.disk b = .ok (0, ends) ∧
      flaXneSyncSeqWXneio env fs.dev true (env.rangeFromOffsetNbytes fs.dev b.alignedSb b.size)
        (copyBytes ends (b.origSb - b.alignedSb) buf 0 len) fs.disk = .ok (err, disk') := by
  rw [flaObjectUnalignedWrite, hslba, ok_bind, hb] at h
  split_ifs at h with hlb halloc
  · obtain ⟨⟨err₁, ends⟩, hends, h⟩ := bind_eq_ok h
    dsimp only at h
    split_ifs at h with herr
    · cases h
      exact .inl ⟨herr, rfl⟩
    obtain rfl := not_ne_iff.1 herr
    unfold writeBack at h
    dsimp only at h
    split_ifs at h with hfits hvalid
    · exact .inr ⟨ends, hends, h⟩
    · cases h
      exact .inl ⟨one_ne_zero, rfl⟩
  · cases h
    exact .inl ⟨by decide, rfl⟩

/-- **Unaligned writes**, whatever they return: the bytes around the request that share its blocks stay as they are. -/
theorem Handle.unalignedWrite_torn {ndx slba elba : ℕ} (hh : Handle fs ndx obj slba elba) (hr : env.RangesOk fs.dev)
    (hlen : 1 ≤ len) (hin : offset + len ≤ (elba - slba) * fs.dev.lbNbytes)
    (h : flaObjectUnalignedWrite env fs ndx obj buf offset len = .ok (err, disk')) :
    TornWrite fs.disk (slba * fs.dev.lbNbytes + offset) buf len err disk' := by
  obtain ⟨hb, hsb, heb⟩ := hh.bounce hlen hin
  obtain ⟨b, hbdef⟩ : ∃ b, bounceOf fs.dev.lbNbytes (u64 (slba * fs.dev.lbNbytes)) offset len = b := ⟨_, rfl⟩
  rw [hbdef] at hb hsb heb
  rcases unalignedWrite_cases hh.starts hbdef h with ⟨herr, rfl⟩ | ⟨ends, hends, hwrite⟩
  · exact .unchanged herr
  obtain ⟨range, hrange, hle, h63, hstart, hstop, hsize⟩ := hb.blocks hr hh.lb_pos hh.blocks
  rw [hrange] at hwrite
  have hfirst := hb.sb_le
  have hlast := hb.le_eb
  have hbsize := hb.size
  rw [← hsb]
  refine ⟨fun i hi => ?_, fun herr i hi => ?_, fun i hi => ?_⟩
  · rcases seqW_torn hle h63 hwrite (b.origSb + i) with heq | ⟨-, heq⟩
    · exact .inl heq
    · rw [hstart, copyBytes_of_mem (by omega) (by omega), Nat.zero_add] at heq
      refine .inr (heq.trans (congrArg buf ?_))
      omega
  · subst herr
    rw [seqW_spec (seqW_mdts hle h63 hwrite) h63 hwrite, hstart, hsize, copyBytes_of_mem (by omega) (by omega),
      copyBytes_of_mem (by omega) (by omega)]
    congr 1
    omega
  · by_cases hmem : b.alignedSb ≤ i ∧ i < b.alignedEb
    swap
    · refine seqW_frame h63 hwrite ?_
      rw [hstart, hstop]
      omega
    rcases Nat.eq_zero_or_pos (flaXneCalcMdtsNaddrs fs.dev) with h0 | hm
    · rw [seqW_stuck hle h63 h0 hwrite]
    rcases seqW_torn hle h63 hwrite i with heq | ⟨-, heq⟩
    · exact heq
    · -- a byte of the first or the last block is written back as it was read
      have hout : i - b.alignedSb < b.origSb - b.alignedSb ∨ b.origEb - b.alignedSb ≤ i - b.alignedSb := by omega
      rw [heq, hstart, copyBytes_of_not_mem (by omega), readEnds_exact hr hh.lb_pos hm hh.blocks hb hends (by omega) hout,
        Nat.add_sub_cancel' hmem.1]

end Objects

end FlexAlloc
