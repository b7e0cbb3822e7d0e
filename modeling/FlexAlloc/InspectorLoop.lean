/-
The loop of the inspector over the pool entries: `validate_pool_entries` calls `check_pool_entries` again and again, each
time from the slot after the one reported last.

The image is any: any hash table, any freelist, any entries. Two reads of a bit have no defined result there, a shift by the
width of the word and a read past the freelist; `undef` is what they give, and everything is shown for whatever it is. The
length of the freelist is a word of the image and may be more than there are pools: the entry of a pool past `npools` is a
read past the array, and the check ends there without a result.

When `val` is past the freelist the check leaves its loop by `goto exit`, before `delta` counts the slot, and `offset` comes
out one too small.

- `inspector_finishes_iff`: the loop ends, and every report names the first bad slot, if and only if every slot in use has a
  `val` below both the length of the freelist and the number of pools.
- `validateLoop_stuck`: with another slot the loop does not end. `inspector_stuck`: the smallest image.
-/
import FlexAlloc.Inspector

namespace FlexAlloc

open FlexAlloc.Core Function

/-! ## The check of any image -/

/-- `__flist_bit_reserved` of any image -/
def bitReservedAny (undef : ℕ → Bool) (fl : Freelist) (ndx : ℕ) : Ret Bool :=
  match flistBitReserved fl ndx with
  | .ok b => .ok b
  | .error _ => .ok (undef ndx)

/-- `check_pool_entries` on any image -/
def checkPoolEntriesAny (undef : ℕ → Bool) (fs : Flexalloc) (offset : ℕ) : Ret (ℕ × ℕ) :=
  checkEntriesBy (bitReservedAny undef fs.pools.freelist) fs offset

/-- the loop of `validate_pool_entries`, for at most `fuel` calls of the check; `none` while it goes on. The slot that is
reported is printed. -/
def validateLoop (undef : ℕ → Bool) (fs : Flexalloc) : ℕ → ℕ → ℕ → Ret (Option ℕ)
  | 0, _, _ => .ok none
  | fuel + 1, offset, err => do
    let (fnErr, offset) ← checkPoolEntriesAny undef fs offset
    if fnErr = 0 then .ok (some err)
    else if fs.pools.htbl.tblSize ≤ offset then .error .outOfBounds
    else validateLoop undef fs fuel (u32 (offset + 1)) (err ||| fnErr)

theorem bitReservedAny_ok (undef : ℕ → Bool) (fl : Freelist) (ndx : ℕ) : ∃ b, bitReservedAny undef fl ndx = .ok b := by
  unfold bitReservedAny
  cases flistBitReserved fl ndx with
  | ok b => exact ⟨b, rfl⟩
  | error _ => exact ⟨undef ndx, rfl⟩

/-! ## The first bad slot -/

variable (undef : ℕ → Bool) (fs : Flexalloc)

/-- the check of slot `i` -/
def slotCheck (i : ℕ) : Ret (ℕ × Bool) := checkSlot (bitReservedAny undef fs.pools.freelist) fs (fs.pools.htbl.tbl i)

/-- the check finds errors in slot `i` -/
def BadSlot (i : ℕ) : Prop := ∃ r, slotCheck undef fs i = .ok r ∧ r.1 ≠ 0

/-- slot `i` is in use and its `val` is past the freelist -/
def OutSlot (i : ℕ) : Prop :=
  Occ fs.pools.htbl.tbl i ∧ flaFlistLen fs.pools.freelist ≤ (fs.pools.htbl.tbl i).val

/-- slot `i` is in use and its `val` is an entry of the freelist, but of no pool -/
def PastSlot (i : ℕ) : Prop :=
  Occ fs.pools.htbl.tbl i ∧ (fs.pools.htbl.tbl i).val < flaFlistLen fs.pools.freelist ∧
    fs.npools ≤ (fs.pools.htbl.tbl i).val

/-- `i` is the first bad slot of the table at or after `offset` -/
structure FirstBad (offset i : ℕ) : Prop where
  ge : offset ≤ i
  lt : i < fs.pools.htbl.tblSize
  bad : BadSlot undef fs i
  before : ∀ j, offset ≤ j → j < i → ¬ BadSlot undef fs j

/-- what the inspector is to do on an image -/
structure InspectorFinishes : Prop where
  ends : ∃ fuel err, validateLoop undef fs fuel 0 0 = .ok (some err)
  exact : ∀ offset ≤ fs.pools.htbl.tblSize, ∃ err offset', checkPoolEntriesAny undef fs offset = .ok (err, offset') ∧
    (err ≠ 0 → FirstBad undef fs offset offset')

/-- every slot in use has a `val` that is an entry of the freelist and of a pool -/
def ValsInBounds : Prop := ∀ i < fs.pools.htbl.tblSize, Occ fs.pools.htbl.tbl i →
  (fs.pools.htbl.tbl i).val < flaFlistLen fs.pools.freelist ∧ (fs.pools.htbl.tbl i).val < fs.npools

variable {undef fs}

instance (i : ℕ) : Decidable (OutSlot fs i) := inferInstanceAs (Decidable (_ ∧ _))

instance : Decidable (ValsInBounds fs) := inferInstanceAs (Decidable (∀ i < _, _))

theorem ValsInBounds.not_out (h : ValsInBounds fs) {i : ℕ} (hi : i < fs.pools.htbl.tblSize) : ¬ OutSlot fs i :=
  fun ho => absurd (h i hi ho.1).1 (not_lt.2 ho.2)

theorem ValsInBounds.not_past (h : ValsInBounds fs) {i : ℕ} (hi : i < fs.pools.htbl.tblSize) : ¬ PastSlot fs i :=
  fun hp => absurd (h i hi hp.1).2 (not_lt.2 hp.2.2)

theorem exists_slot (h : ¬ ValsInBounds fs) : ∃ k < fs.pools.htbl.tblSize, OutSlot fs k ∨ PastSlot fs k := by
  unfold ValsInBounds at h
  push Not at h
  obtain ⟨k, hk, hocc, hval⟩ := h
  refine ⟨k, hk, ?_⟩
  rcases lt_or_ge (fs.pools.htbl.tbl k).val (flaFlistLen fs.pools.freelist) with hlt | hge
  · exact .inr ⟨hocc, hlt, hval hlt⟩
  · exact .inl ⟨hocc, hge⟩

theorem or_ne_zero_right {a b : ℕ} (hb : b ≠ 0) : a ||| b ≠ 0 := fun h => hb (Nat.or_eq_zero_iff.1 h).2

theorem slotCheck_past {i : ℕ} (h : PastSlot fs i) : slotCheck undef fs i = .error .outOfBounds := by
  obtain ⟨hocc, hlt, hge⟩ := h
  obtain ⟨b, hb⟩ := bitReservedAny_ok undef fs.pools.freelist (fs.pools.htbl.tbl i).val
  rw [slotCheck, checkSlot, if_neg hocc, hb, ok_bind, if_neg (not_le.2 hlt), Flexalloc.entryAt, if_neg (not_lt.2 hge)]
  rfl

/-- the loop is left at once exactly at a `val` past the freelist, and with an error -/
theorem slotCheck_ok (undef : ℕ → Bool) {i : ℕ} (h : ¬ PastSlot fs i) :
    ∃ err, slotCheck undef fs i = .ok (err, decide (OutSlot fs i)) ∧ (OutSlot fs i → err ≠ 0) := by
  unfold slotCheck checkSlot
  by_cases hocc : (fs.pools.htbl.tbl i).h2 = flaHtblEntryUnset
  · have hno : ¬ OutSlot fs i := fun ho => ho.1 hocc
    exact ⟨0, by rw [if_pos hocc, decide_eq_false hno], fun ho => absurd ho hno⟩
  obtain ⟨b, hb⟩ := bitReservedAny_ok undef fs.pools.freelist (fs.pools.htbl.tbl i).val
  rw [if_neg hocc, hb, ok_bind]
  by_cases hout : flaFlistLen fs.pools.freelist ≤ (fs.pools.htbl.tbl i).val
  · have ho : OutSlot fs i := ⟨hocc, hout⟩
    exact ⟨_, by rw [if_pos hout, decide_eq_true ho], fun _ => or_ne_zero_right (by decide)⟩
  · have hno : ¬ OutSlot fs i := fun ho => hout ho.2
    have hlt : (fs.pools.htbl.tbl i).val < fs.npools := by
      by_contra hge
      exact h ⟨hocc, not_le.1 hout, not_lt.1 hge⟩
    rw [if_neg hout, Flexalloc.entryAt, if_pos hlt, ok_bind, decide_eq_false hno]
    exact ⟨_, rfl, fun ho => absurd ho hno⟩

theorem OutSlot.bad {i : ℕ} (h : OutSlot fs i) : BadSlot undef fs i := by
  obtain ⟨err, hcheck, herr⟩ := slotCheck_ok undef (show ¬ PastSlot fs i from fun hp => absurd h.2 (not_le.2 hp.2.1))
  exact ⟨_, hcheck, herr h⟩

theorem BadSlot.not_past {i : ℕ} (h : BadSlot undef fs i) : ¬ PastSlot fs i := fun hp => by
  obtain ⟨r, hr, -⟩ := h
  rw [slotCheck_past hp] at hr
  cases hr

/-- **The loop of the check** runs to the first bad slot, and counts it unless its `val` is past the freelist; or to an entry
past the array. -/
theorem checkSlots_cases (undef : ℕ → Bool) (n : ℕ) {slot : ℕ} (delta : ℕ) (hn : slot + n = fs.pools.htbl.tblSize) :
    ((∀ j, slot ≤ j → j < slot + n → ¬ BadSlot undef fs j ∧ ¬ PastSlot fs j) ∧
      checkSlots (bitReservedAny undef fs.pools.freelist) fs n slot delta = .ok (0, delta + n)) ∨
    (∃ i, FirstBad undef fs slot i ∧ (∀ j, slot ≤ j → j < i → ¬ PastSlot fs j) ∧ ∃ err, err ≠ 0 ∧
      checkSlots (bitReservedAny undef fs.pools.freelist) fs n slot delta =
        .ok (err, delta + (i - slot) + if OutSlot fs i then 0 else 1)) ∨
    ∃ i, slot ≤ i ∧ i < slot + n ∧ PastSlot fs i ∧
      checkSlots (bitReservedAny undef fs.pools.freelist) fs n slot delta = .error .outOfBounds := by
  induction n generalizing slot delta with
  | zero => exact .inl ⟨fun j hj hj' => by omega, rfl⟩
  | succ n ih =>
    have hstep : checkSlots (bitReservedAny undef fs.pools.freelist) fs (n + 1) slot delta =
        slotCheck undef fs slot >>= fun r =>
          if r.2 then .ok (r.1, delta)
          else if r.1 ≠ 0 then .ok (r.1, delta + 1)
          else checkSlots (bitReservedAny undef fs.pools.freelist) fs n (slot + 1) (delta + 1) := rfl
    by_cases hpast : PastSlot fs slot
    · refine .inr (.inr ⟨slot, le_rfl, by omega, hpast, ?_⟩)
      rw [hstep, slotCheck_past hpast]
      rfl
    obtain ⟨err, hcheck, hout⟩ := slotCheck_ok undef hpast
    rw [hstep, hcheck, ok_bind]
    dsimp only
    by_cases herr : err = 0
    · -- the slot passes, and what is found is found in the rest
      have hno : ¬ OutSlot fs slot := fun ho => hout ho herr
      have hgood : ¬ BadSlot undef fs slot := fun ⟨r, hr, hne⟩ => by
        rw [hcheck] at hr
        cases hr
        exact hne herr
      have hhere : ∀ j, slot ≤ j → j < slot + 1 → ¬ BadSlot undef fs j ∧ ¬ PastSlot fs j := fun j hj hj' => by
        obtain rfl : j = slot := by omega
        exact ⟨hgood, hpast⟩
      rw [decide_eq_false hno, if_neg (by simp), if_neg (not_not.2 herr)]
      rcases ih (delta + 1) (show slot + 1 + n = _ by omega) with ⟨hnone, hrest⟩ | ⟨i, hfirst, hnp, err', herr', hrest⟩ |
        ⟨i, hge, hlt, hp, hrest⟩
      · refine .inl ⟨fun j hj hj' => ?_, by rw [hrest, Nat.add_right_comm, Nat.add_assoc]⟩
        rcases Nat.lt_or_ge j (slot + 1) with hlt | hge
        · exact hhere j hj hlt
        · exact hnone j hge (by omega)
      · have hge := hfirst.ge
        refine .inr (.inl ⟨i, ⟨by omega, hfirst.lt, hfirst.bad, fun j hj hj' => ?_⟩, fun j hj hj' => ?_, err', herr', ?_⟩)
        · rcases Nat.lt_or_ge j (slot + 1) with hlt | hge
          · exact (hhere j hj hlt).1
          · exact hfirst.before j hge hj'
        · rcases Nat.lt_or_ge j (slot + 1) with hlt | hge
          · exact (hhere j hj hlt).2
          · exact hnp j hge hj'
        · rw [hrest, show delta + 1 + (i - (slot + 1)) = delta + (i - slot) by omega]
      · exact .inr (.inr ⟨i, by omega, by omega, hp, hrest⟩)
    · have hfirst : FirstBad undef fs slot slot :=
        ⟨le_rfl, by omega, ⟨_, hcheck, herr⟩, fun j hj hj' => by omega⟩
      refine .inr (.inl ⟨slot, hfirst, fun j hj hj' => by omega, err, herr, ?_⟩)
      by_cases ho : OutSlot fs slot
      · -- the exit in the middle of the body
        rw [decide_eq_true ho, if_pos rfl, if_pos ho, Nat.sub_self, Nat.add_zero]
      · rw [decide_eq_false ho, if_neg (by simp), if_pos herr, if_neg ho, Nat.sub_self]

/-- **One check**: no bad slot is left, or the first one is reported; when its `val` is past the freelist the offset is one less
than its index, modulo 2^32. -/
theorem checkPoolEntriesAny_cases (undef : ℕ → Bool) {offset : ℕ} (hsize : fs.pools.htbl.tblSize < 2 ^ 32)
    (ho : offset ≤ fs.pools.htbl.tblSize) :
    ((∀ j, offset ≤ j → j < fs.pools.htbl.tblSize → ¬ BadSlot undef fs j ∧ ¬ PastSlot fs j) ∧
      checkPoolEntriesAny undef fs offset = .ok (0, 0)) ∨
    (∃ i, FirstBad undef fs offset i ∧ (∀ j, offset ≤ j → j < i → ¬ PastSlot fs j) ∧ ∃ err, err ≠ 0 ∧
      checkPoolEntriesAny undef fs offset = .ok (err, if OutSlot fs i then if i = 0 then 2 ^ 32 - 1 else i - 1 else i)) ∨
    ∃ i, offset ≤ i ∧ i < fs.pools.htbl.tblSize ∧ PastSlot fs i ∧
      checkPoolEntriesAny undef fs offset = .error .outOfBounds := by
  have hroom : offset + (fs.pools.htbl.tblSize - offset) = fs.pools.htbl.tblSize := by omega
  unfold checkPoolEntriesAny checkEntriesBy
  rw [if_neg (not_lt.2 ho)]
  rcases checkSlots_cases undef _ 0 hroom with ⟨hnone, hrun⟩ | ⟨i, hfirst, hnp, err, herr, hrun⟩ | ⟨i, hge, hlt, hp, hrun⟩
  · exact .inl ⟨fun j hj hj' => hnone j hj (by omega), by rw [hrun]; rfl⟩
  · refine .inr (.inl ⟨i, hfirst, hnp, err, herr, ?_⟩)
    have hge := hfirst.ge
    have hlt := hfirst.lt
    rw [hrun, ok_bind]
    dsimp only
    rw [if_pos herr, Nat.zero_add]
    by_cases hout : OutSlot fs i
    · rw [if_pos hout, if_pos hout, Nat.add_zero]
      refine congrArg Except.ok (Prod.ext rfl ?_)
      unfold sub32 u32
      dsimp only
      split_ifs <;> omega
    · rw [if_neg hout, if_neg hout, sub32_of_le (by omega) (by omega), Nat.add_sub_cancel, u32_of_lt (by omega),
        Nat.add_sub_cancel' hge]
  · exact .inr (.inr ⟨i, hge, by omega, hp, by rw [hrun]; rfl⟩)

/-! ## The loop -/

theorem validateLoop_succ (fuel offset err : ℕ) : validateLoop undef fs (fuel + 1) offset err =
    checkPoolEntriesAny undef fs offset >>= fun r =>
      if r.1 = 0 then .ok (some err)
      else if fs.pools.htbl.tblSize ≤ r.2 then .error .outOfBounds
      else validateLoop undef fs fuel (u32 (r.2 + 1)) (err ||| r.1) := rfl

/-- **The loop does not end** once it is at or before a `val` out of bounds. Past the freelist, the slot is reported one too
low, or with no slot at all before it, and the next check starts at it again; past the pools, there is no entry to read. -/
theorem validateLoop_stuck {k : ℕ} (hsize : fs.pools.htbl.tblSize < 2 ^ 32) (hk : k < fs.pools.htbl.tblSize)
    (hbad : OutSlot fs k ∨ PastSlot fs k) (fuel : ℕ) {offset : ℕ} (ho : offset ≤ k) (err : ℕ) :
    ∀ r, validateLoop undef fs fuel offset err ≠ .ok (some r) := by
  induction fuel generalizing offset err with
  | zero => simp [validateLoop]
  | succ fuel ih =>
    intro r h
    rw [validateLoop_succ] at h
    rcases checkPoolEntriesAny_cases undef hsize (show offset ≤ _ by omega) with
      ⟨hnone, -⟩ | ⟨i, hfirst, hnp, err', herr', hrun⟩ | ⟨i, -, -, -, hrun⟩
    · exact hbad.elim (fun hout => (hnone k ho hk).1 hout.bad) (hnone k ho hk).2
    · have hlt := hfirst.lt
      have hik : i ≤ k := by
        by_contra hlt
        exact hbad.elim (fun hout => hfirst.before k ho (by omega) hout.bad) (hnp k ho (by omega))
      rw [hrun, ok_bind] at h
      dsimp only at h
      rw [if_neg herr'] at h
      by_cases hi : OutSlot fs i
      · rw [if_pos hi] at h
        by_cases h0 : i = 0
        · rw [if_pos h0, if_pos (by omega)] at h
          cases h
        · rw [if_neg h0, if_neg (by omega)] at h
          exact ih (by rw [u32_of_lt] <;> omega) _ r h
      · have hne : i ≠ k := fun heq => hbad.elim (fun hout => hi (heq ▸ hout)) fun hp => hfirst.bad.not_past (heq ▸ hp)
        rw [if_neg hi, if_neg (by omega)] at h
        exact ih (by rw [u32_of_lt] <;> omega) _ r h
    · rw [hrun] at h
      cases h

theorem validateLoop_mono {fuel fuel' offset err r : ℕ} (hle : fuel ≤ fuel')
    (h : validateLoop undef fs fuel offset err = .ok (some r)) : validateLoop undef fs fuel' offset err = .ok (some r) := by
  induction fuel generalizing fuel' offset err with
  | zero => cases h
  | succ fuel ih =>
    obtain ⟨n, rfl⟩ : ∃ n, fuel' = n + 1 := ⟨fuel' - 1, by omega⟩
    rw [validateLoop_succ] at h ⊢
    obtain ⟨res, hrun, h⟩ := bind_eq_ok h
    rw [hrun, ok_bind]
    split_ifs at h ⊢
    · exact h
    · exact ih (by omega) h

/-- with every `val` in bounds a check reports the first bad slot, if there is one left -/
theorem ValsInBounds.check (h : ValsInBounds fs) (undef : ℕ → Bool) (hsize : fs.pools.htbl.tblSize < 2 ^ 32) {offset : ℕ}
    (ho : offset ≤ fs.pools.htbl.tblSize) : checkPoolEntriesAny undef fs offset = .ok (0, 0) ∨
      ∃ i err, FirstBad undef fs offset i ∧ err ≠ 0 ∧ checkPoolEntriesAny undef fs offset = .ok (err, i) := by
  rcases checkPoolEntriesAny_cases undef hsize ho with ⟨-, hrun⟩ | ⟨i, hfirst, -, err, herr, hrun⟩ | ⟨i, -, hlt, hp, -⟩
  · exact .inl hrun
  · rw [if_neg (h.not_out hfirst.lt)] at hrun
    exact .inr ⟨i, err, hfirst, herr, hrun⟩
  · exact absurd hp (h.not_past hlt)

/-- each report moves on, so as many calls as there are slots left, and one, are enough -/
theorem validateLoop_ends (undef : ℕ → Bool) (hsize : fs.pools.htbl.tblSize < 2 ^ 32) (hin : ValsInBounds fs) (n : ℕ)
    {offset : ℕ} (ho : offset + n = fs.pools.htbl.tblSize) (err : ℕ) :
    ∃ r, validateLoop undef fs (n + 1) offset err = .ok (some r) := by
  induction n using Nat.strong_induction_on generalizing offset err with
  | _ n ih =>
    rw [validateLoop_succ]
    rcases hin.check undef hsize (show offset ≤ _ by omega) with hrun | ⟨i, err', hfirst, herr', hrun⟩
    · exact ⟨err, by rw [hrun]; rfl⟩
    · have hge := hfirst.ge
      have hlt := hfirst.lt
      rw [hrun, ok_bind]
      dsimp only
      rw [if_neg herr', if_neg (by omega), u32_of_lt (by omega)]
      -- the rest of the table is shorter; what fuel is left over is not needed
      obtain ⟨m, hm⟩ : ∃ m, i + 1 + m = fs.pools.htbl.tblSize := ⟨fs.pools.htbl.tblSize - (i + 1), by omega⟩
      obtain ⟨r, hr⟩ := ih m (by omega) hm (err ||| err')
      exact ⟨r, validateLoop_mono (by omega) hr⟩

/-- **The inspector finishes**, with every report at the first bad slot, exactly when every slot in use has a `val` in
bounds. -/
theorem inspector_finishes_iff (undef : ℕ → Bool) (fs : Flexalloc) (hsize : fs.pools.htbl.tblSize < 2 ^ 32) :
    InspectorFinishes undef fs ↔ ValsInBounds fs := by
  constructor
  · rintro ⟨⟨fuel, err, hends⟩, -⟩
    by_contra hno
    obtain ⟨k, hk, hbad⟩ := exists_slot hno
    exact validateLoop_stuck hsize hk hbad fuel (Nat.zero_le k) 0 err hends
  · intro hin
    refine ⟨?_, fun offset ho => ?_⟩
    · obtain ⟨r, hr⟩ := validateLoop_ends undef hsize hin fs.pools.htbl.tblSize (Nat.zero_add _) 0
      exact ⟨_, r, hr⟩
    · rcases hin.check undef hsize ho with hrun | ⟨i, err, hfirst, -, hrun⟩
      · exact ⟨0, 0, hrun, fun h => absurd rfl h⟩
      · exact ⟨err, i, hrun, fun _ => hfirst⟩

/-! ## Images -/

/-- 64 blocks formatted for two pools, with slot `i` of the hash table set to `entry` -/
def imageWith (i : ℕ) (entry : HtblEntry) : Flexalloc :=
  let fs := flaMkfs smallDev (mkfsGeo smallDev 8 2 6) 0
  { fs with pools := { fs.pools with htbl := { fs.pools.htbl with tbl := update fs.pools.htbl.tbl i entry } } }

/-- an entry in use for a pool without a name: one report -/
theorem inspector_finishes_small : InspectorFinishes (fun _ => false) (imageWith 3 ⟨5, 1, 0⟩) :=
  (inspector_finishes_iff _ _ (by decide)).2 (by decide +kernel)

/-- **The inspector is stuck** on an entry of slot 1 for pool 2, of which there is none: it reports slot 0 for ever. -/
theorem inspector_stuck : (∀ fuel, validateLoop (fun _ => false) (imageWith 1 ⟨5, 2, 0⟩) fuel 0 0 = .ok none) ∧
    ¬ InspectorFinishes (fun _ => false) (imageWith 1 ⟨5, 2, 0⟩) := by
  have hfirst : checkPoolEntriesAny (fun _ => false) (imageWith 1 ⟨5, 2, 0⟩) 0 = .ok (2, 0) :=
    toOption_eq_some (by decide +kernel)
  have hagain : checkPoolEntriesAny (fun _ => false) (imageWith 1 ⟨5, 2, 0⟩) 1 = .ok (2, 0) :=
    toOption_eq_some (by decide +kernel)
  have hsize : ¬ (imageWith 1 ⟨5, 2, 0⟩).pools.htbl.tblSize ≤ 0 := by decide
  have hloop : ∀ fuel err, validateLoop (fun _ => false) (imageWith 1 ⟨5, 2, 0⟩) fuel 1 err = .ok none := by
    intro fuel
    induction fuel with
    | zero => exact fun _ => rfl
    | succ fuel ih =>
      intro err
      rw [validateLoop_succ, hagain, ok_bind]
      dsimp only
      rw [if_neg (by decide), if_neg hsize]
      exact ih _
  have hnever : ∀ fuel, validateLoop (fun _ => false) (imageWith 1 ⟨5, 2, 0⟩) fuel 0 0 = .ok none := by
    intro fuel
    cases fuel with
    | zero => rfl
    | succ fuel =>
      rw [validateLoop_succ, hfirst, ok_bind]
      dsimp only
      rw [if_neg (by decide), if_neg hsize]
      exact hloop fuel _
  refine ⟨hnever, fun h => ?_⟩
  obtain ⟨fuel, err, hends⟩ := h.ends
  rw [hnever fuel] at hends
  cases hends

end FlexAlloc
