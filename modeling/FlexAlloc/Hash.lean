/-
`flexalloc_hash.c`: the two string hashes and the Robin Hood hash table.

A slot stores only the secondary hash of its key, its value and its probe sequence length (psl), so for the table the
secondary hash is the key. `Hashing` carries the two hash functions; `flaHashing` is the pair the source uses on C
strings. The table is the function `tbl` on the slots below `tblSize`.

The invariant `Placed hm n T` (`hm` gives the home slot of a secondary hash) is local: a slot's psl is its distance
from home, and along the ring psl grows by at most one, from an occupied slot only. From it:

- `scan_absent`: where the probe meets an unset slot or a richer element, the key is nowhere in the table.
- `lookupLoop_spec`, `insertLoop_spec`, `removeLoop_spec`: what each loop does to the contents, that it keeps the
  invariant, and that it ends. The insert loop carries a second invariant, `Carry`, for the element in hand; the remove
  loop carries `Placed` of the table whose hole still holds the element last moved.

The counters `stat_insert_*` are written and never read; they are left out.
-/
import FlexAlloc.Basic
import FlexAlloc.Core.Ring

namespace FlexAlloc

open FlexAlloc.Core Function

/-! ## Hash functions -/

/-- the bytes of a C string: up to its first zero byte -/
def cstr (s : List (BitVec 8)) : List (BitVec 8) := s.takeWhile (· ≠ 0)

/-- `fla_hash_djb2`; `char` is signed -/
def flaHashDjb2 (key : List (BitVec 8)) : BitVec 64 :=
  (cstr key).foldl (fun hash c => ((hash <<< 5) + hash) + c.signExtend 64) 5381

def flaHashSdbm (key : List (BitVec 8)) : BitVec 64 :=
  (cstr key).foldl (fun hash c => c.signExtend 64 + (hash <<< 6) + (hash <<< 16) - hash) 0

def flaMadCompression (key a b n : ℕ) : ℕ := u64 (a * key + b) % n

/-- `FLA_HTBL_H1` and `FLA_HTBL_H2` -/
structure Hashing (κ : Type) where
  h1 : κ → ℕ
  h2 : κ → ℕ

def flaHashing : Hashing (List (BitVec 8)) := ⟨fun k => (flaHashDjb2 k).toNat, fun k => (flaHashSdbm k).toNat⟩

def flaHtblCompress (hval tblSize : ℕ) : ℕ := flaMadCompression hval 31 5745 tblSize

/-! ## The table -/

/-- `FLA_HTBL_ENTRY_UNSET`, as the `uint64_t` it is stored in -/
def flaHtblEntryUnset : ℕ := 2 ^ 64 - 1

/-- `struct fla_htbl_entry` -/
structure HtblEntry where
  h2 : ℕ
  val : ℕ
  psl : ℕ
deriving DecidableEq, Repr

/-- `struct fla_htbl` -/
structure Htbl where
  tbl : ℕ → HtblEntry
  tblSize : ℕ
  len : ℕ

def flaHtblEntriesInit : ℕ → HtblEntry := fun _ => ⟨flaHtblEntryUnset, 0, 0⟩

def htblInit (tblSize : ℕ) : Htbl := ⟨flaHtblEntriesInit, tblSize, 0⟩

/-- the loop of `htbl_insert`; the flag says whether an unset slot was taken -/
def htblInsertLoop (n : ℕ) : ℕ → (ℕ → HtblEntry) → ℕ → HtblEntry → Ret ((ℕ → HtblEntry) × Bool)
  | 0, _, _, _ => .error .endless
  | fuel + 1, tbl, ndx, current =>
    let entry := tbl ndx
    if entry.h2 = flaHtblEntryUnset then .ok (update tbl ndx current, true)
    else if entry.psl < current.psl then
      -- richer element, swap out and continue insert
      htblInsertLoop n fuel (update tbl ndx current) (next n ndx) { entry with psl := u16 (entry.psl + 1) }
    else if entry.h2 = current.h2 then .ok (update tbl ndx { entry with val := current.val }, false)
    else htblInsertLoop n fuel tbl (next n ndx) { current with psl := u16 (current.psl + 1) }

/-- `htbl_insert`. An unset slot ends the loop within `tblSize` probes, whatever else the table holds. -/
def htblInsert {κ : Type} (H : Hashing κ) (t : Htbl) (key : κ) (val : ℕ) : Ret (ℤ × Htbl) :=
  if t.tblSize = 0 then .error .divByZero
  else if t.len = t.tblSize then .ok (2, t)
  else do
    let (tbl, new) ← htblInsertLoop t.tblSize (2 ^ 16 * t.tblSize) t.tbl (flaHtblCompress (H.h1 key) t.tblSize)
      ⟨H.h2 key, val, 0⟩
    .ok (0, { t with tbl := tbl, len := if new then u32 (t.len + 1) else t.len })

/-- the loop of `__htbl_lookup`: the slot found, or `none` -/
def htblLookupLoop (tbl : ℕ → HtblEntry) (n h2 : ℕ) : ℕ → ℕ → ℕ → Ret (Option ℕ)
  | 0, _, _ => .error .endless
  | fuel + 1, ndx, psl =>
    let entry := tbl ndx
    if entry.h2 = h2 then .ok (some ndx)
    else if entry.h2 = flaHtblEntryUnset ∨ entry.psl < psl then .ok none
    else htblLookupLoop tbl n h2 fuel (next n ndx) (psl + 1)

/-- `htbl_lookup`; a stored psl is below 2^16, so 2^16 + 1 probes are enough for every table -/
def htblLookup {κ : Type} (H : Hashing κ) (t : Htbl) (key : κ) : Ret (Option ℕ) :=
  if t.tblSize = 0 then .error .divByZero
  else htblLookupLoop t.tbl t.tblSize (H.h2 key) (2 ^ 16 + 1) (flaHtblCompress (H.h1 key) t.tblSize) 0

/-- the loop of `htbl_remove`: move elements back one slot until one is at home -/
def htblRemoveLoop (n : ℕ) : ℕ → (ℕ → HtblEntry) → ℕ → Ret (ℕ → HtblEntry)
  | 0, _, _ => .error .endless
  | fuel + 1, tbl, entry =>
    let nxt := next n entry
    if (tbl nxt).psl = 0 then .ok (update tbl entry { tbl entry with h2 := flaHtblEntryUnset, psl := 0 })
    else htblRemoveLoop n fuel (update tbl entry { tbl nxt with psl := (tbl nxt).psl - 1 }) nxt

/-- `htbl_remove`; every pass over the ring lowers each psl by one, so 2^16 passes are enough for every table -/
def htblRemove {κ : Type} (H : Hashing κ) (t : Htbl) (key : κ) : Ret Htbl := do
  match ← htblLookup H t key with
  | none => .ok t
  | some entry =>
    let tbl ← htblRemoveLoop t.tblSize (2 ^ 16 * t.tblSize) t.tbl entry
    .ok { t with tbl := tbl, len := sub32 t.len 1 }

/-! ## A loop that has ended is not changed by more fuel -/

theorem htblLookupLoop_mono {T : ℕ → HtblEntry} {n x fuel fuel' ndx psl : ℕ} {e : Option ℕ}
    (h : htblLookupLoop T n x fuel ndx psl = .ok e) (hle : fuel ≤ fuel') :
    htblLookupLoop T n x fuel' ndx psl = .ok e := by
  induction fuel generalizing fuel' ndx psl with
  | zero => cases h
  | succ fuel ih =>
    obtain ⟨m, rfl⟩ : ∃ m, fuel' = m + 1 := ⟨fuel' - 1, by omega⟩
    simp only [htblLookupLoop] at h ⊢
    split_ifs at h ⊢ with h1 h2
    · exact h
    · exact h
    · exact ih h (by omega)

theorem htblInsertLoop_mono {n fuel fuel' ndx : ℕ} {T : ℕ → HtblEntry} {c : HtblEntry}
    {r : (ℕ → HtblEntry) × Bool} (h : htblInsertLoop n fuel T ndx c = .ok r) (hle : fuel ≤ fuel') :
    htblInsertLoop n fuel' T ndx c = .ok r := by
  induction fuel generalizing fuel' T ndx c with
  | zero => cases h
  | succ fuel ih =>
    obtain ⟨m, rfl⟩ : ∃ m, fuel' = m + 1 := ⟨fuel' - 1, by omega⟩
    simp only [htblInsertLoop] at h ⊢
    split_ifs at h ⊢ with h1 h2 h3
    · exact h
    · exact ih h (by omega)
    · exact h
    · exact ih h (by omega)

theorem htblRemoveLoop_mono {n fuel fuel' e : ℕ} {T T' : ℕ → HtblEntry} (h : htblRemoveLoop n fuel T e = .ok T')
    (hle : fuel ≤ fuel') : htblRemoveLoop n fuel' T e = .ok T' := by
  induction fuel generalizing fuel' T e with
  | zero => cases h
  | succ fuel ih =>
    obtain ⟨m, rfl⟩ : ∃ m, fuel' = m + 1 := ⟨fuel' - 1, by omega⟩
    simp only [htblRemoveLoop] at h ⊢
    split_ifs at h ⊢ with h1
    · exact h
    · exact ih h (by omega)

/-! ## The placement invariant -/

/-- slot `i` holds an element -/
def Occ (T : ℕ → HtblEntry) (i : ℕ) : Prop := (T i).h2 ≠ flaHtblEntryUnset

instance (T : ℕ → HtblEntry) (i : ℕ) : Decidable (Occ T i) := inferInstanceAs (Decidable (_ ≠ _))

/-- every element sits psl slots after its home, and along the ring psl grows by at most one, from an occupied slot -/
structure Placed (hm : ℕ → ℕ) (n : ℕ) (T : ℕ → HtblEntry) : Prop where
  unset : ∀ i < n, ¬ Occ T i → (T i).psl = 0
  psl_lt : ∀ i < n, Occ T i → (T i).psl < n
  place : ∀ i < n, Occ T i → pos n (hm (T i).h2) (T i).psl = i
  chain : ∀ i < n, 0 < (T (next n i)).psl → Occ T i ∧ (T (next n i)).psl ≤ (T i).psl + 1

/-- no two slots other than `e` hold the same key -/
def Distinct (n : ℕ) (T : ℕ → HtblEntry) (e : Option ℕ) : Prop :=
  ∀ i < n, ∀ j < n, some i ≠ e → some j ≠ e → Occ T i → (T i).h2 = (T j).h2 → i = j

/-- a well placed table with distinct keys and an element at home (or an unset slot) -/
structure RobinHood (hm : ℕ → ℕ) (n : ℕ) (T : ℕ → HtblEntry) : Prop where
  placed : Placed hm n T
  distinct : Distinct n T none
  home : ∃ i < n, (T i).psl = 0

/-- slot contents: key `x` with value `v`, in a slot other than `e` -/
def Holds (n : ℕ) (T : ℕ → HtblEntry) (e : Option ℕ) (x v : ℕ) : Prop :=
  ∃ i < n, some i ≠ e ∧ (T i).h2 = x ∧ (T i).val = v

def occupied (n : ℕ) (T : ℕ → HtblEntry) : ℕ := ((Finset.range n).filter (Occ T ·)).card

section Placement

variable {hm : ℕ → ℕ} {n : ℕ} {T : ℕ → HtblEntry}

/-- before an element, as far back as its home, every slot is occupied by an element at least as far from home -/
theorem Placed.behind (hp : Placed hm n T) (hhm : ∀ x, hm x < n) {i : ℕ} (hi : i < n) (ho : Occ T i) (d : ℕ)
    (hd : d ≤ (T i).psl) :
    Occ T (pos n (hm (T i).h2) ((T i).psl - d)) ∧ (T i).psl - d ≤ (T (pos n (hm (T i).h2) ((T i).psl - d))).psl := by
  have hlt := hp.psl_lt i hi ho
  induction d with
  | zero => rw [Nat.sub_zero, hp.place i hi ho]; exact ⟨ho, le_rfl⟩
  | succ d ih =>
    obtain ⟨-, hle⟩ := ih (by omega)
    set q := (T i).psl - (d + 1)
    have hq : (T i).psl - d = q + 1 := by omega
    have hqn : pos n (hm (T i).h2) q < n := pos_lt (hhm _) (by omega)
    rw [hq, ← next_pos (hhm _) (by omega)] at hle
    obtain ⟨hocc, hch⟩ := hp.chain _ hqn (by omega)
    exact ⟨hocc, by omega⟩

/-- **Where the probe stops, the key is absent.** `q` steps from the home of `x` there is an unset slot or an element
nearer its own home, and no slot at fewer than `q` steps holds `x`. -/
theorem scan_absent (hp : Placed hm n T) (hhm : ∀ x, hm x < n) {x q : ℕ} (hx : x ≠ flaHtblEntryUnset)
    (hpast : ∀ i < n, (T i).h2 = x → q ≤ (T i).psl)
    (hstop : ¬ Occ T (pos n (hm x) q) ∨ (T (pos n (hm x) q)).psl < q) (i : ℕ) (hi : i < n) : (T i).h2 ≠ x := by
  intro h
  have ho : Occ T i := by unfold Occ; rw [h]; exact hx
  obtain ⟨hocc, hle⟩ := hp.behind hhm hi ho ((T i).psl - q) (Nat.sub_le _ _)
  have hpq := hpast i hi h
  rw [h, show (T i).psl - ((T i).psl - q) = q by omega] at hocc hle
  rcases hstop with h1 | h1
  · exact h1 hocc
  · omega

/-! ## Lookup -/

/-- **Lookup.** From `q` steps after the home of `x`, with every nearer slot ruled out, the probe ends at the slot that
holds `x`, or with nothing when there is none. -/
theorem lookupLoop_spec (hp : Placed hm n T) (hhm : ∀ x, hm x < n) {x : ℕ} (hx : x ≠ flaHtblEntryUnset) (fuel q : ℕ)
    (hq : q ≤ n) (hfuel : n < fuel + q) (hpast : ∀ i < n, (T i).h2 = x → q ≤ (T i).psl) :
    (∃ i < n, htblLookupLoop T n x fuel (pos n (hm x) q) q = .ok (some i) ∧ (T i).h2 = x) ∨
      (htblLookupLoop T n x fuel (pos n (hm x) q) q = .ok none ∧ ∀ i < n, (T i).h2 ≠ x) := by
  induction fuel generalizing q with
  | zero => omega
  | succ fuel ih =>
    have hlt : pos n (hm x) q < n := pos_lt (hhm x) hq
    unfold htblLookupLoop
    by_cases h1 : (T (pos n (hm x) q)).h2 = x
    · exact .inl ⟨_, hlt, by rw [if_pos h1], h1⟩
    by_cases h2 : (T (pos n (hm x) q)).h2 = flaHtblEntryUnset ∨ (T (pos n (hm x) q)).psl < q
    · refine .inr ⟨by rw [if_neg h1, if_pos h2], scan_absent hp hhm hx hpast ?_⟩
      exact h2.imp_left fun h => by simpa [Occ] using h
    · rw [if_neg h1, if_neg h2]
      push Not at h2
      -- the slot is occupied by another key at least as far from home: the ring is not exhausted yet
      have hqn : q < n := h2.2.trans_lt (hp.psl_lt _ hlt h2.1)
      rw [next_pos (hhm x) hqn]
      refine ih (q + 1) (by omega) (by omega) fun i hi hix => ?_
      have hle := hpast i hi hix
      rcases Nat.lt_or_ge q (T i).psl with h | h
      · exact h
      · have ho : Occ T i := by unfold Occ; rw [hix]; exact hx
        have hi' := hp.place i hi ho
        rw [hix, show (T i).psl = q by omega] at hi'
        exact absurd (hi' ▸ hix) h1

/-! ## Insert -/

/-- the element in hand at slot `ndx`: not yet placed, with the probe so far justified -/
structure Carry (hm : ℕ → ℕ) (n : ℕ) (T : ℕ → HtblEntry) (ndx : ℕ) (c : HtblEntry) : Prop where
  key : c.h2 ≠ flaHtblEntryUnset
  at_ndx : pos n (hm c.h2) c.psl = ndx
  behind : 0 < c.psl → ∀ i < n, next n i = ndx → Occ T i ∧ c.psl ≤ (T i).psl + 1
  fresh : ∀ i < n, (T i).h2 = c.h2 → c.psl ≤ (T i).psl

variable {ndx : ℕ} {c : HtblEntry}

theorem Carry.absent (hc : Carry hm n T ndx c) (hp : Placed hm n T) (hhm : ∀ x, hm x < n)
    (hstop : ¬ Occ T ndx ∨ (T ndx).psl < c.psl) : ∀ i < n, (T i).h2 ≠ c.h2 :=
  scan_absent hp hhm hc.key hc.fresh (by rw [hc.at_ndx]; exact hstop)

/-- the element in hand may take an unset slot, or the slot of a richer element -/
theorem Carry.placed (hc : Carry hm n T ndx c) (hp : Placed hm n T) (hlt : c.psl < n)
    (hstop : ¬ Occ T ndx ∨ (T ndx).psl < c.psl) : Placed hm n (update T ndx c) := by
  have hocc : ∀ i, i ≠ ndx → (Occ (update T ndx c) i ↔ Occ T i) := fun i hi => by simp [Occ, update_of_ne hi]
  refine ⟨fun i hi ho => ?_, fun i hi ho => ?_, fun i hi ho => ?_, fun i hi hpos => ?_⟩
  · by_cases h : i = ndx
    · subst h; simp only [Occ, update_self, not_not] at ho; exact absurd ho hc.key
    · rw [update_of_ne h]; exact hp.unset i hi fun h' => ho ((hocc i h).2 h')
  · by_cases h : i = ndx
    · subst h; rw [update_self]; exact hlt
    · rw [update_of_ne h]; exact hp.psl_lt i hi ((hocc i h).1 ho)
  · by_cases h : i = ndx
    · subst h; rw [update_self]; exact hc.at_ndx
    · rw [update_of_ne h]; exact hp.place i hi ((hocc i h).1 ho)
  · by_cases hn : next n i = ndx
    · rw [hn, update_self] at hpos ⊢
      by_cases h : i = ndx
      · have := next_eq_self (hn.trans h.symm); omega
      · rw [hocc i h, update_of_ne h]; exact hc.behind hpos i hi hn
    · rw [update_of_ne hn] at hpos ⊢
      obtain ⟨ho, hle⟩ := hp.chain i hi hpos
      by_cases h : i = ndx
      · -- the slot just taken: its new occupant is farther from home than the old one
        subst h
        refine ⟨by simpa [Occ] using hc.key, ?_⟩
        rw [update_self]
        rcases hstop with h' | h'
        · exact absurd ho h'
        · omega
      · rw [hocc i h, update_of_ne h]; exact ⟨ho, hle⟩

theorem distinct_update (hd : Distinct n T none) (habs : ∀ i < n, (T i).h2 ≠ c.h2) :
    Distinct n (update T ndx c) none := by
  intro i hi j hj _ _ ho heq
  by_cases h1 : i = ndx <;> by_cases h2 : j = ndx
  · rw [h1, h2]
  · subst h1; rw [update_self, update_of_ne h2] at heq; exact absurd heq.symm (habs j hj)
  · subst h2; rw [update_self, update_of_ne h1] at heq; exact absurd heq (habs i hi)
  · rw [update_of_ne h1, update_of_ne h2] at heq
    exact hd i hi j hj (by simp) (by simp) (by simpa [Occ, update_of_ne h1] using ho) heq

theorem holds_update (habs : ∀ i < n, i ≠ ndx → (T i).h2 ≠ c.h2) (hndx : ndx < n) (x v : ℕ) :
    Holds n (update T ndx c) none x v ↔
      if x = c.h2 then v = c.val else Holds n T (some ndx) x v := by
  constructor
  · rintro ⟨i, hi, -, hx, hv⟩
    by_cases h : i = ndx
    · subst h; rw [update_self] at hx hv; rw [if_pos hx.symm, hv]
    · rw [update_of_ne h] at hx hv
      rw [if_neg fun he => habs i hi h (hx.trans he)]
      exact ⟨i, hi, by simpa using h, hx, hv⟩
  · intro h
    split_ifs at h with hx
    · exact ⟨ndx, hndx, by simp, by rw [update_self, hx], by rw [update_self, h]⟩
    · obtain ⟨i, hi, hne, hix, hiv⟩ := h
      have hne' : i ≠ ndx := by simpa using hne
      exact ⟨i, hi, by simp, by rw [update_of_ne hne']; exact hix, by rw [update_of_ne hne']; exact hiv⟩

theorem occupied_update_unset (hndx : ndx < n) (hu : ¬ Occ T ndx) (hkey : c.h2 ≠ flaHtblEntryUnset) :
    occupied n (update T ndx c) = occupied n T + 1 := by
  have : (Finset.range n).filter (Occ (update T ndx c) ·) = insert ndx ((Finset.range n).filter (Occ T ·)) := by
    ext i
    rw [Finset.mem_insert, Finset.mem_filter, Finset.mem_filter, Finset.mem_range]
    by_cases h : i = ndx
    · subst h; simp [Occ, hkey, hndx]
    · simp [Occ, h]
  rw [occupied, this, Finset.card_insert_of_notMem (by simp [hu]), occupied]

theorem occupied_update_occ (ho : Occ T ndx) (hkey : c.h2 ≠ flaHtblEntryUnset) :
    occupied n (update T ndx c) = occupied n T := by
  have : (Finset.range n).filter (Occ (update T ndx c) ·) = (Finset.range n).filter (Occ T ·) := by
    refine Finset.filter_congr fun i _ => ?_
    by_cases h : i = ndx
    · subst h; simpa [Occ, hkey] using ho
    · simp [Occ, update_of_ne h]
  rw [occupied, this, occupied]

theorem holds_except {e x v : ℕ} (h : (T e).h2 ≠ x) : Holds n T (some e) x v ↔ Holds n T none x v := by
  refine ⟨fun ⟨i, hi, _, hxv⟩ => ⟨i, hi, by simp, hxv⟩, fun ⟨i, hi, _, hix, hiv⟩ => ⟨i, hi, ?_, hix, hiv⟩⟩
  rintro ⟨rfl⟩
  exact h hix

/-- placement does not read the values -/
theorem Placed.congr {T' : ℕ → HtblEntry} (hp : Placed hm n T)
    (hsame : ∀ i, (T' i).h2 = (T i).h2 ∧ (T' i).psl = (T i).psl) : Placed hm n T' := by
  have hocc : ∀ i, Occ T' i ↔ Occ T i := fun i => by unfold Occ; rw [(hsame i).1]
  refine ⟨fun i hi h => ?_, fun i hi h => ?_, fun i hi h => ?_, fun i hi h => ?_⟩
  · rw [(hsame i).2]; exact hp.unset i hi fun h' => h ((hocc i).2 h')
  · rw [(hsame i).2]; exact hp.psl_lt i hi ((hocc i).1 h)
  · rw [(hsame i).1, (hsame i).2]; exact hp.place i hi ((hocc i).1 h)
  · rw [(hsame _).2] at h
    rw [hocc, (hsame _).2, (hsame _).2]; exact hp.chain i hi h

theorem Distinct.congr {T' : ℕ → HtblEntry} (hd : Distinct n T none) (hsame : ∀ i, (T' i).h2 = (T i).h2) :
    Distinct n T' none := fun i hi j hj _ _ ho heq => by
  rw [hsame i, hsame j] at heq
  exact hd i hi j hj (by simp) (by simp) (by unfold Occ at ho ⊢; rwa [← hsame i]) heq

/-- the slot after an unset one holds an element at home, or none -/
theorem Placed.next_unset (hp : Placed hm n T) {i : ℕ} (hi : i < n) (hu : ¬ Occ T i) : (T (next n i)).psl = 0 := by
  by_contra hpos
  exact hu (hp.chain i hi (Nat.pos_of_ne_zero hpos)).1

/-- after a swap the displaced element is in hand, one slot further -/
theorem Carry.swap (hc : Carry hm n T ndx c) (hp : Placed hm n T) (hd : Distinct n T none) (hhm : ∀ x, hm x < n)
    (hndx : ndx < n) (ho : Occ T ndx) (hlt : c.psl < n) (h : (T ndx).psl < c.psl) :
    Carry hm n (update T ndx c) (next n ndx) { T ndx with psl := (T ndx).psl + 1 } := by
  have habs := hc.absent hp hhm (.inr h)
  refine ⟨ho, ?_, fun _ i hi hi' => ?_, fun i hi hi' => ?_⟩
  · rw [← next_pos (hhm _) (by omega), hp.place ndx hndx ho]
  · obtain rfl := next_inj hi'
    rw [update_self]
    exact ⟨by simpa [Occ] using hc.key, by simp only; omega⟩
  · by_cases h : i = ndx
    · subst h; rw [update_self] at hi'; exact absurd hi'.symm (habs i hi)
    · rw [update_of_ne h] at hi'
      exact absurd (hd ndx hndx i hi (by simp) (by simp) ho hi'.symm).symm h

/-- past a different key that is at least as far from home -/
theorem Carry.advance (hc : Carry hm n T ndx c) (hp : Placed hm n T) (hhm : ∀ x, hm x < n) (ho : Occ T ndx)
    (hlt : c.psl < n) (hpoor : ¬ (T ndx).psl < c.psl) (hkey : (T ndx).h2 ≠ c.h2) :
    Carry hm n T (next n ndx) { c with psl := c.psl + 1 } := by
  refine ⟨hc.key, ?_, fun _ i _ hi' => ?_, fun i hi hi' => ?_⟩
  · rw [← next_pos (hhm _) hlt, hc.at_ndx]
  · obtain rfl := next_inj hi'
    exact ⟨ho, by simp only; omega⟩
  · have hle := hc.fresh i hi hi'
    rcases Nat.lt_or_ge c.psl (T i).psl with h | h
    · exact h
    · -- at the same distance it would be the slot just passed
      have hoi : Occ T i := by unfold Occ; rw [hi']; exact hc.key
      have hpl := hp.place i hi hoi
      rw [hi', show (T i).psl = c.psl by omega, hc.at_ndx] at hpl
      exact absurd (hpl ▸ hi') hkey

/-- **Insert.** With an unset slot `m` steps ahead the loop ends, and leaves a Robin Hood table with the element in
hand added, or its value replaced. -/
theorem insertLoop_spec (hn : n ≤ 2 ^ 16) (hhm : ∀ x, hm x < n) (fuel m : ℕ) (hp : Placed hm n T)
    (hd : Distinct n T none) (hc : Carry hm n T ndx c) (hndx : ndx < n) (hu : ¬ Occ T (pos n ndx m))
    (hroom : c.psl + m < n) (hfuel : m < fuel) :
    ∃ T' new, htblInsertLoop n fuel T ndx c = .ok (T', new) ∧ RobinHood hm n T' ∧
      occupied n T' = occupied n T + (if new then 1 else 0) ∧
      ∀ x v, x ≠ flaHtblEntryUnset →
        (Holds n T' none x v ↔ if x = c.h2 then v = c.val else Holds n T none x v) := by
  induction fuel generalizing T ndx c m with
  | zero => omega
  | succ fuel ih =>
    have hu16 : ∀ k, k < n → u16 k = k := fun k hk => Nat.mod_eq_of_lt (hk.trans_le hn)
    unfold htblInsertLoop
    by_cases h1 : (T ndx).h2 = flaHtblEntryUnset
    · have hno : ¬ Occ T ndx := by simpa [Occ] using h1
      have habs := hc.absent hp hhm (.inl hno)
      refine ⟨_, _, by rw [if_pos h1], ⟨hc.placed hp (by omega) (.inl hno), distinct_update hd habs,
        next n ndx, next_lt hndx, ?_⟩, by rw [occupied_update_unset hndx hno hc.key]; rfl, fun x v hx => ?_⟩
      · -- the slot after the unset one stays at home
        by_cases hs : next n ndx = ndx
        · have := next_eq_self hs
          rw [hs, update_self]; omega
        · rw [update_of_ne hs]; exact hp.next_unset hndx hno
      · rw [holds_update (fun i hi _ => habs i hi) hndx, holds_except (h1 ▸ hx.symm)]
    · have ho : Occ T ndx := h1
      -- the unset slot lies ahead
      obtain ⟨m, rfl⟩ : ∃ k, m = k + 1 := by
        cases m with
        | zero => rw [pos_zero hndx] at hu; exact absurd ho hu
        | succ k => exact ⟨k, rfl⟩
      have hune : pos n ndx (m + 1) ≠ ndx := fun h => hu (by rw [h]; exact ho)
      have hunext : pos n (next n ndx) m = pos n ndx (m + 1) := pos_next (by omega)
      rw [if_neg h1]
      by_cases h2 : (T ndx).psl < c.psl
      · have habs := hc.absent hp hhm (.inr h2)
        obtain ⟨T', new, hrun, hrh, hocc, hholds⟩ := ih m (hc.placed hp (by omega) (.inr h2)) (distinct_update hd habs)
          (hc.swap hp hd hhm hndx ho (by omega) h2) (next_lt hndx)
          (by rw [hunext]; simpa [Occ, update_of_ne hune] using hu) (by simp only; omega) (by omega)
        refine ⟨T', new, by rw [if_pos h2, hu16 _ (by omega)]; exact hrun, hrh,
          by rw [hocc, occupied_update_occ ho hc.key], fun x v hx => ?_⟩
        rw [hholds x v hx, holds_update (fun i hi _ => habs i hi) hndx]
        by_cases hxo : x = (T ndx).h2
        · -- the displaced key keeps its value
          rw [if_pos hxo, if_neg fun h => habs ndx hndx (hxo.symm.trans h)]
          refine ⟨fun hv => ⟨ndx, hndx, by simp, hxo.symm, hv.symm⟩, fun ⟨i, hi, _, hix, hiv⟩ => ?_⟩
          rw [hd ndx hndx i hi (by simp) (by simp) ho (hxo.symm.trans hix.symm), hiv]
        · rw [if_neg hxo, holds_except (Ne.symm hxo)]
      · rw [if_neg h2]
        by_cases h3 : (T ndx).h2 = c.h2
        · -- the key itself: only its value changes
          set c' : HtblEntry := { T ndx with val := c.val } with hc'
          have hsame : ∀ i, (update T ndx c' i).h2 = (T i).h2 ∧ (update T ndx c' i).psl = (T i).psl := fun i => by
            by_cases h : i = ndx
            · subst h; rw [update_self]; exact ⟨rfl, rfl⟩
            · rw [update_of_ne h]; exact ⟨rfl, rfl⟩
          have hlt : pos n ndx (m + 1) < n := pos_lt hndx (by omega)
          refine ⟨update T ndx c', false, by rw [if_pos h3], ⟨hp.congr hsame, hd.congr fun i => (hsame i).1,
            next n (pos n ndx (m + 1)), next_lt hlt, ?_⟩, occupied_update_occ ho h1, fun x v hx => ?_⟩
          · rw [(hsame _).2]; exact hp.next_unset hlt hu
          · have hdist : ∀ i < n, i ≠ ndx → (T i).h2 ≠ c'.h2 := fun i hi hne he =>
              hne (hd ndx hndx i hi (by simp) (by simp) ho he.symm).symm
            rw [holds_update hdist hndx, show c'.h2 = c.h2 from h3]
            by_cases hxc : x = c.h2
            · rw [if_pos hxc, if_pos hxc]
            · rw [if_neg hxc, if_neg hxc, holds_except fun h => hxc (h.symm.trans h3)]
        · rw [if_neg h3, hu16 _ (by omega)]
          exact ih m hp hd (hc.advance hp hhm ho (by omega) h2 h3) (next_lt hndx) (by rw [hunext]; exact hu)
            (by simp only; omega) (by omega)

/-- **Insert of a present key.** The probe comes to the slot that holds the key before any unset slot or richer element,
and writes the value there. -/
theorem insertLoop_present (hn : n ≤ 2 ^ 16) (hhm : ∀ x, hm x < n) (hp : Placed hm n T) (hd : Distinct n T none) {i : ℕ}
    (hi : i < n) (ho : Occ T i) (v d fuel : ℕ) (hle : d ≤ (T i).psl) (hfuel : d < fuel) :
    htblInsertLoop n fuel T (pos n (hm (T i).h2) ((T i).psl - d)) ⟨(T i).h2, v, (T i).psl - d⟩ =
      .ok (update T i { T i with val := v }, false) := by
  have hlt := hp.psl_lt i hi ho
  induction d generalizing fuel with
  | zero =>
    obtain ⟨fuel, rfl⟩ : ∃ k, fuel = k + 1 := ⟨fuel - 1, by omega⟩
    rw [Nat.sub_zero, hp.place i hi ho, htblInsertLoop]
    dsimp only
    rw [if_neg ho, if_neg (by omega), if_pos rfl]
  | succ d ih =>
    obtain ⟨fuel, rfl⟩ : ∃ k, fuel = k + 1 := ⟨fuel - 1, by omega⟩
    -- the slots before the key's are occupied by other keys, none of them richer
    obtain ⟨hocc, hpoor⟩ := hp.behind hhm hi ho (d + 1) hle
    have hslot : pos n (hm (T i).h2) ((T i).psl - (d + 1)) < n := pos_lt (hhm _) (by omega)
    have hother : (T (pos n (hm (T i).h2) ((T i).psl - (d + 1)))).h2 ≠ (T i).h2 := fun h => by
      have hsame := hd _ hslot i hi (by simp) (by simp) hocc h
      have hsteps := pos_inj (by omega) hlt (hsame.trans (hp.place i hi ho).symm)
      omega
    have hstep : (T i).psl - (d + 1) + 1 = (T i).psl - d := by omega
    rw [htblInsertLoop]
    dsimp only
    rw [if_neg hocc, if_neg (by omega), if_neg hother, next_pos (hhm _) (by omega), hstep,
      u16, Nat.mod_eq_of_lt (by omega)]
    exact ih fuel (by omega) (by omega)

/-! ## Remove -/

theorem clear_robinHood {e : ℕ} (hp : Placed hm n T) (hd : Distinct n T (some e)) (h0 : (T (next n e)).psl = 0)
    (he : e < n) : RobinHood hm n (update T e { T e with h2 := flaHtblEntryUnset, psl := 0 }) := by
  set c : HtblEntry := { T e with h2 := flaHtblEntryUnset, psl := 0 }
  have hno : ¬ Occ (update T e c) e := by simp [Occ, c]
  have hoff : ∀ i, i ≠ e → update T e c i = T i := fun i hi => update_of_ne hi _ _
  have hocc : ∀ i, Occ (update T e c) i → i ≠ e ∧ Occ T i := fun i h => by
    have hi : i ≠ e := fun h' => hno (h' ▸ h)
    exact ⟨hi, by unfold Occ at h ⊢; rwa [hoff i hi] at h⟩
  refine ⟨⟨fun i hi h => ?_, fun i hi h => ?_, fun i hi h => ?_, fun i hi h => ?_⟩,
    fun i hi j hj _ _ ho heq => ?_, e, he, by rw [update_self]⟩
  · by_cases hie : i = e
    · rw [hie, update_self]
    · rw [hoff i hie]; exact hp.unset i hi fun h' => h (by unfold Occ; rw [hoff i hie]; exact h')
  · rw [hoff i (hocc i h).1]; exact hp.psl_lt i hi (hocc i h).2
  · rw [hoff i (hocc i h).1]; exact hp.place i hi (hocc i h).2
  · by_cases hn : next n i = e
    · rw [hn, update_self] at h; exact absurd h (by simp [c])
    · rw [hoff _ hn] at h ⊢
      have hie : i ≠ e := by rintro rfl; omega
      unfold Occ
      rw [hoff i hie]; exact hp.chain i hi h
  · obtain ⟨hie, hoi⟩ := hocc i ho
    have hje : j ≠ e := by
      rintro rfl
      unfold Occ at ho
      rw [heq, update_self] at ho
      exact ho rfl
    rw [hoff i hie, hoff j hje] at heq
    exact hd i hi j hj (by simpa using hie) (by simpa using hje) hoi heq

theorem clear_occupied {e : ℕ} (he : e < n) (ho : Occ T e) :
    occupied n (update T e { T e with h2 := flaHtblEntryUnset, psl := 0 }) + 1 = occupied n T := by
  have : (Finset.range n).filter (Occ T ·) = insert e ((Finset.range n).filter
      (Occ (update T e { T e with h2 := flaHtblEntryUnset, psl := 0 }) ·)) := by
    ext i
    rw [Finset.mem_insert, Finset.mem_filter, Finset.mem_filter, Finset.mem_range]
    by_cases h : i = e
    · subst h; simp [he, ho]
    · simp [Occ, h]
  rw [occupied, occupied, this, Finset.card_insert_of_notMem]
  rw [Finset.mem_filter]
  simp [Occ]

theorem clear_holds {e x v : ℕ} (hx : x ≠ flaHtblEntryUnset) :
    Holds n (update T e { T e with h2 := flaHtblEntryUnset, psl := 0 }) none x v ↔ Holds n T (some e) x v := by
  constructor
  · rintro ⟨i, hi, -, hix, hiv⟩
    have hie : i ≠ e := by rintro rfl; rw [update_self] at hix; exact hx hix.symm
    rw [update_of_ne hie] at hix hiv
    exact ⟨i, hi, by simpa using hie, hix, hiv⟩
  · rintro ⟨i, hi, hne, hix, hiv⟩
    have hie : i ≠ e := by simpa using hne
    exact ⟨i, hi, by simp, by rw [update_of_ne hie]; exact hix, by rw [update_of_ne hie]; exact hiv⟩

/-- moving the element after `e` back into `e` keeps every element well placed -/
theorem shift_placed {e : ℕ} (hp : Placed hm n T) (he : e < n) (hhm : ∀ x, hm x < n) (hoN : Occ T (next n e))
    (h0 : (T (next n e)).psl ≠ 0) :
    Placed hm n (update T e { T (next n e) with psl := (T (next n e)).psl - 1 }) := by
  set c : HtblEntry := { T (next n e) with psl := (T (next n e)).psl - 1 }
  have hoc : Occ (update T e c) e := by simpa [Occ, c] using hoN
  have hoff : ∀ i, i ≠ e → update T e c i = T i := fun i hi => update_of_ne hi _ _
  have hocc : ∀ i, i ≠ e → (Occ (update T e c) i ↔ Occ T i) := fun i hi => by unfold Occ; rw [hoff i hi]
  have hle : (T (next n e)).psl ≤ (T e).psl + 1 := (hp.chain e he (by omega)).2
  have hpl := hp.place _ (next_lt he) hoN
  have hlt := hp.psl_lt _ (next_lt he) hoN
  refine ⟨fun i hi h => ?_, fun i hi h => ?_, fun i hi h => ?_, fun i hi h => ?_⟩
  · have hie : i ≠ e := by rintro rfl; exact h hoc
    rw [hoff i hie]; exact hp.unset i hi fun h' => h ((hocc i hie).2 h')
  · by_cases hie : i = e
    · rw [hie, update_self]; exact (Nat.sub_le _ _).trans_lt hlt
    · rw [hoff i hie]; exact hp.psl_lt i hi ((hocc i hie).1 h)
  · by_cases hie : i = e
    · rw [hie, update_self]
      refine next_inj (n := n) ?_
      rw [next_pos (hhm _) (by simp only [c]; omega), show c.psl + 1 = (T (next n e)).psl by simp only [c]; omega]
      exact hpl
    · rw [hoff i hie]; exact hp.place i hi ((hocc i hie).1 h)
  · by_cases hn : next n i = e
    · -- the moved element is no farther from home than the one it replaces
      rw [hn, update_self] at h ⊢
      have hi' := hp.chain i hi (by rw [hn]; simp only [c] at h; omega)
      rw [hn] at hi'
      by_cases hie : i = e
      · rw [hie, update_self]; exact ⟨hoc, by omega⟩
      · rw [hocc i hie, hoff i hie]; exact ⟨hi'.1, by simp only [c]; omega⟩
    · rw [hoff _ hn] at h ⊢
      by_cases hie : i = e
      · subst hie; rw [update_self]; exact ⟨hoc, by simp only [c]; omega⟩
      · rw [hocc i hie, hoff i hie]; exact hp.chain i hi h

theorem shift_distinct {e : ℕ} (hd : Distinct n T (some e)) (he : e < n) (hne : next n e ≠ e) :
    Distinct n (update T e { T (next n e) with psl := (T (next n e)).psl - 1 }) (some (next n e)) := by
  -- slot `e` now stands for the slot after it
  intro i hi j hj hin hjn ho heq
  have hin' : i ≠ next n e := by simpa using hin
  have hjn' : j ≠ next n e := by simpa using hjn
  have hnx := next_lt he
  by_cases h1 : i = e <;> by_cases h2 : j = e
  · rw [h1, h2]
  · rw [h1, update_self, update_of_ne h2] at heq
    rw [h1] at ho
    exact absurd (hd _ hnx j hj (by simpa using hne) (by simpa using h2) (by simpa [Occ] using ho) heq) (Ne.symm hjn')
  · rw [h2, update_self, update_of_ne h1] at heq
    exact absurd (hd i hi _ hnx (by simpa using h1) (by simpa using hne) (by simpa [Occ, update_of_ne h1] using ho) heq)
      hin'
  · rw [update_of_ne h1, update_of_ne h2] at heq
    exact hd i hi j hj (by simpa using h1) (by simpa using h2) (by simpa [Occ, update_of_ne h1] using ho) heq

theorem shift_home {e z : ℕ} (hp : Placed hm n T) (he : e < n) (h0 : (T (next n e)).psl ≠ 0) (hz : (T z).psl = 0) :
    (update T e { T (next n e) with psl := (T (next n e)).psl - 1 } z).psl = 0 := by
  by_cases h : z = e
  · subst h
    have := (hp.chain z he (by omega)).2
    rw [update_self]; simp only; omega
  · rw [update_of_ne h]; exact hz

theorem shift_holds {e x v : ℕ} (he : e < n) (hne : next n e ≠ e) :
    Holds n (update T e { T (next n e) with psl := (T (next n e)).psl - 1 }) (some (next n e)) x v ↔
      Holds n T (some e) x v := by
  constructor
  · rintro ⟨i, hi, hin, hix, hiv⟩
    by_cases h : i = e
    · subst h; rw [update_self] at hix hiv
      exact ⟨next n i, next_lt he, by simpa using hne, hix, hiv⟩
    · rw [update_of_ne h] at hix hiv
      exact ⟨i, hi, by simpa using h, hix, hiv⟩
  · rintro ⟨i, hi, hie, hix, hiv⟩
    have hie' : i ≠ e := by simpa using hie
    by_cases h : i = next n e
    · subst h
      exact ⟨e, he, by simpa using Ne.symm hne, by rw [update_self]; exact hix, by rw [update_self]; exact hiv⟩
    · exact ⟨i, hi, by simpa using h, by rw [update_of_ne hie']; exact hix, by rw [update_of_ne hie']; exact hiv⟩

/-- **Remove.** The elements after slot `e` move back by one until one is at home; what is left is a Robin Hood table
with the contents of all slots but `e`. -/
theorem removeLoop_spec (hhm : ∀ x, hm x < n) (fuel m : ℕ) {e : ℕ} (hp : Placed hm n T)
    (hd : Distinct n T (some e)) (he : e < n) (ho : Occ T e) (hz : (T (pos n (next n e) m)).psl = 0) (hm' : m < n)
    (hfuel : m < fuel) :
    ∃ T', htblRemoveLoop n fuel T e = .ok T' ∧ RobinHood hm n T' ∧ occupied n T' + 1 = occupied n T ∧
      ∀ x v, x ≠ flaHtblEntryUnset → (Holds n T' none x v ↔ Holds n T (some e) x v) := by
  induction fuel generalizing T e m with
  | zero => omega
  | succ fuel ih =>
    have hnx := next_lt he
    unfold htblRemoveLoop
    by_cases h0 : (T (next n e)).psl = 0
    · refine ⟨_, by rw [if_pos h0], clear_robinHood hp hd h0 he, clear_occupied he ho, fun x v hx => clear_holds hx⟩
    · -- the element after `e` moves back into the hole, which moves on
      have hoN : Occ T (next n e) := by
        by_contra hno
        exact h0 (hp.unset _ hnx hno)
      have hne : next n e ≠ e := fun h => by
        have := next_eq_self h
        have := hp.psl_lt _ hnx hoN
        omega
      obtain ⟨m, rfl⟩ : ∃ k, m = k + 1 := by
        cases m with
        | zero => rw [pos_zero hnx] at hz; exact absurd hz h0
        | succ k => exact ⟨k, rfl⟩
      have hz' : (T (pos n (next n (next n e)) m)).psl = 0 := by rw [pos_next (by omega)]; exact hz
      obtain ⟨T', hrun, hrh, hocc, hholds⟩ := ih m (shift_placed hp he hhm hoN h0)
        (shift_distinct hd he hne) hnx
        (by simpa [Occ, update_of_ne hne] using hoN) (shift_home hp he h0 hz') (by omega) (by omega)
      refine ⟨T', by rw [if_neg h0]; exact hrun, hrh, hocc.trans (occupied_update_occ ho hoN), fun x v hx => ?_⟩
      rw [hholds x v hx, shift_holds he hne]

end Placement

end FlexAlloc
