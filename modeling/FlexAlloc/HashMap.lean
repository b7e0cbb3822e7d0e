/-
The hash table is a finite map.

`lastInserted hist k` reads the map off a history of calls and their return values: the value of the last insert of `k`
that returned 0, unless a remove of `k` came after it. `Refines H S n t m` relates a table to such a map: the table is
a Robin Hood table, every stored secondary hash is that of a key of `S`, and the slots hold exactly the map. The home
slot of a stored hash is that of its key (`homeOf`), which is well defined because the secondary hash is injective on
the keys in use.

- `insert_refines`, `remove_refines`: each call keeps the relation.
- `htbl_implements_map`: for every sequence of calls on a fresh table, lookups, length and return values are those of
  the map.
- `htbl_update_iff`: an insert of a present key changes its value and nothing else, unless the table is full.
  `update_refused`: the test for a full table comes first, and refuses the update.
-/
import FlexAlloc.Hash

namespace FlexAlloc

open FlexAlloc.Core Function

/-- a call on the table -/
inductive HtblOp (κ : Type) where
  | insert (key : κ) (val : ℕ)
  | remove (key : κ)
deriving DecidableEq

namespace HtblOp

variable {κ : Type}

def key : HtblOp κ → κ
  | .insert k _ => k
  | .remove k => k

end HtblOp

section Map

variable {κ : Type}

/-- one call and what it returns; `htbl_remove` returns nothing, written 0 -/
def htblStep (H : Hashing κ) (t : Htbl) : HtblOp κ → Ret (ℤ × Htbl)
  | .insert k v => htblInsert H t k v
  | .remove k => do .ok (0, ← htblRemove H t k)

/-- a sequence of calls: the history of calls with their return values, and the table left -/
def htblRun (H : Hashing κ) : Htbl → List (HtblOp κ) → Ret (List (HtblOp κ × ℤ) × Htbl)
  | t, [] => .ok ([], t)
  | t, op :: ops => do
    let (r, t') ← htblStep H t op
    let (hist, t'') ← htblRun H t' ops
    .ok ((op, r) :: hist, t'')

variable [DecidableEq κ]

/-- what one call with return value `r` does to the map -/
def recordOp (m : κ → Option ℕ) : HtblOp κ × ℤ → κ → Option ℕ
  | (.insert k v, r) => if r = 0 then update m k (some v) else m
  | (.remove k, _) => update m k none

/-- the value of the last insert of a key that returned 0 and was not followed by a remove of it -/
def lastInserted (hist : List (HtblOp κ × ℤ)) : κ → Option ℕ := hist.foldl recordOp fun _ => none

/-- the table after `ops` answers as the map: lookups, the length, the return value of a further insert, and a further
remove of an absent key -/
def ImplementsMap (H : Hashing κ) (S : Set κ) (n : ℕ) (ops : List (HtblOp κ)) : Prop :=
  ∃ hist t, htblRun H (htblInit n) ops = .ok (hist, t) ∧ hist.map Prod.fst = ops ∧
    (∀ k ∈ S, match lastInserted hist k with
      | some v => ∃ i < n, htblLookup H t k = .ok (some i) ∧ (t.tbl i).h2 = H.h2 k ∧ (t.tbl i).val = v
      | none => htblLookup H t k = .ok none) ∧
    t.len = occupied n t.tbl ∧ t.len = {k | lastInserted hist k ≠ none}.ncard ∧
    (∀ k ∈ S, ∀ v, ∃ r t', htblInsert H t k v = .ok (r, t') ∧ if t.len = n then r = 2 ∧ t' = t else r = 0) ∧
    ∀ k ∈ S, lastInserted hist k = none → htblRemove H t k = .ok t

/-! ## The relation -/

open Classical in
/-- the home slot of the key with secondary hash `x` -/
noncomputable def homeOf (H : Hashing κ) (S : Set κ) (n x : ℕ) : ℕ :=
  if h : ∃ k ∈ S, H.h2 k = x then flaHtblCompress (H.h1 h.choose) n else 0

structure Refines (H : Hashing κ) (S : Set κ) (n : ℕ) (t : Htbl) (m : κ → Option ℕ) : Prop where
  size : t.tblSize = n
  table : RobinHood (homeOf H S n) n t.tbl
  len : t.len = occupied n t.tbl
  keys : ∀ i < n, Occ t.tbl i → ∃ k ∈ S, H.h2 k = (t.tbl i).h2
  map : ∀ k ∈ S, ∀ v, m k = some v ↔ Holds n t.tbl none (H.h2 k) v
  dom : ∀ k, m k ≠ none → k ∈ S

variable {H : Hashing κ} {S : Set κ} {n : ℕ} {t : Htbl} {m : κ → Option ℕ}

omit [DecidableEq κ] in
theorem homeOf_lt (hn : 1 ≤ n) (x : ℕ) : homeOf H S n x < n := by
  unfold homeOf
  split_ifs
  · exact Nat.mod_lt _ hn
  · exact hn

omit [DecidableEq κ] in
theorem homeOf_h2 (hinj : Set.InjOn H.h2 S) {k : κ} (hk : k ∈ S) :
    homeOf H S n (H.h2 k) = flaHtblCompress (H.h1 k) n := by
  have hex : ∃ k' ∈ S, H.h2 k' = H.h2 k := ⟨k, hk, rfl⟩
  rw [homeOf, dif_pos hex, hinj hex.choose_spec.1 hk hex.choose_spec.2]

omit [DecidableEq κ] in
theorem init_refines (hn : 1 ≤ n) (hunset : ∀ k ∈ S, H.h2 k ≠ flaHtblEntryUnset) :
    Refines H S n (htblInit n) fun _ => none := by
  have hno : ∀ i, ¬ Occ (htblInit n).tbl i := fun i h => h rfl
  refine ⟨rfl, ⟨⟨fun _ _ _ => rfl, fun i _ h => absurd h (hno i), fun i _ h => absurd h (hno i), fun i _ h => ?_⟩,
    fun i _ _ _ _ _ h => absurd h (hno i), 0, hn, rfl⟩, ?_, fun i _ h => absurd h (hno i), fun k hk v => ?_,
    fun k h => absurd rfl h⟩
  · exact absurd h (Nat.lt_irrefl 0)
  · rw [occupied, Finset.filter_false_of_mem fun i _ => hno i]; rfl
  · constructor
    · intro h
      exact absurd h (by simp)
    · rintro ⟨i, -, -, hx, -⟩
      exact absurd hx.symm (hunset k hk)

omit [DecidableEq κ] in
theorem Refines.lookup_loop (hr : Refines H S n t m) (hn : 1 ≤ n) (hinj : Set.InjOn H.h2 S)
    (hunset : ∀ k ∈ S, H.h2 k ≠ flaHtblEntryUnset) {k : κ} (hk : k ∈ S) :
    (∃ i < n, htblLookupLoop t.tbl n (H.h2 k) (n + 1) (flaHtblCompress (H.h1 k) n) 0 = .ok (some i) ∧
        (t.tbl i).h2 = H.h2 k) ∨
      (htblLookupLoop t.tbl n (H.h2 k) (n + 1) (flaHtblCompress (H.h1 k) n) 0 = .ok none ∧
        ∀ i < n, (t.tbl i).h2 ≠ H.h2 k) := by
  have hhm : ∀ x, homeOf H S n x < n := homeOf_lt hn
  have hspec := lookupLoop_spec hr.table.placed hhm (hunset k hk) (n + 1) 0 (Nat.zero_le _) (by omega)
    (fun _ _ _ => Nat.zero_le _)
  rwa [pos_zero (hhm _), homeOf_h2 hinj hk] at hspec

omit [DecidableEq κ] in
theorem Refines.lookup_eq (hr : Refines H S n t m) (hn : 1 ≤ n) (hn' : n ≤ 2 ^ 16) {k : κ} {e : Option ℕ}
    (hres : htblLookupLoop t.tbl n (H.h2 k) (n + 1) (flaHtblCompress (H.h1 k) n) 0 = .ok e) :
    htblLookup H t k = .ok e := by
  rw [htblLookup, hr.size, if_neg (by omega)]
  exact htblLookupLoop_mono hres (by omega)

omit [DecidableEq κ] in
theorem Refines.lookup (hr : Refines H S n t m) (hn : 1 ≤ n) (hn' : n ≤ 2 ^ 16) (hinj : Set.InjOn H.h2 S)
    (hunset : ∀ k ∈ S, H.h2 k ≠ flaHtblEntryUnset) {k : κ} (hk : k ∈ S) :
    (∃ i < n, htblLookup H t k = .ok (some i) ∧ (t.tbl i).h2 = H.h2 k ∧ m k = some (t.tbl i).val) ∨
      (htblLookup H t k = .ok none ∧ m k = none ∧ ∀ i < n, (t.tbl i).h2 ≠ H.h2 k) := by
  rcases hr.lookup_loop hn hinj hunset hk with ⟨i, hi, hres, hkey⟩ | ⟨hres, habs⟩
  · exact .inl ⟨i, hi, hr.lookup_eq hn hn' hres, hkey, (hr.map k hk _).2 ⟨i, hi, by simp, hkey, rfl⟩⟩
  · refine .inr ⟨hr.lookup_eq hn hn' hres, ?_, habs⟩
    by_contra hsome
    obtain ⟨v, hv⟩ := Option.ne_none_iff_exists'.1 hsome
    obtain ⟨i, hi, -, hx, -⟩ := (hr.map k hk v).1 hv
    exact habs i hi hx

omit [DecidableEq κ] in
theorem Refines.live_key (hr : Refines H S n t m) {i : ℕ} (hi : i < n) (ho : Occ t.tbl i) :
    ∃ k ∈ S, m k = some (t.tbl i).val ∧ H.h2 k = (t.tbl i).h2 := by
  obtain ⟨k, hk, hkey⟩ := hr.keys i hi ho
  exact ⟨k, hk, (hr.map k hk _).2 ⟨i, hi, by simp, hkey.symm, rfl⟩, hkey⟩

omit [DecidableEq κ] in
/-- only the keys that are live matter: the table refines the map over every other set of keys that holds them -/
theorem Refines.rebase {S' : Set κ} (hr : Refines H S n t m) (hinj : Set.InjOn H.h2 S) (hinj' : Set.InjOn H.h2 S')
    (hunset : ∀ k ∈ S', H.h2 k ≠ flaHtblEntryUnset) (hsub : ∀ k, m k ≠ none → k ∈ S') : Refines H S' n t m := by
  have hlive : ∀ k v, m k = some v → k ∈ S' := fun k v h => hsub k (by rw [h]; simp)
  refine ⟨hr.size, ⟨⟨hr.table.placed.unset, hr.table.placed.psl_lt, fun i hi ho => ?_, hr.table.placed.chain⟩,
    hr.table.distinct, hr.table.home⟩, hr.len, fun i hi ho => ?_, fun k hk v => ⟨fun h => ?_, ?_⟩, hsub⟩
  · obtain ⟨k, hk, hm, hkey⟩ := hr.live_key hi ho
    have hplace := hr.table.placed.place i hi ho
    rw [← hkey, homeOf_h2 hinj hk] at hplace
    rw [← hkey, homeOf_h2 hinj' (hlive k _ hm)]
    exact hplace
  · obtain ⟨k, -, hm, hkey⟩ := hr.live_key hi ho
    exact ⟨k, hlive k _ hm, hkey⟩
  · exact (hr.map k (hr.dom k (by rw [h]; simp)) v).1 h
  · rintro ⟨i, hi, -, hx, hv⟩
    have ho : Occ t.tbl i := by
      unfold Occ
      rw [hx]
      exact hunset k hk
    obtain ⟨k', -, hm, hkey⟩ := hr.live_key hi ho
    obtain rfl : k' = k := hinj' (hlive k' _ hm) hk (hkey.trans hx)
    rw [hm, hv]

omit [DecidableEq κ] in
theorem Refines.exists_unset (hr : Refines H S n t m) (hfull : t.len ≠ n) : ∃ i < n, ¬ Occ t.tbl i := by
  by_contra hall
  push Not at hall
  have : occupied n t.tbl = n := by
    rw [occupied, Finset.filter_true_of_mem fun i hi => hall i (Finset.mem_range.1 hi), Finset.card_range]
  exact hfull (hr.len.trans this)

omit [DecidableEq κ] in
theorem Refines.len_le (hr : Refines H S n t m) : t.len ≤ n := by
  rw [hr.len, occupied]
  exact (Finset.card_filter_le _ _).trans (Finset.card_range n).le

omit [DecidableEq κ] in
/-- unless the table is full, the loop of an insert ends within as many probes as there are slots -/
theorem Refines.insert_loop (hr : Refines H S n t m) (hn : 1 ≤ n) (hn' : n ≤ 2 ^ 16) (hinj : Set.InjOn H.h2 S)
    (hunset : ∀ k ∈ S, H.h2 k ≠ flaHtblEntryUnset) {k : κ} (hk : k ∈ S) (hfull : t.len ≠ n) (v : ℕ) :
    ∃ T' new, htblInsertLoop n n t.tbl (flaHtblCompress (H.h1 k) n) ⟨H.h2 k, v, 0⟩ = .ok (T', new) ∧
      RobinHood (homeOf H S n) n T' ∧ occupied n T' = occupied n t.tbl + (if new then 1 else 0) ∧
      ∀ x w, x ≠ flaHtblEntryUnset →
        (Holds n T' none x w ↔ if x = H.h2 k then w = v else Holds n t.tbl none x w) := by
  obtain ⟨u, hu, hno⟩ := hr.exists_unset hfull
  have hlt : flaHtblCompress (H.h1 k) n < n := Nat.mod_lt _ hn
  obtain ⟨p, hp, hpu⟩ := exists_pos hlt hu
  have hcarry : Carry (homeOf H S n) n t.tbl (flaHtblCompress (H.h1 k) n) ⟨H.h2 k, v, 0⟩ :=
    ⟨hunset k hk, by rw [homeOf_h2 hinj hk, pos_zero hlt], fun h => absurd h (Nat.lt_irrefl 0),
      fun _ _ _ => Nat.zero_le _⟩
  exact insertLoop_spec hn' (homeOf_lt hn) n p hr.table.placed hr.table.distinct hcarry hlt (by rw [hpu]; exact hno)
    (by simpa using hp) hp

omit [DecidableEq κ] in
theorem Refines.insert_eq (hr : Refines H S n t m) (hn : 1 ≤ n) (hfull : t.len ≠ n) {k : κ} {v : ℕ}
    {T' : ℕ → HtblEntry} {new : Bool}
    (hrun : htblInsertLoop n n t.tbl (flaHtblCompress (H.h1 k) n) ⟨H.h2 k, v, 0⟩ = .ok (T', new)) :
    htblInsert H t k v = .ok (0, { t with tbl := T', len := if new then u32 (t.len + 1) else t.len }) := by
  rw [htblInsert, hr.size, if_neg (by omega), if_neg hfull, htblInsertLoop_mono hrun (by omega)]
  rfl

/-- **Insert keeps the relation**; it returns 2 and changes nothing exactly when the table is full. -/
theorem insert_refines (hr : Refines H S n t m) (hn : 1 ≤ n) (hn' : n ≤ 2 ^ 16) (hinj : Set.InjOn H.h2 S)
    (hunset : ∀ k ∈ S, H.h2 k ≠ flaHtblEntryUnset) {k : κ} (hk : k ∈ S) (v : ℕ) :
    ∃ r t', htblInsert H t k v = .ok (r, t') ∧ (if t.len = n then r = 2 ∧ t' = t else r = 0) ∧
      Refines H S n t' (recordOp m (.insert k v, r)) := by
  by_cases hfull : t.len = n
  · refine ⟨2, t, ?_, by rw [if_pos hfull]; exact ⟨rfl, rfl⟩, hr⟩
    rw [htblInsert, hr.size, if_neg (by omega), if_pos hfull]
  obtain ⟨T', new, hrun, hrh, hocc, hholds⟩ := hr.insert_loop hn hn' hinj hunset hk hfull v
  refine ⟨0, _, hr.insert_eq hn hfull hrun, by rw [if_neg hfull],
    hr.size, hrh, ?_, fun i hi ho => ?_, fun k' hk' w => ?_, fun k' h => ?_⟩
  · have := hr.len_le
    simp only
    rw [hocc, ← hr.len]
    split_ifs
    · exact u32_of_lt (by omega)
    · rfl
  · -- an occupied slot holds the new key or an old one
    have hin := (hholds (T' i).h2 (T' i).val ho).1 ⟨i, hi, by simp, rfl, rfl⟩
    split_ifs at hin with hx
    · exact ⟨k, hk, hx.symm⟩
    · obtain ⟨j, hj, -, hjx, -⟩ := hin
      have hoj : Occ t.tbl j := by unfold Occ; rw [hjx]; exact ho
      rw [← hjx]; exact hr.keys j hj hoj
  · rw [hholds (H.h2 k') w (hunset k' hk')]
    simp only [recordOp, if_true]
    by_cases hkk : k' = k
    · subst hkk; rw [update_self, if_pos rfl, Option.some.injEq, eq_comm]
    · rw [update_of_ne hkk, if_neg fun h => hkk (hinj hk' hk h)]; exact hr.map k' hk' w
  · simp only [recordOp, if_true] at h
    by_cases hkk : k' = k
    · rw [hkk]; exact hk
    · rw [update_of_ne hkk] at h; exact hr.dom k' h

omit [DecidableEq κ] in
theorem Refines.remove_loop (hr : Refines H S n t m) (hn : 1 ≤ n) (hunset : ∀ k ∈ S, H.h2 k ≠ flaHtblEntryUnset) {k : κ}
    (hk : k ∈ S) {e : ℕ} (he : e < n) (hkey : (t.tbl e).h2 = H.h2 k) :
    ∃ T', htblRemoveLoop n n t.tbl e = .ok T' ∧ RobinHood (homeOf H S n) n T' ∧
      occupied n T' + 1 = occupied n t.tbl ∧
      ∀ x v, x ≠ flaHtblEntryUnset → (Holds n T' none x v ↔ Holds n t.tbl (some e) x v) := by
  have ho : Occ t.tbl e := by unfold Occ; rw [hkey]; exact hunset k hk
  obtain ⟨z, hz, hz0⟩ := hr.table.home
  obtain ⟨p, hp, hpz⟩ := exists_pos (next_lt he) hz
  have hd : Distinct n t.tbl (some e) := fun i hi j hj _ _ => hr.table.distinct i hi j hj (by simp) (by simp)
  exact removeLoop_spec (homeOf_lt hn) n p hr.table.placed hd he ho (by rw [hpz]; exact hz0) hp hp

omit [DecidableEq κ] in
theorem Refines.remove_eq (hr : Refines H S n t m) {k : κ} {e : ℕ} {T' : ℕ → HtblEntry}
    (hfound : htblLookup H t k = .ok (some e)) (hrun : htblRemoveLoop n n t.tbl e = .ok T') :
    htblRemove H t k = .ok { t with tbl := T', len := sub32 t.len 1 } := by
  rw [htblRemove, hfound, hr.size]
  simp only [bind, Except.bind, htblRemoveLoop_mono hrun (show n ≤ 2 ^ 16 * n by omega)]

/-- **Remove keeps the relation**; removing an absent key changes nothing. -/
theorem remove_refines (hr : Refines H S n t m) (hn : 1 ≤ n) (hn' : n ≤ 2 ^ 16) (hinj : Set.InjOn H.h2 S)
    (hunset : ∀ k ∈ S, H.h2 k ≠ flaHtblEntryUnset) {k : κ} (hk : k ∈ S) :
    ∃ t', htblRemove H t k = .ok t' ∧ (m k = none → t' = t) ∧ Refines H S n t' (update m k none) := by
  rcases hr.lookup hn hn' hinj hunset hk with ⟨e, he, hres, hkey, hsome⟩ | ⟨hres, hnone, -⟩
  · obtain ⟨T', hrun, hrh, hocc, hholds⟩ := hr.remove_loop hn hunset hk he hkey
    have ho : Occ t.tbl e := by unfold Occ; rw [hkey]; exact hunset k hk
    have hlen := hr.len_le
    have hlen' := hr.len
    refine ⟨_, hr.remove_eq hres hrun, fun h => absurd (hsome.symm.trans h) (by simp), hr.size,
      hrh, ?_, fun i hi hoi => ?_, fun k' hk' w => ?_, fun k' h => ?_⟩
    · simp only
      rw [sub32_of_le (by omega) (by omega)]; omega
    · obtain ⟨j, hj, -, hjx, -⟩ := (hholds (T' i).h2 (T' i).val hoi).1 ⟨i, hi, by simp, rfl, rfl⟩
      have hoj : Occ t.tbl j := by unfold Occ; rw [hjx]; exact hoi
      simp only
      rw [← hjx]; exact hr.keys j hj hoj
    · simp only
      rw [hholds (H.h2 k') w (hunset k' hk')]
      by_cases hkk : k' = k
      · subst hkk
        rw [update_self]
        refine ⟨fun h => absurd h (by simp), fun ⟨i, hi, hne, hix, _⟩ => absurd ?_ hne⟩
        rw [hr.table.distinct e he i hi (by simp) (by simp) ho (hkey.trans hix.symm)]
      · rw [update_of_ne hkk, hr.map k' hk' w, holds_except fun h => hkk (hinj hk' hk (h.symm.trans hkey))]
    · by_cases hkk : k' = k
      · rw [hkk]; exact hk
      · rw [update_of_ne hkk] at h; exact hr.dom k' h
  · refine ⟨t, by rw [htblRemove, hres]; rfl, fun _ => rfl, ?_⟩
    rw [← hnone, update_eq_self]; exact hr

/-- **Every run keeps the relation**, with the map read off the history. -/
theorem run_refines (hn : 1 ≤ n) (hn' : n ≤ 2 ^ 16) (hinj : Set.InjOn H.h2 S)
    (hunset : ∀ k ∈ S, H.h2 k ≠ flaHtblEntryUnset) (ops : List (HtblOp κ)) (hops : ∀ op ∈ ops, op.key ∈ S)
    (hr : Refines H S n t m) :
    ∃ hist t', htblRun H t ops = .ok (hist, t') ∧ hist.map Prod.fst = ops ∧
      Refines H S n t' (hist.foldl recordOp m) := by
  induction ops generalizing t m with
  | nil => exact ⟨[], t, rfl, rfl, hr⟩
  | cons op ops ih =>
    have hk : op.key ∈ S := hops op List.mem_cons_self
    obtain ⟨r, t₁, hstep, hr₁⟩ : ∃ r t₁, htblStep H t op = .ok (r, t₁) ∧ Refines H S n t₁ (recordOp m (op, r)) := by
      cases op with
      | insert k v =>
        obtain ⟨r, t₁, hins, -, hr₁⟩ := insert_refines hr hn hn' hinj hunset hk v
        exact ⟨r, t₁, hins, hr₁⟩
      | remove k =>
        obtain ⟨t₁, hrem, -, hr₁⟩ := remove_refines (k := k) hr hn hn' hinj hunset hk
        exact ⟨0, t₁, by simp only [htblStep, hrem]; rfl, hr₁⟩
    obtain ⟨hist, t', hrun, hfst, hr'⟩ := ih (fun o ho => hops o (List.mem_cons_of_mem _ ho)) hr₁
    refine ⟨(op, r) :: hist, t', ?_, by rw [List.map_cons, hfst], hr'⟩
    simp only [htblRun, hstep, bind, Except.bind, hrun]

omit [DecidableEq κ] in
/-- as many slots are occupied as the map has keys -/
theorem Refines.card (hr : Refines H S n t m) (hinj : Set.InjOn H.h2 S)
    (hunset : ∀ k ∈ S, H.h2 k ≠ flaHtblEntryUnset) : occupied n t.tbl = {k | m k ≠ none}.ncard := by
  set A := (Finset.range n).filter (Occ t.tbl ·) with hA
  -- the secondary hash identifies both with the set of stored hashes
  have himg : Set.image H.h2 {k | m k ≠ none} = Set.image (fun i => (t.tbl i).h2) (A : Set ℕ) := by
    ext x
    constructor
    · rintro ⟨k, hk, rfl⟩
      obtain ⟨v, hv⟩ := Option.ne_none_iff_exists'.1 hk
      have hkS := hr.dom k hk
      obtain ⟨i, hi, -, hix, -⟩ := (hr.map k hkS v).1 hv
      refine ⟨i, ?_, hix⟩
      have hoi : Occ t.tbl i := by unfold Occ; rw [hix]; exact hunset k hkS
      rw [Finset.mem_coe, hA, Finset.mem_filter]
      exact ⟨Finset.mem_range.2 hi, hoi⟩
    · rintro ⟨i, hi, rfl⟩
      rw [Finset.mem_coe, hA, Finset.mem_filter] at hi
      have hin := Finset.mem_range.1 hi.1
      obtain ⟨k, hk, hkx⟩ := hr.keys i hin hi.2
      have hv := (hr.map k hk (t.tbl i).val).2 ⟨i, hin, by simp, hkx.symm, rfl⟩
      exact ⟨k, by rw [Set.mem_ofPred_eq, hv]; simp, hkx⟩
  have hinjM : Set.InjOn H.h2 {k | m k ≠ none} := fun a ha b hb h => hinj (hr.dom a ha) (hr.dom b hb) h
  have hinjA : Set.InjOn (fun i => (t.tbl i).h2) (A : Set ℕ) := fun i hi j hj h => by
    rw [Finset.mem_coe, hA, Finset.mem_filter] at hi hj
    exact hr.table.distinct i (Finset.mem_range.1 hi.1) j (Finset.mem_range.1 hj.1) (by simp) (by simp) hi.2 h
  rw [← hinjM.ncard_image, himg, hinjA.ncard_image, Set.ncard_coe_finset, occupied]

/-- **The hash table implements a finite map**, for every table size up to 2^16, every primary hash and every set of
keys on which the secondary hash is injective and not the unset mark. -/
theorem htbl_implements_map (H : Hashing κ) (S : Set κ) (n : ℕ) (hn : 1 ≤ n) (hn' : n ≤ 2 ^ 16)
    (hinj : Set.InjOn H.h2 S) (hunset : ∀ k ∈ S, H.h2 k ≠ flaHtblEntryUnset) (ops : List (HtblOp κ))
    (hops : ∀ op ∈ ops, op.key ∈ S) : ImplementsMap H S n ops := by
  obtain ⟨hist, t, hrun, hfst, hr⟩ := run_refines hn hn' hinj hunset ops hops (init_refines hn hunset)
  refine ⟨hist, t, hrun, hfst, fun k hk => ?_, hr.len, hr.len.trans (hr.card hinj hunset), fun k hk v => ?_,
    fun k hk hnone => ?_⟩
  · rcases hr.lookup hn hn' hinj hunset hk with ⟨i, hi, hres, hkey, hsome⟩ | ⟨hres, hnone, -⟩
    · rw [lastInserted, hsome]; exact ⟨i, hi, hres, hkey, rfl⟩
    · rw [lastInserted, hnone]; exact hres
  · obtain ⟨r, t', hins, hret, -⟩ := insert_refines hr hn hn' hinj hunset hk v
    exact ⟨r, t', hins, hret⟩
  · obtain ⟨t', hrem, hsame, -⟩ := remove_refines hr hn hn' hinj hunset hk
    rw [hrem, hsame hnone]

omit [DecidableEq κ] in
theorem Refines.insert_present (hr : Refines H S n t m) (hn : 1 ≤ n) (hn' : n ≤ 2 ^ 16) (hinj : Set.InjOn H.h2 S)
    (hunset : ∀ k ∈ S, H.h2 k ≠ flaHtblEntryUnset) {k : κ} (hk : k ∈ S) {i : ℕ} (hi : i < n)
    (hkey : (t.tbl i).h2 = H.h2 k) (hfull : t.len ≠ n) (v : ℕ) :
    htblInsert H t k v = .ok (0, { t with tbl := update t.tbl i { t.tbl i with val := v } }) := by
  have ho : Occ t.tbl i := by
    unfold Occ
    rw [hkey]
    exact hunset k hk
  have hhm : ∀ x, homeOf H S n x < n := homeOf_lt hn
  have hlt := hr.table.placed.psl_lt i hi ho
  have hloop := insertLoop_present hn' hhm hr.table.placed hr.table.distinct hi ho v (t.tbl i).psl (2 ^ 16 * n) le_rfl
    (by omega)
  rw [Nat.sub_self, hkey, pos_zero (hhm _), homeOf_h2 hinj hk] at hloop
  rw [htblInsert, hr.size, if_neg (by omega), if_neg hfull, hloop]
  rfl

/-- **An update touches only its value**, in every table reached by inserts and removes, if and only if the table is not
full. -/
theorem htbl_update_iff (H : Hashing κ) (S : Set κ) (n : ℕ) (hn : 1 ≤ n) (hn' : n ≤ 2 ^ 16) (hinj : Set.InjOn H.h2 S)
    (hunset : ∀ k ∈ S, H.h2 k ≠ flaHtblEntryUnset) (ops : List (HtblOp κ)) (hops : ∀ op ∈ ops, op.key ∈ S)
    {hist : List (HtblOp κ × ℤ)} (hrun : htblRun H (htblInit n) ops = .ok (hist, t)) {k : κ} (hk : k ∈ S) {i : ℕ}
    (hi : i < n) (hkey : (t.tbl i).h2 = H.h2 k) (v : ℕ) :
    htblInsert H t k v = .ok (0, { t with tbl := update t.tbl i { t.tbl i with val := v } }) ↔ t.len ≠ n := by
  obtain ⟨hist', t', hrun', -, hr⟩ := run_refines hn hn' hinj hunset ops hops (init_refines hn hunset)
  rw [hrun] at hrun'
  cases hrun'
  constructor
  · intro hins hfull
    -- a full table is refused before the key is looked for
    rw [htblInsert, hr.size, if_neg (by omega), if_pos hfull] at hins
    cases hins
  · intro hfull
    exact hr.insert_present hn hn' hinj hunset hk hi hkey hfull v

end Map

/-- the contract at the source's own hashes, for a table of two slots that is filled, refused and emptied again -/
theorem htbl_implements_map_two_slots :
    ImplementsMap flaHashing {[97], [98], [99]} 2
      [.insert [97] 1, .insert [98] 2, .insert [99] 3, .remove [97], .insert [99] 4] := by
  refine htbl_implements_map flaHashing _ 2 (by decide) (by decide) ?_ ?_ _ ?_
  · rintro a (rfl | rfl | rfl) b (rfl | rfl | rfl) h <;> first | rfl | exact absurd h (by decide)
  · rintro k (rfl | rfl | rfl) <;> decide
  · intro op hop
    fin_cases hop <;> simp [HtblOp.key]

/-- a table of two slots that holds one key -/
theorem htbl_update_iff_two_slots : ∃ hist t i, htblRun flaHashing (htblInit 2) [.insert [97] 1] = .ok (hist, t) ∧
    (htblInsert flaHashing t [97] 7 = .ok (0, { t with tbl := update t.tbl i { t.tbl i with val := 7 } }) ↔ t.len ≠ 2) ∧
    t.len ≠ 2 := by
  obtain ⟨⟨hist, t⟩, hrun, hval⟩ := Option.map_eq_some_iff.1 (show (htblRun flaHashing (htblInit 2)
    [.insert [97] 1]).toOption.map (fun r => decide ((r.2.tbl (flaHtblCompress (flaHashing.h1 [97]) 2)).h2 =
      flaHashing.h2 [97] ∧ r.2.len ≠ 2)) = some true by decide +kernel)
  rw [decide_eq_true_eq] at hval
  have hlt : flaHtblCompress (flaHashing.h1 [97]) 2 < 2 := Nat.mod_lt _ (by decide)
  refine ⟨hist, t, flaHtblCompress (flaHashing.h1 [97]) 2, toOption_eq_some hrun, ?_, hval.2⟩
  exact htbl_update_iff flaHashing {[97]} 2 (by decide) (by decide) (Set.injOn_singleton _ _)
    (fun k hk => by rw [Set.mem_singleton_iff.1 hk]; decide) [.insert [97] 1]
    (fun op hop => by rw [List.mem_singleton.1 hop]; rfl) (toOption_eq_some hrun) rfl hlt hval.1 7

/-- **A full table refuses updates.** One slot and one key: the second insert of the key returns 2, and the value stays. -/
theorem update_refused : ∃ hist t, htblRun flaHashing (htblInit 1) [.insert [97] 1, .insert [97] 2] = .ok (hist, t) ∧
    hist.map Prod.snd = [0, 2] ∧ (t.tbl 0).h2 = flaHashing.h2 [97] ∧ (t.tbl 0).val = 1 := by
  obtain ⟨⟨hist, t⟩, hrun, hval⟩ := Option.map_eq_some_iff.1 (show (htblRun flaHashing (htblInit 1)
    [.insert [97] 1, .insert [97] 2]).toOption.map (fun r => decide (r.1.map Prod.snd = [0, 2] ∧
      (r.2.tbl 0).h2 = flaHashing.h2 [97] ∧ (r.2.tbl 0).val = 1)) = some true by decide +kernel)
  rw [decide_eq_true_eq] at hval
  exact ⟨hist, t, toOption_eq_some hrun, hval⟩

end FlexAlloc
