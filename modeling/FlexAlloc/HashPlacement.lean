/-
Where the hash table puts its elements, and why its loops end.

`TablePlaced H S n T` says of a table of `n` slots what Robin Hood placement promises of it: the psl of an element is
its cyclic distance from the home slot of its key, no slot on the way from that home is unset or holds an element
nearer its own home than the way is long, no secondary hash is stored twice, and a table that holds an element holds
one that is at home. `LoopsStop H n t k` bounds the three loops for the key `k`.

- `table_placed`: every table reached by inserts and removes is well placed.
- `loops_stop`: in every such table, a full one too, a lookup of a key in use ends within `n + 1` probes, an insert
  within `n` probes and a remove within `n` shifts, with the results of the calls.

No loop has a bound of its own. A lookup stops because every stored psl is below `n`; an insert because the table is
not full; a remove because an element at home, or an unset slot, lies ahead.
-/
import FlexAlloc.HashMap

namespace FlexAlloc

open FlexAlloc.Core Function

/-- what Robin Hood placement promises of a table of `n` slots that stores keys of `S` -/
structure TablePlaced {κ : Type} (H : Hashing κ) (S : Set κ) (n : ℕ) (T : ℕ → HtblEntry) : Prop where
  unset : ∀ i < n, ¬ Occ T i → (T i).psl = 0
  key : ∀ i < n, Occ T i → ∃ k ∈ S, (T i).h2 = H.h2 k
  distance : ∀ i < n, ∀ k ∈ S, (T i).h2 = H.h2 k →
    (T i).psl = (i + n - flaHtblCompress (H.h1 k) n) % n ∧ (T i).psl < n
  way : ∀ i < n, ∀ k ∈ S, (T i).h2 = H.h2 k → ∀ d ≤ (T i).psl,
    Occ T ((flaHtblCompress (H.h1 k) n + d) % n) ∧ d ≤ (T ((flaHtblCompress (H.h1 k) n + d) % n)).psl
  once : ∀ i < n, ∀ j < n, Occ T i → (T i).h2 = (T j).h2 → i = j
  home : (∃ i < n, Occ T i) → ∃ i < n, Occ T i ∧ (T i).psl = 0

/-- the loops of the three calls for the key `k` end within `n + 1` probes, `n` probes and `n` shifts -/
structure LoopsStop {κ : Type} (H : Hashing κ) (n : ℕ) (t : Htbl) (k : κ) : Prop where
  lookup : ∃ e, htblLookupLoop t.tbl n (H.h2 k) (n + 1) (flaHtblCompress (H.h1 k) n) 0 = .ok e ∧
    htblLookup H t k = .ok e
  insert : t.len ≠ n → ∀ v, ∃ T new,
    htblInsertLoop n n t.tbl (flaHtblCompress (H.h1 k) n) ⟨H.h2 k, v, 0⟩ = .ok (T, new) ∧
      htblInsert H t k v = .ok (0, { t with tbl := T, len := if new then u32 (t.len + 1) else t.len })
  remove : ∀ e, htblLookup H t k = .ok (some e) → ∃ T, htblRemoveLoop n n t.tbl e = .ok T ∧
    htblRemove H t k = .ok { t with tbl := T, len := sub32 t.len 1 }

/-! ## Placement -/

theorem Placed.home_ahead {hm : ℕ → ℕ} {n z p : ℕ} {T : ℕ → HtblEntry} (hp : Placed hm n T) (hz : z < n)
    (hno : ¬ Occ T z) (hpn : p < n) (ho : Occ T (pos n z p)) : ∃ i < n, Occ T i ∧ (T i).psl = 0 := by
  induction p with
  | zero =>
    rw [pos_zero hz] at ho
    exact absurd ho hno
  | succ p ih =>
    by_cases hprev : Occ T (pos n z p)
    · exact ih (by omega) hprev
    · have hlt : pos n z p < n := pos_lt hz (by omega)
      have hzero := hp.next_unset hlt hprev
      rw [next_pos hz (by omega)] at hzero
      exact ⟨_, pos_lt hz (by omega), ho, hzero⟩

/-- a Robin Hood table that holds an element holds one at home -/
theorem RobinHood.occupied_home {hm : ℕ → ℕ} {n : ℕ} {T : ℕ → HtblEntry} (hr : RobinHood hm n T)
    (hex : ∃ i < n, Occ T i) : ∃ i < n, Occ T i ∧ (T i).psl = 0 := by
  obtain ⟨z, hz, hz0⟩ := hr.home
  by_cases ho : Occ T z
  · exact ⟨z, hz, ho, hz0⟩
  · obtain ⟨i, hi, hoi⟩ := hex
    obtain ⟨p, hpn, rfl⟩ := exists_pos hz hi
    exact hr.placed.home_ahead hz ho hpn hoi

section Reached

variable {κ : Type} {H : Hashing κ} {S : Set κ} {n : ℕ} {t : Htbl} {m : κ → Option ℕ}

theorem Refines.tablePlaced (hr : Refines H S n t m) (hn : 1 ≤ n) (hinj : Set.InjOn H.h2 S)
    (hunset : ∀ k ∈ S, H.h2 k ≠ flaHtblEntryUnset) : TablePlaced H S n t.tbl := by
  have hhm : ∀ x, homeOf H S n x < n := homeOf_lt hn
  have hocc : ∀ i, ∀ k ∈ S, (t.tbl i).h2 = H.h2 k → Occ t.tbl i := by
    intro i k hk hkey hno
    exact hunset k hk (hkey.symm.trans hno)
  refine ⟨hr.table.placed.unset, ?_, ?_, ?_, ?_, hr.table.occupied_home⟩
  · intro i hi ho
    obtain ⟨k, hk, hkey⟩ := hr.keys i hi ho
    exact ⟨k, hk, hkey.symm⟩
  · intro i hi k hk hkey
    have ho := hocc i k hk hkey
    have hlt := hr.table.placed.psl_lt i hi ho
    have hplace := hr.table.placed.place i hi ho
    rw [hkey] at hplace
    refine ⟨?_, hlt⟩
    rw [← homeOf_h2 hinj hk]
    exact steps_eq_mod (hhm _) hlt hplace
  · intro i hi k hk hkey d hd
    have ho := hocc i k hk hkey
    have hlt := hr.table.placed.psl_lt i hi ho
    have hback := hr.table.placed.behind hhm hi ho ((t.tbl i).psl - d) (Nat.sub_le _ _)
    rw [hkey, Nat.sub_sub_self hd, pos_eq_mod (hhm _) (by omega), homeOf_h2 hinj hk] at hback
    exact hback
  · intro i hi j hj ho heq
    exact hr.table.distinct i hi j hj (by simp) (by simp) ho heq

theorem Refines.loopsStop (hr : Refines H S n t m) (hn : 1 ≤ n) (hn' : n ≤ 2 ^ 16) (hinj : Set.InjOn H.h2 S)
    (hunset : ∀ k ∈ S, H.h2 k ≠ flaHtblEntryUnset) {k : κ} (hk : k ∈ S) : LoopsStop H n t k := by
  refine ⟨?_, ?_, ?_⟩
  · obtain ⟨e, hres⟩ : ∃ e, htblLookupLoop t.tbl n (H.h2 k) (n + 1) (flaHtblCompress (H.h1 k) n) 0 = .ok e := by
      rcases hr.lookup_loop hn hinj hunset hk with ⟨i, -, hres, -⟩ | ⟨hres, -⟩
      · exact ⟨some i, hres⟩
      · exact ⟨none, hres⟩
    exact ⟨e, hres, hr.lookup_eq hn hn' hres⟩
  · intro hfull v
    obtain ⟨T, new, hrun, -⟩ := hr.insert_loop hn hn' hinj hunset hk hfull v
    exact ⟨T, new, hrun, hr.insert_eq hn hfull hrun⟩
  · intro e hfound
    rcases hr.lookup hn hn' hinj hunset hk with ⟨i, he, hres, hkey, -⟩ | ⟨hres, -⟩
    · rw [hres] at hfound
      cases hfound
      obtain ⟨T, hrun, -⟩ := hr.remove_loop hn hunset hk he hkey
      exact ⟨T, hrun, hr.remove_eq hres hrun⟩
    · rw [hres] at hfound
      cases hfound

/-- **Robin Hood placement**, in every table reached from a fresh one by inserts and removes -/
theorem table_placed (H : Hashing κ) (S : Set κ) (n : ℕ) (hn : 1 ≤ n) (hn' : n ≤ 2 ^ 16)
    (hinj : Set.InjOn H.h2 S) (hunset : ∀ k ∈ S, H.h2 k ≠ flaHtblEntryUnset) (ops : List (HtblOp κ))
    (hops : ∀ op ∈ ops, op.key ∈ S) :
    ∃ hist t, htblRun H (htblInit n) ops = .ok (hist, t) ∧ TablePlaced H S n t.tbl := by
  classical
  obtain ⟨hist, t, hrun, -, hr⟩ := run_refines hn hn' hinj hunset ops hops (init_refines hn hunset)
  exact ⟨hist, t, hrun, hr.tablePlaced hn hinj hunset⟩

/-- **The loops stop**, in every table reached from a fresh one by inserts and removes, for every key in use, present
or absent -/
theorem loops_stop (H : Hashing κ) (S : Set κ) (n : ℕ) (hn : 1 ≤ n) (hn' : n ≤ 2 ^ 16) (hinj : Set.InjOn H.h2 S)
    (hunset : ∀ k ∈ S, H.h2 k ≠ flaHtblEntryUnset) (ops : List (HtblOp κ)) (hops : ∀ op ∈ ops, op.key ∈ S) :
    ∃ hist t, htblRun H (htblInit n) ops = .ok (hist, t) ∧ ∀ k ∈ S, LoopsStop H n t k := by
  classical
  obtain ⟨hist, t, hrun, -, hr⟩ := run_refines hn hn' hinj hunset ops hops (init_refines hn hunset)
  exact ⟨hist, t, hrun, fun k hk => hr.loopsStop hn hn' hinj hunset hk⟩

end Reached

/-! ## At the source's own hashes -/

theorem three_keys_injOn : Set.InjOn flaHashing.h2 {[97], [98], [99]} := by
  rintro a (rfl | rfl | rfl) b (rfl | rfl | rfl) h <;> first | rfl | exact absurd h (by decide)

theorem three_keys_set : ∀ k ∈ ({[97], [98], [99]} : Set (List (BitVec 8))), flaHashing.h2 k ≠ flaHtblEntryUnset := by
  rintro k (rfl | rfl | rfl) <;> decide

/-- a full table of two slots -/
theorem table_placed_full : ∃ hist t, htblRun flaHashing (htblInit 2) [.insert [97] 1, .insert [98] 2] =
    .ok (hist, t) ∧ TablePlaced flaHashing {[97], [98], [99]} 2 t.tbl :=
  table_placed flaHashing _ 2 (by decide) (by decide) three_keys_injOn three_keys_set _
    (by intro op hop; fin_cases hop <;> simp [HtblOp.key])

theorem loops_stop_full : ∃ hist t, htblRun flaHashing (htblInit 2) [.insert [97] 1, .insert [98] 2] =
    .ok (hist, t) ∧ ∀ k ∈ ({[97], [98], [99]} : Set (List (BitVec 8))), LoopsStop flaHashing 2 t k :=
  loops_stop flaHashing _ 2 (by decide) (by decide) three_keys_injOn three_keys_set _
    (by intro op hop; fin_cases hop <;> simp [HtblOp.key])

end FlexAlloc
