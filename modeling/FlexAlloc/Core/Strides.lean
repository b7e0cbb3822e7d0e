/-
Sums over a range, taken apart in two ways.

- `lt_strideCount`, `sum_strides`: the numbers below `Q`, dealt out to `n` hands in turn.
- `map_range_tiles`: the numbers below the last of a sequence of boundaries, tile by tile.
-/
import Mathlib

namespace FlexAlloc.Core

open Finset

/-- how many of `j`, `j + n`, `j + 2 * n`, … are below `Q` -/
def strideCount (n j Q : ℕ) : ℕ := (Q + n - 1 - j) / n

theorem lt_strideCount {n j Q r : ℕ} (hj : j < n) : r < strideCount n j Q ↔ j + r * n < Q := by
  rw [strideCount, Nat.lt_div_iff_mul_lt (by omega)]
  omega

/-- **Dealing out.** The sum over the numbers below `Q` is the sum over the hands of what each was dealt. -/
theorem sum_strides {M : Type} [AddCommMonoid M] {n : ℕ} (hn : 0 < n) (f : ℕ → M) (Q : ℕ) :
    ∑ q ∈ range Q, f q = ∑ j ∈ range n, ∑ r ∈ range (strideCount n j Q), f (j + r * n) := by
  rw [sum_sigma']
  refine sum_nbij' (fun q => ⟨q % n, q / n⟩) (fun x => x.1 + x.2 * n) ?_ ?_ ?_ ?_ ?_
  · intro q hq
    have hmod := Nat.mod_lt q hn
    have hdiv := Nat.mod_add_div q n
    rw [mem_sigma, mem_range, mem_range, lt_strideCount hmod, Nat.mul_comm, hdiv]
    exact ⟨hmod, mem_range.1 hq⟩
  · rintro ⟨j, r⟩ hx
    rw [mem_sigma, mem_range, mem_range] at hx
    exact mem_range.2 ((lt_strideCount hx.1).1 hx.2)
  · intro q _
    rw [Nat.mul_comm]
    exact Nat.mod_add_div q n
  · rintro ⟨j, r⟩ hx
    rw [mem_sigma, mem_range] at hx
    have hj : j < n := hx.1
    dsimp only
    rw [Nat.add_mul_mod_self_right, Nat.mod_eq_of_lt hj, Nat.add_mul_div_right _ _ hn, Nat.div_eq_of_lt hj, Nat.zero_add]
  · intro q _
    dsimp only
    rw [Nat.mul_comm, Nat.mod_add_div]

/-- **Tiles.** What is made of the numbers below a boundary, one tile after the other. -/
theorem map_range_tiles {α : Type} {bound : ℕ → ℕ} (hzero : bound 0 = 0) (hmono : ∀ q, bound q ≤ bound (q + 1))
    (f : ℕ → α) (Q : ℕ) : (Multiset.range (bound Q)).map f =
      ∑ q ∈ range Q, (Multiset.range (bound (q + 1) - bound q)).map fun t => f (bound q + t) := by
  induction Q with
  | zero => simp [hzero]
  | succ Q ih =>
    rw [sum_range_succ, ← ih]
    have hsplit : Multiset.range (bound (Q + 1)) = Multiset.range (bound Q) +
        (Multiset.range (bound (Q + 1) - bound Q)).map (bound Q + ·) := by
      rw [← Multiset.range_add, Nat.add_sub_cancel' (hmono Q)]
    rw [hsplit, Multiset.map_add, Multiset.map_map]
    rfl

end FlexAlloc.Core
