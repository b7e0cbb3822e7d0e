/-
Slots on a ring of `n` places, numbered 0 to n - 1.

`next n i` is the place after `i`, and `pos n h p` the place `p` steps after `h`. Both are written with a comparison
rather than a remainder, so that `omega` decides every fact about them; the lemmas state the few the proofs about
open-addressing tables use.

- `next_pos`: one more step.
- `next_inj`: every place has one predecessor.
- `exists_pos`: every place is reached from every other in fewer than `n` steps.
- `pos_eq_mod`, `steps_eq_mod`: both directions as remainders modulo `n`.
-/
import Mathlib

namespace FlexAlloc.Core

def next (n i : ℕ) : ℕ := if i + 1 = n then 0 else i + 1

/-- the place `p` steps after `h` -/
def pos (n h p : ℕ) : ℕ := if h + p < n then h + p else h + p - n

variable {n i j h p : ℕ}

theorem next_lt (hi : i < n) : next n i < n := by unfold next; split_ifs <;> omega

theorem next_inj (h : next n i = next n j) : i = j := by
  unfold next at h
  split_ifs at h <;> omega

theorem next_eq_self (h : next n i = i) : n = 1 := by
  unfold next at h
  split_ifs at h <;> omega

@[simp] theorem pos_zero (hh : h < n) : pos n h 0 = h := by unfold pos; split_ifs <;> omega

theorem pos_lt (hh : h < n) (hp : p ≤ n) : pos n h p < n := by unfold pos; split_ifs <;> omega

theorem next_pos (hh : h < n) (hp : p < n) : next n (pos n h p) = pos n h (p + 1) := by
  unfold next pos
  split_ifs <;> omega

theorem pos_next (hp : p < n) : pos n (next n h) p = pos n h (p + 1) := by
  unfold next pos
  split_ifs <;> omega

/-- places fewer than `n` steps away are told apart by the number of steps -/
theorem pos_inj {q : ℕ} (hp : p < n) (hq : q < n) (h : pos n h p = pos n h q) : p = q := by
  unfold pos at h
  split_ifs at h <;> omega

theorem exists_pos (hh : h < n) (hi : i < n) : ∃ p < n, pos n h p = i := by
  by_cases hle : h ≤ i
  · exact ⟨i - h, by omega, by unfold pos; split_ifs <;> omega⟩
  · exact ⟨i + n - h, by omega, by unfold pos; split_ifs <;> omega⟩

theorem pos_eq_mod (hh : h < n) (hp : p < n) : pos n h p = (h + p) % n := by
  unfold pos
  split_ifs with hlt
  · exact (Nat.mod_eq_of_lt hlt).symm
  · rw [Nat.mod_eq_sub_mod (by omega), Nat.mod_eq_of_lt (by omega)]

theorem steps_eq_mod (hh : h < n) (hp : p < n) (hi : pos n h p = i) : p = (i + n - h) % n := by
  subst hi
  unfold pos
  split_ifs with hlt
  · have hsplit : h + p + n - h = p + n := by omega
    rw [hsplit, Nat.add_mod_right, Nat.mod_eq_of_lt hp]
  · have hsplit : h + p - n + n - h = p := by omega
    rw [hsplit, Nat.mod_eq_of_lt hp]

end FlexAlloc.Core
