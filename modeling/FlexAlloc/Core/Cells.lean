/-
Keys with cells in a memory, and what is known of the cells of each key.

The cells of a key lie next to each other. Something is known of a cell once it has been written, until a write to it
fails or its key goes. `Stores` says that the memory holds what is known.

- `Stores.frame`: the memory changes outside the cells of the keys that are live.
- `Stores.restrict`: keys come and go, and those that stay keep their cells.
- `Stores.put`: cells of one key are written, and no other key has any of them.
-/
import Mathlib

namespace FlexAlloc.Core

open Function

variable {κ α : Type}

/-- where the cells of each key are, and how many it has -/
structure Cells (κ : Type) where
  start : κ → ℕ
  size : κ → ℕ

/-- two keys share no cell -/
def Cells.Apart (c : Cells κ) (a b : κ) : Prop := c.start a + c.size a ≤ c.start b ∨ c.start b + c.size b ≤ c.start a

/-- what is known of the cells of each key -/
abbrev Contents (κ α : Type) := κ → ℕ → Option α

/-- nothing is known of keys that are not live -/
def Contents.restrict (known : Contents κ α) (live : κ → Prop) [DecidablePred live] : Contents κ α := fun k =>
  if live k then known k else fun _ => none

/-- `n` cells of `k`, from `off` on, are now known to be `vals`, or not known -/
def Contents.put [DecidableEq κ] (known : Contents κ α) (k : κ) (off n : ℕ) (vals : ℕ → Option α) : Contents κ α :=
  update known k fun i => if off ≤ i ∧ i < off + n then vals (i - off) else known k i

/-- the memory holds what is known, and it is known of cells of live keys only -/
structure Stores (c : Cells κ) (live : κ → Prop) (mem : ℕ → α) (known : Contents κ α) : Prop where
  inside : ∀ k i v, known k i = some v → live k ∧ i < c.size k
  same : ∀ k i v, known k i = some v → mem (c.start k + i) = v

variable {c c' : Cells κ} {live live' : κ → Prop} {mem mem' : ℕ → α} {known : Contents κ α}

theorem stores_nothing (c : Cells κ) (live : κ → Prop) (mem : ℕ → α) : Stores c live mem fun _ _ => none :=
  ⟨fun _ _ _ h => absurd h (Option.some_ne_none _).symm, fun _ _ _ h => absurd h (Option.some_ne_none _).symm⟩

/-- **Frame.** -/
theorem Stores.frame (h : Stores c live mem known)
    (hmem : ∀ k, live k → ∀ i < c.size k, mem' (c.start k + i) = mem (c.start k + i)) : Stores c live mem' known := by
  refine ⟨h.inside, fun k i v hv => ?_⟩
  obtain ⟨hk, hi⟩ := h.inside k i v hv
  rw [hmem k hk i hi]
  exact h.same k i v hv

/-- **Keys come and go.** -/
theorem Stores.restrict [DecidablePred live'] (h : Stores c live mem known)
    (hplace : ∀ k, live k → live' k → c'.start k = c.start k ∧ c'.size k = c.size k) :
    Stores c' live' mem (known.restrict live') := by
  have hknown : ∀ k i v, known.restrict live' k i = some v → live' k ∧ known k i = some v := by
    intro k i v hv
    unfold Contents.restrict at hv
    split_ifs at hv with hk
    exact ⟨hk, hv⟩
  refine ⟨fun k i v hv => ?_, fun k i v hv => ?_⟩
  all_goals
    obtain ⟨hk', hv'⟩ := hknown k i v hv
    obtain ⟨hk, hi⟩ := h.inside k i v hv'
    obtain ⟨hstart, hsize⟩ := hplace k hk hk'
  · rw [hsize]
    exact ⟨hk', hi⟩
  · rw [hstart]
    exact h.same k i v hv'

/-- **A write** to the cells of one key. -/
theorem Stores.put [DecidableEq κ] (h : Stores c live mem known) {k : κ} (hk : live k) {off n : ℕ}
    (hin : off + n ≤ c.size k) (hapart : ∀ a, live a → a ≠ k → c.Apart a k) {vals : ℕ → Option α}
    (hvals : ∀ i < n, ∀ v, vals i = some v → mem' (c.start k + off + i) = v)
    (hout : ∀ i, i < c.start k + off ∨ c.start k + off + n ≤ i → mem' i = mem i) :
    Stores c live mem' (known.put k off n vals) := by
  -- a cell is one of those written, or its value is known from before
  have hcell : ∀ a i v, known.put k off n vals a i = some v →
      (a = k ∧ off ≤ i ∧ i < off + n ∧ vals (i - off) = some v) ∨
        known a i = some v ∧ (a = k → i < off ∨ off + n ≤ i) := by
    intro a i v hv
    unfold Contents.put at hv
    by_cases ha : a = k
    · subst ha
      rw [update_self] at hv
      split_ifs at hv with hi
      · exact .inl ⟨rfl, hi.1, hi.2, hv⟩
      · exact .inr ⟨hv, fun _ => by omega⟩
    · rw [update_of_ne ha] at hv
      exact .inr ⟨hv, fun h => absurd h ha⟩
  refine ⟨fun a i v hv => ?_, fun a i v hv => ?_⟩
  · rcases hcell a i v hv with ⟨rfl, -, hi, -⟩ | ⟨hv', -⟩
    · exact ⟨hk, by omega⟩
    · exact h.inside a i v hv'
  · rcases hcell a i v hv with ⟨rfl, hlo, hhi, hval⟩ | ⟨hv', houtside⟩
    · have hmem := hvals (i - off) (by omega) v hval
      rw [show c.start a + off + (i - off) = c.start a + i by omega] at hmem
      exact hmem
    · obtain ⟨hlive, hi⟩ := h.inside a i v hv'
      rw [hout, h.same a i v hv']
      by_cases ha : a = k
      · subst ha
        have hoff := houtside rfl
        omega
      · rcases hapart a hlive ha with hle | hle
        · omega
        · omega

end FlexAlloc.Core
