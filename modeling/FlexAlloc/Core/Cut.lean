/-
Doing a long piece of work in parts of bounded size.

`cut k start n` are the parts of `n` units from `start` on, of `k` units each but for the last. `issue` carries out a
list of commands until one of them fails.

- `cut_covers`: the parts are the whole, in ascending order, each unit once.
- `mem_cut`: every part has between 1 and `k` units and lies in the whole.
- `foldl_cut`: work that may be cut in two at any place may be cut by `cut`.
- `issue_ok`, `issue_stops`: what is done when all commands succeed, and when one fails.
-/
import Mathlib

namespace FlexAlloc.Core

/-- the parts of `n` units from `start` on, each with its first unit and its size -/
def cut (k start n : ℕ) : List (ℕ × ℕ) :=
  if 0 < n ∧ 0 < k then (start, min n k) :: cut k (start + k) (n - k) else []
termination_by n

theorem cut_nil (k start : ℕ) : cut k start 0 = [] := by
  rw [cut, if_neg (by omega)]

theorem cut_cons {k n : ℕ} (hn : 0 < n) (hk : 0 < k) (start : ℕ) :
    cut k start n = (start, min n k) :: cut k (start + k) (n - k) := by
  rw [cut, if_pos ⟨hn, hk⟩]

/-- **The parts are the whole**, in ascending order, each unit once. -/
theorem cut_covers {k : ℕ} (hk : 0 < k) (start n : ℕ) :
    ((cut k start n).flatMap fun p => List.range' p.1 p.2) = List.range' start n := by
  induction start, n using cut.induct k with
  | case1 start n h ih =>
    rw [cut_cons h.1 hk, List.flatMap_cons, ih]
    rcases le_total n k with hle | hle
    · simp [hle]
    · rw [min_eq_right hle, List.range'_append_1, Nat.add_sub_cancel' hle]
  | case2 start n h =>
    have hn : n = 0 := by omega
    rw [hn, cut_nil]
    rfl

/-- **Every part** has between 1 and `k` units, of the whole. -/
theorem mem_cut {k start n : ℕ} {p : ℕ × ℕ} (h : p ∈ cut k start n) :
    1 ≤ p.2 ∧ p.2 ≤ k ∧ start ≤ p.1 ∧ p.1 + p.2 ≤ start + n := by
  induction start, n using cut.induct k with
  | case1 start n hpos ih =>
    rw [cut_cons hpos.1 hpos.2, List.mem_cons] at h
    rcases h with rfl | h
    · dsimp only
      omega
    · obtain ⟨h1, h2, h3, h4⟩ := ih h
      by_cases hle : n ≤ k
      · rw [Nat.sub_eq_zero_of_le hle, cut_nil] at h
        cases h
      · exact ⟨h1, h2, by omega, by omega⟩
  | case2 start n hpos =>
    rw [cut, if_neg hpos] at h
    cases h

theorem cut_shift (k a start n : ℕ) : cut k (a + start) n = (cut k start n).map fun p => (a + p.1, p.2) := by
  induction start, n using cut.induct k with
  | case1 start n h ih =>
    rw [cut_cons h.1 h.2, cut_cons h.1 h.2, List.map_cons, ← ih, Nat.add_assoc]
  | case2 start n h =>
    rw [cut, if_neg h, cut, if_neg h]
    rfl

/-- **Cutting work.** Work that may be cut in two at any place may be done part by part. -/
theorem foldl_cut {σ : Type} (work : ℕ → ℕ → σ → σ) (hzero : ∀ a s, work a 0 s = s)
    (htwo : ∀ a m n s, work (a + m) n (work a m s) = work a (m + n) s) {k : ℕ} (hk : 0 < k) (start n : ℕ) (s : σ) :
    (cut k start n).foldl (fun s p => work p.1 p.2 s) s = work start n s := by
  induction start, n using cut.induct k generalizing s with
  | case1 start n h ih =>
    rw [cut_cons h.1 hk, List.foldl_cons, ih]
    rcases le_total n k with hle | hle
    · rw [min_eq_left hle, Nat.sub_eq_zero_of_le hle, hzero]
    · rw [min_eq_right hle, htwo, Nat.add_sub_cancel' hle]
  | case2 start n h =>
    have hn : n = 0 := by omega
    rw [hn, cut_nil, hzero]
    rfl

/-! ## Commands that may fail -/

section Issue

variable {ι σ : Type} (ret : ι → ℤ) (act : ι → σ → σ)

/-- carry out commands until one returns an error -/
def issue : List ι → σ → ℤ × σ
  | [], s => (0, s)
  | c :: cs, s => if ret c ≠ 0 then (ret c, s) else issue cs (act c s)

variable {ret act}

theorem issue_append {pre : List ι} (hpre : ∀ c ∈ pre, ret c = 0) (post : List ι) (s : σ) :
    issue ret act (pre ++ post) s = issue ret act post (pre.foldl (fun s c => act c s) s) := by
  induction pre generalizing s with
  | nil => rfl
  | cons c pre ih =>
    have hc : ret c = 0 := hpre c List.mem_cons_self
    rw [List.cons_append, issue, if_neg (by simp [hc]), List.foldl_cons]
    exact ih (fun d hd => hpre d (List.mem_cons_of_mem _ hd)) _

/-- **All commands succeed.** -/
theorem issue_ok {cs : List ι} (h : ∀ c ∈ cs, ret c = 0) (s : σ) :
    issue ret act cs s = (0, cs.foldl (fun s c => act c s) s) := by
  have : issue ret act (cs ++ []) s = _ := issue_append h [] s
  rwa [List.append_nil] at this

/-- **The first command that fails** ends the sequence with its error. -/
theorem issue_stops {pre : List ι} {c : ι} (hpre : ∀ d ∈ pre, ret d = 0) (hc : ret c ≠ 0) (post : List ι) (s : σ) :
    issue ret act (pre ++ c :: post) s = (ret c, pre.foldl (fun s d => act d s) s) := by
  rw [issue_append hpre, issue, if_pos hc]

end Issue

end FlexAlloc.Core
