/-
Sets of small naturals packed into words.

A list of w-bit words holds one bit for each natural below `w * length`: `bit ws i` is bit `i % w` of word `i / w`, and
false past the end. The lemmas say what the usual word tricks do to that set:

- `low_spec`: `x &&& -x` isolates the lowest set bit of a non-zero word.
- `bit_set`, `bit_set_or`: overwriting a word and setting one position touch that word and that position only.
- `eq_of_bit`: the set determines the words.
- `land_lane`, `shift_land_lane`: masking and shifting act on each lane of a word on its own when the mask keeps the
  lanes apart. With them a lane-wise sum (a population count) is checked on one lane.
- `bitCount_packed`: the bits counted word by word are the members of the set.
-/
import Mathlib

namespace FlexAlloc.Core

/-! ## One word -/

variable {w : ℕ}

def bitCount (x : BitVec w) : ℕ := (List.range w).countP (x.getLsbD ·)

/-- **Lowest set bit.** A non-zero word has a lowest set bit, and `x &&& -x` is the word with that bit alone. -/
theorem low_spec (x : BitVec w) (hx : x ≠ 0) :
    ∃ k < w, x.getLsbD k = true ∧ (∀ j < k, x.getLsbD j = false) ∧ x &&& -x = BitVec.twoPow w k := by
  have hex : ∃ k, x.getLsbD k = true := by
    by_contra hno
    push Not at hno
    exact hx (BitVec.eq_of_getLsbD_eq fun i _ => by simpa using hno i)
  classical
  refine ⟨Nat.find hex, BitVec.lt_of_getLsbD (Nat.find_spec hex), Nat.find_spec hex, ?_, ?_⟩
  · intro j hj
    simpa using Nat.find_min hex hj
  · have hk := Nat.find_spec hex
    have hmin : ∀ j < Nat.find hex, x.getLsbD j = false := fun j hj => by simpa using Nat.find_min hex hj
    set k := Nat.find hex
    refine BitVec.eq_of_getLsbD_eq fun i hi => ?_
    rw [BitVec.getLsbD_and, BitVec.getLsbD_neg, BitVec.getLsbD_twoPow]
    rcases lt_trichotomy i k with hik | hik | hik
    · simp [hmin i hik, Nat.ne_of_gt hik]
    · have hno : ¬ ∃ j < k, x.getLsbD j = true := by
        rintro ⟨j, hj, hjt⟩
        rw [hmin j hj] at hjt
        exact absurd hjt (by decide)
      rw [hik, hk]
      simp [hno, hik ▸ hi]
    · have hyes : ∃ j < i, x.getLsbD j = true := ⟨k, hik, hk⟩
      simp [hi, hyes, Nat.ne_of_lt hik]

/-! ## Lanes -/

theorem land_lane (k a b m n : ℕ) (hb : b < 2 ^ k) (hn : n < 2 ^ k) :
    (2 ^ k * a + b) &&& (2 ^ k * m + n) = 2 ^ k * (a &&& m) + (b &&& n) := by
  have hbn : b &&& n < 2 ^ k := Nat.and_lt_two_pow b hn
  refine Nat.eq_of_testBit_eq fun i => ?_
  rw [Nat.testBit_and, Nat.testBit_two_pow_mul_add _ hb, Nat.testBit_two_pow_mul_add _ hn,
    Nat.testBit_two_pow_mul_add _ hbn]
  split_ifs <;> simp

/-- a shift by less than a lane, masked by a mask that drops the bits coming from the lane above, stays in the lane -/
theorem shift_land_lane (k s a b m n : ℕ) (hs : s ≤ k) (hb : b < 2 ^ k) (hn : n < 2 ^ (k - s)) :
    ((2 ^ k * a + b) >>> s) &&& (2 ^ k * m + n) = 2 ^ k * ((a >>> s) &&& m) + ((b >>> s) &&& n) := by
  have hnk : n < 2 ^ k := hn.trans_le (Nat.pow_le_pow_right (by decide) (Nat.sub_le k s))
  have hbn : (b >>> s) &&& n < 2 ^ k := Nat.and_lt_two_pow _ hnk
  refine Nat.eq_of_testBit_eq fun i => ?_
  rw [Nat.testBit_and, Nat.testBit_shiftRight, Nat.testBit_two_pow_mul_add _ hb, Nat.testBit_two_pow_mul_add _ hnk,
    Nat.testBit_two_pow_mul_add _ hbn, Nat.testBit_and, Nat.testBit_and, Nat.testBit_shiftRight,
    Nat.testBit_shiftRight]
  by_cases hi : i < k
  · by_cases hsi : s + i < k
    · simp [hi, hsi]
    · -- the bit comes from the lane above, where the mask is zero
      have : n.testBit i = false := Nat.testBit_lt_two_pow (hn.trans_le (Nat.pow_le_pow_right (by decide) (by omega)))
      simp [hi, this]
  · have hsi : ¬ s + i < k := by omega
    have he : s + i - k = s + (i - k) := by omega
    simp [hi, hsi, he]

/-! ## Packed words -/

/-- membership: bit `i % w` of word `i / w`, false past the last word -/
def bit (ws : List (BitVec w)) (i : ℕ) : Bool := (ws.getD (i / w) 0).getLsbD (i % w)

theorem bit_eq_false_of_le (ws : List (BitVec w)) (i : ℕ) (hw : 0 < w) (h : w * ws.length ≤ i) : bit ws i = false := by
  have : ws.length ≤ i / w := (Nat.le_div_iff_mul_le hw).2 (by rwa [mul_comm] at h)
  simp [bit, List.getElem?_eq_none this]

theorem bit_cons (x : BitVec w) (ws : List (BitVec w)) (i : ℕ) (hw : 0 < w) :
    bit (x :: ws) i = if i < w then x.getLsbD i else bit ws (i - w) := by
  unfold bit
  split_ifs with hi
  · simp [Nat.div_eq_of_lt hi, Nat.mod_eq_of_lt hi]
  · have hd : i / w = (i - w) / w + 1 := by
      rw [← Nat.add_div_right _ hw]; congr 1; omega
    have hm : i % w = (i - w) % w := by
      conv_lhs => rw [show i = (i - w) + w by omega]
      simp
    rw [hd, hm, List.getD_cons_succ]

theorem bit_set (ws : List (BitVec w)) (j i : ℕ) (x : BitVec w) (hj : j < ws.length) :
    bit (ws.set j x) i = if i / w = j then x.getLsbD (i % w) else bit ws i := by
  unfold bit
  split_ifs with h
  · subst h; simp [List.getD_eq_getElem?_getD, hj]
  · simp [List.getD_eq_getElem?_getD, Ne.symm h]

theorem eq_of_bit {ws ws' : List (BitVec w)} (hw : 0 < w) (hlen : ws.length = ws'.length)
    (h : ∀ i, bit ws i = bit ws' i) : ws = ws' := by
  refine List.ext_getElem hlen fun i hi hi' => BitVec.eq_of_getLsbD_eq fun j hj => ?_
  have hij := h (w * i + j)
  have hdiv : (w * i + j) / w = i := by
    rw [Nat.mul_add_div hw, Nat.div_eq_of_lt hj, Nat.add_zero]
  have hmod : (w * i + j) % w = j := by
    rw [Nat.mul_add_mod, Nat.mod_eq_of_lt hj]
  unfold bit at hij
  rw [hdiv, hmod] at hij
  simpa [hi, hi'] using hij

theorem div_eq_and_mod_eq_iff (w i j : ℕ) : i / w = j / w ∧ i % w = j % w ↔ i = j := by
  refine ⟨fun ⟨h1, h2⟩ => ?_, fun h => by rw [h]; exact ⟨rfl, rfl⟩⟩
  rw [← Nat.div_add_mod i w, ← Nat.div_add_mod j w, h1, h2]

theorem bit_set_or (ws : List (BitVec w)) (j i : ℕ) (hw : 0 < w) (hj : j / w < ws.length) :
    bit (ws.set (j / w) (ws.getD (j / w) 0 ||| BitVec.twoPow w (j % w))) i = (bit ws i || decide (i = j)) := by
  rw [bit_set _ _ _ _ hj]
  have hlt : ∀ n, n % w < w := fun n => Nat.mod_lt _ hw
  split_ifs with h
  · have heq : i = j ↔ j % w = i % w := by
      rw [← div_eq_and_mod_eq_iff w i j]; exact ⟨fun hh => hh.2.symm, fun hh => ⟨h, hh.symm⟩⟩
    rw [BitVec.getLsbD_or, BitVec.getLsbD_twoPow, ← h]
    simp [hlt, heq, bit]
  · have : i ≠ j := fun hh => h (by rw [hh])
    simp [this]

/-- **Counting.** The bits counted word by word are the members of the set. -/
theorem bitCount_packed (ws : List (BitVec w)) (hw : 0 < w) :
    (ws.map bitCount).sum = (List.range (w * ws.length)).countP (bit ws ·) := by
  induction ws with
  | nil => simp
  | cons x ws ih =>
    have hsplit : List.range (w * (x :: ws).length) =
        List.range w ++ (List.range (w * ws.length)).map (w + ·) := by
      rw [List.length_cons, Nat.mul_succ, Nat.add_comm, List.range_add]
    rw [List.map_cons, List.sum_cons, ih, hsplit, List.countP_append, List.countP_map, bitCount]
    congr 1
    · refine List.countP_congr fun i hi => ?_
      rw [bit_cons x ws i hw, if_pos (List.mem_range.1 hi)]
    · refine List.countP_congr fun i _ => ?_
      simp [bit_cons x ws (w + i) hw]

end FlexAlloc.Core
