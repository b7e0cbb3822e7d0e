/-
Byte-addressed memory, and numbers stored in it least significant byte first.

- `copyBytes_append`: two adjacent copies from adjacent sources are one copy, so a transfer may be cut into pieces.
- `leNat_of_bytes`: reading back the bytes of a number gives the number, up to the width read.
- `byteOf_leNat`: the bytes of a number read from memory are the bytes it was read from.
- `leNat_eq_iff`: what it takes to read a given number.
-/
import Mathlib

namespace FlexAlloc.Core

/-- the bytes of a device, or of a buffer -/
abbrev Bytes := ℕ → UInt8

/-- overwrite `n` bytes at `off` with the bytes of `buf` from `src` on -/
def copyBytes (dst : Bytes) (off : ℕ) (buf : Bytes) (src n : ℕ) : Bytes := fun i =>
  if off ≤ i ∧ i < off + n then buf (src + (i - off)) else dst i

theorem copyBytes_of_mem {dst buf : Bytes} {off src n i : ℕ} (h : off ≤ i) (h' : i < off + n) :
    copyBytes dst off buf src n i = buf (src + (i - off)) := if_pos ⟨h, h'⟩

theorem copyBytes_of_not_mem {dst buf : Bytes} {off src n i : ℕ} (h : i < off ∨ off + n ≤ i) :
    copyBytes dst off buf src n i = dst i := if_neg (by omega)

@[simp] theorem copyBytes_zero (dst buf : Bytes) (off src : ℕ) : copyBytes dst off buf src 0 = dst :=
  funext fun _ => copyBytes_of_not_mem (by omega)

/-- **Cutting a copy in two.** -/
theorem copyBytes_append (dst buf : Bytes) (off src m n : ℕ) :
    copyBytes (copyBytes dst off buf src m) (off + m) buf (src + m) n = copyBytes dst off buf src (m + n) := by
  funext i
  by_cases h1 : off + m ≤ i ∧ i < off + m + n
  · rw [copyBytes_of_mem h1.1 h1.2, copyBytes_of_mem (by omega) (by omega)]
    congr 1; omega
  · rw [copyBytes_of_not_mem (by omega)]
    by_cases h2 : off ≤ i ∧ i < off + m
    · rw [copyBytes_of_mem h2.1 h2.2, copyBytes_of_mem h2.1 (by omega)]
    · rw [copyBytes_of_not_mem (by omega), copyBytes_of_not_mem (by omega)]

/-- byte `i` of a number -/
def byteOf (v i : ℕ) : UInt8 := UInt8.ofNat (v / 256 ^ i)

/-- the number in the `k` bytes at `off` -/
def leNat (b : Bytes) : ℕ → ℕ → ℕ
  | _, 0 => 0
  | off, k + 1 => (b off).toNat + 256 * leNat b (off + 1) k

theorem leNat_of_bytes {b : Bytes} {v off k : ℕ} (h : ∀ i < k, b (off + i) = byteOf v i) :
    leNat b off k = v % 256 ^ k := by
  induction k generalizing v off with
  | zero => simp [leNat, Nat.mod_one]
  | succ k ih =>
    have hrest : leNat b (off + 1) k = v / 256 % 256 ^ k := by
      refine ih fun i hi => ?_
      have := h (i + 1) (by omega)
      rw [show off + 1 + i = off + (i + 1) by omega, this, byteOf, byteOf, Nat.div_div_eq_div_mul, pow_succ, mul_comm]
    have hfirst : (b off).toNat = v % 256 := by
      have := h 0 (by omega)
      rw [Nat.add_zero] at this
      rw [this, byteOf, pow_zero, Nat.div_one, UInt8.toNat_ofNat']
    rw [leNat, hrest, hfirst, pow_succ, mul_comm (256 ^ k), Nat.mod_mul]

theorem leNat_lt (b : Bytes) (off k : ℕ) : leNat b off k < 256 ^ k := by
  induction k generalizing off with
  | zero => simp [leNat]
  | succ k ih =>
    have h1 := ih (off + 1)
    have h2 := (b off).toNat_lt
    rw [leNat, pow_succ]
    omega

/-- **Writing back what was read.** -/
theorem byteOf_leNat (b : Bytes) {off k i : ℕ} (hi : i < k) : byteOf (leNat b off k) i = b (off + i) := by
  induction k generalizing off i with
  | zero => omega
  | succ k ih =>
    have hb := (b off).toNat_lt
    cases i with
    | zero =>
      rw [byteOf, pow_zero, Nat.div_one, leNat]
      refine UInt8.toNat_inj.1 ?_
      rw [UInt8.toNat_ofNat', Nat.add_mul_mod_self_left, Nat.mod_eq_of_lt hb, Nat.add_zero]
    | succ i =>
      have hdiv : leNat b off (k + 1) / 256 ^ (i + 1) = leNat b (off + 1) k / 256 ^ i := by
        rw [pow_succ, mul_comm, ← Nat.div_div_eq_div_mul, leNat, Nat.add_mul_div_left _ _ (by decide),
          Nat.div_eq_of_lt hb, Nat.zero_add]
      rw [byteOf, hdiv, ← byteOf, ih (by omega), Nat.add_assoc, Nat.add_comm 1 i]

theorem leNat_eq_iff {b : Bytes} {v off k : ℕ} (hv : v < 256 ^ k) :
    leNat b off k = v ↔ ∀ i < k, b (off + i) = byteOf v i := by
  constructor
  · rintro rfl i hi
    exact (byteOf_leNat b hi).symm
  · intro h
    rw [leNat_of_bytes h, Nat.mod_eq_of_lt hv]

theorem leNat_congr {b c : Bytes} {off off' k : ℕ} (h : ∀ i < k, b (off + i) = c (off' + i)) :
    leNat b off k = leNat c off' k := by
  induction k generalizing off off' with
  | zero => rfl
  | succ k ih =>
    have hrest : leNat b (off + 1) k = leNat c (off' + 1) k := ih fun i hi => by
      have := h (i + 1) (by omega)
      rwa [← Nat.add_assoc, ← Nat.add_assoc, Nat.add_right_comm, Nat.add_right_comm off'] at this
    have hfirst : b off = c off' := h 0 (by omega)
    rw [leNat, leNat, hfirst, hrest]

theorem leNat_copyBytes {k n : ℕ} (hk : k ≤ n) (dst buf : Bytes) (off src : ℕ) :
    leNat (copyBytes dst off buf src n) off k = leNat buf src k := by
  refine leNat_congr fun i hi => ?_
  rw [copyBytes_of_mem (by omega) (by omega), Nat.add_sub_cancel_left]

end FlexAlloc.Core
