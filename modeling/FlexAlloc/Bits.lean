/-
`flexalloc_bits.c`: counting trailing zeros and set bits of a 32-bit word.

- `ntz_twoPow`: on a word with one set bit, `ntz` is the position of that bit. This is the only way the freelist uses
  it.
- `countSetBits_eq`: the parallel sum of `count_set_bits` is the number of set bits, for every word. The first three
  rounds act on each byte on its own, so they are checked byte by byte; the last two add up the four bytes.
-/
import FlexAlloc.Basic
import FlexAlloc.Core.BitWord

namespace FlexAlloc

open FlexAlloc.Core

/-- `ntz`: number of trailing zero bits -/
def ntz (x : BitVec 32) : ℕ :=
  if x = 0 then 32 else
    let n := 1
    let (n, x) := if x &&& 0x0000FFFF = 0 then (n + 16, x >>> 16) else (n, x)
    let (n, x) := if x &&& 0x000000FF = 0 then (n + 8, x >>> 8) else (n, x)
    let (n, x) := if x &&& 0x0000000F = 0 then (n + 4, x >>> 4) else (n, x)
    let (n, x) := if x &&& 0x00000003 = 0 then (n + 2, x >>> 2) else (n, x)
    n - (x &&& 1).toNat

/-- `count_set_bits`: the parallel sum -/
def countSetBits (val : BitVec 32) : ℕ :=
  let val := (val &&& 0x55555555) + ((val >>> 1) &&& 0x55555555)
  let val := (val &&& 0x33333333) + ((val >>> 2) &&& 0x33333333)
  let val := (val &&& 0x0F0F0F0F) + ((val >>> 4) &&& 0x0F0F0F0F)
  let val := (val &&& 0x00FF00FF) + ((val >>> 8) &&& 0x00FF00FF)
  ((val &&& 0x0000FFFF) + ((val >>> 16) &&& 0x0000FFFF)).toNat

theorem ntz_twoPow (k : ℕ) (hk : k < 32) : ntz (BitVec.twoPow 32 k) = k := by
  have h : ∀ i : Fin 32, ntz (BitVec.twoPow 32 i) = i := by decide
  exact h ⟨k, hk⟩

/-! ## The parallel sum -/

/-- one round of the sum: add the lanes selected by mask `m` to the ones `s` bits above them -/
def laneSum (s m x : ℕ) : ℕ := (x &&& m) + ((x >>> s) &&& m)

/-- a round of `count_set_bits` is `laneSum`: the sum of two masked words does not wrap -/
theorem toNat_round (s m : ℕ) (hm : 2 * m < 2 ^ 32) (v : BitVec 32) :
    ((v &&& BitVec.ofNat 32 m) + ((v >>> s) &&& BitVec.ofNat 32 m)).toNat = laneSum s m v.toNat := by
  have hm' : m % 2 ^ 32 = m := Nat.mod_eq_of_lt (by omega)
  have h1 : v.toNat &&& m ≤ m := Nat.and_le_right
  have h2 : v.toNat >>> s &&& m ≤ m := Nat.and_le_right
  rw [BitVec.toNat_add, BitVec.toNat_and, BitVec.toNat_and, BitVec.toNat_ushiftRight, BitVec.toNat_ofNat, hm',
    Nat.mod_eq_of_lt (by omega), laneSum]

/-- a round acts on each lane on its own when its mask is the same small mask in every lane -/
theorem laneSum_lane (k s m M a b : ℕ) (hs : s ≤ k) (hb : b < 2 ^ k) (hm : m < 2 ^ (k - s)) :
    laneSum s (2 ^ k * M + m) (2 ^ k * a + b) = 2 ^ k * laneSum s M a + laneSum s m b := by
  have hmk : m < 2 ^ k := hm.trans_le (Nat.pow_le_pow_right (by decide) (Nat.sub_le k s))
  unfold laneSum
  rw [land_lane k a b M m hb hmk, shift_land_lane k s a b M m hs hb hm]
  ring

/-- the first three rounds on one byte -/
def byteCount (b : ℕ) : ℕ := laneSum 4 0x0F (laneSum 2 0x33 (laneSum 1 0x55 b))

theorem byteCount_eq (b : ℕ) (hb : b < 2 ^ 8) : byteCount b = (List.range 8).countP (b.testBit ·) := by
  have h : ∀ i : Fin 256, byteCount i = (List.range 8).countP (i.val.testBit ·) := by decide +kernel
  exact h ⟨b, hb⟩

theorem laneSum_lt (b : ℕ) (hb : b < 2 ^ 8) :
    laneSum 1 0x55 b < 2 ^ 8 ∧ laneSum 2 0x33 (laneSum 1 0x55 b) < 2 ^ 8 ∧ byteCount b ≤ 8 := by
  have h : ∀ i : Fin 256, laneSum 1 0x55 i < 2 ^ 8 ∧ laneSum 2 0x33 (laneSum 1 0x55 i) < 2 ^ 8 ∧
      byteCount i ≤ 8 := by decide +kernel
  exact h ⟨b, hb⟩

theorem rounds_bytes (b0 b1 b2 b3 : ℕ) (h0 : b0 < 2 ^ 8) (h1 : b1 < 2 ^ 8) (h2 : b2 < 2 ^ 8) :
    laneSum 4 0x0F0F0F0F (laneSum 2 0x33333333 (laneSum 1 0x55555555
      (2 ^ 8 * (2 ^ 8 * (2 ^ 8 * b3 + b2) + b1) + b0))) =
    2 ^ 8 * (2 ^ 8 * (2 ^ 8 * byteCount b3 + byteCount b2) + byteCount b1) + byteCount b0 := by
  have e1 : (0x55555555 : ℕ) = 2 ^ 8 * (2 ^ 8 * (2 ^ 8 * 0x55 + 0x55) + 0x55) + 0x55 := by norm_num
  have e2 : (0x33333333 : ℕ) = 2 ^ 8 * (2 ^ 8 * (2 ^ 8 * 0x33 + 0x33) + 0x33) + 0x33 := by norm_num
  have e3 : (0x0F0F0F0F : ℕ) = 2 ^ 8 * (2 ^ 8 * (2 ^ 8 * 0x0F + 0x0F) + 0x0F) + 0x0F := by norm_num
  obtain ⟨p0, q0, -⟩ := laneSum_lt b0 h0
  obtain ⟨p1, q1, -⟩ := laneSum_lt b1 h1
  obtain ⟨p2, q2, -⟩ := laneSum_lt b2 h2
  have byte : ∀ s m M a b : ℕ, s ≤ 8 → b < 2 ^ 8 → m < 2 ^ (8 - s) →
      laneSum s (2 ^ 8 * M + m) (2 ^ 8 * a + b) = 2 ^ 8 * laneSum s M a + laneSum s m b := laneSum_lane 8
  rw [e1, byte 1 0x55 _ _ b0 (by decide) h0 (by decide), byte 1 0x55 _ _ b1 (by decide) h1 (by decide),
    byte 1 0x55 _ _ b2 (by decide) h2 (by decide), e2, byte 2 0x33 _ _ _ (by decide) p0 (by decide),
    byte 2 0x33 _ _ _ (by decide) p1 (by decide), byte 2 0x33 _ _ _ (by decide) p2 (by decide), e3,
    byte 4 0x0F _ _ _ (by decide) q0 (by decide), byte 4 0x0F _ _ _ (by decide) q1 (by decide),
    byte 4 0x0F _ _ _ (by decide) q2 (by decide)]
  rfl

theorem rounds_sum (g0 g1 g2 g3 : ℕ) (h0 : g0 ≤ 8) (h1 : g1 ≤ 8) (h2 : g2 ≤ 8) (h3 : g3 ≤ 8) :
    laneSum 16 0x0000FFFF (laneSum 8 0x00FF00FF (2 ^ 8 * (2 ^ 8 * (2 ^ 8 * g3 + g2) + g1) + g0)) =
      g0 + g1 + g2 + g3 := by
  have pair : ∀ a b : Fin 9, laneSum 8 0xFF (2 ^ 8 * a + b) = a + b := by decide +kernel
  have half : ∀ a b : Fin 17, laneSum 16 0xFFFF (2 ^ 16 * a + b) = a + b := by decide +kernel
  have hlow : 2 ^ 8 * g1 + g0 < 2 ^ 16 := by omega
  have e : 2 ^ 8 * (2 ^ 8 * (2 ^ 8 * g3 + g2) + g1) + g0 = 2 ^ 16 * (2 ^ 8 * g3 + g2) + (2 ^ 8 * g1 + g0) := by ring
  have em : (0x00FF00FF : ℕ) = 2 ^ 16 * 0xFF + 0xFF := by norm_num
  rw [e, em, laneSum_lane 16 8 0xFF 0xFF _ _ (by decide) hlow (by decide),
    pair ⟨g3, by omega⟩ ⟨g2, by omega⟩, pair ⟨g1, by omega⟩ ⟨g0, by omega⟩,
    half ⟨g3 + g2, by omega⟩ ⟨g1 + g0, by omega⟩]
  simp only
  omega

theorem bitCount_bytes (x : BitVec 32) :
    bitCount x = byteCount (x.toNat % 2 ^ 8) + byteCount (x.toNat / 2 ^ 8 % 2 ^ 8) +
      byteCount (x.toNat / 2 ^ 16 % 2 ^ 8) + byteCount (x.toNat / 2 ^ 24 % 2 ^ 8) := by
  have byte : ∀ k, byteCount (x.toNat / 2 ^ k % 2 ^ 8) = (List.range 8).countP (fun j => x.getLsbD (k + j)) := by
    intro k
    rw [byteCount_eq _ (Nat.mod_lt _ (by decide))]
    refine List.countP_congr fun j hj => ?_
    rw [Nat.testBit_mod_two_pow, Nat.testBit_div_two_pow, BitVec.testBit_toNat, Nat.add_comm]
    simp [List.mem_range.1 hj]
  have h0 := byte 0
  simp only [Nat.pow_zero, Nat.div_one, Nat.zero_add] at h0
  have hrange : List.range 32 = List.range 8 ++ (List.range 8).map (8 + ·) ++ (List.range 8).map (16 + ·) ++
      (List.range 8).map (24 + ·) := by decide
  rw [h0, byte 8, byte 16, byte 24, bitCount, hrange]
  simp only [List.countP_append, List.countP_map, Function.comp_def]

/-- **`count_set_bits` counts the set bits**, for every 32-bit word. -/
theorem countSetBits_eq (x : BitVec 32) : countSetBits x = bitCount x := by
  have hx := x.isLt
  have hsplit : x.toNat = 2 ^ 8 * (2 ^ 8 * (2 ^ 8 * (x.toNat / 2 ^ 24 % 2 ^ 8) + x.toNat / 2 ^ 16 % 2 ^ 8) +
      x.toNat / 2 ^ 8 % 2 ^ 8) + x.toNat % 2 ^ 8 := by omega
  have hlt : ∀ n, n % 2 ^ 8 < 2 ^ 8 := fun n => Nat.mod_lt _ (by decide)
  have hle : ∀ n, byteCount (n % 2 ^ 8) ≤ 8 := fun n => (laneSum_lt _ (hlt n)).2.2
  have hrounds : countSetBits x = laneSum 16 0x0000FFFF (laneSum 8 0x00FF00FF (laneSum 4 0x0F0F0F0F
      (laneSum 2 0x33333333 (laneSum 1 0x55555555 x.toNat)))) := by
    unfold countSetBits
    rw [← toNat_round 1 0x55555555 (by norm_num), ← toNat_round 2 0x33333333 (by norm_num),
      ← toNat_round 4 0x0F0F0F0F (by norm_num), ← toNat_round 8 0x00FF00FF (by norm_num),
      ← toNat_round 16 0x0000FFFF (by norm_num)]
    rfl
  rw [hrounds, hsplit, rounds_bytes _ _ _ _ (hlt _) (hlt _) (hlt _), rounds_sum _ _ _ _ (hle _) (hle _) (hle _) (hle _),
    bitCount_bytes]

end FlexAlloc
