/-
An interleaved layout: `k` parts of `F` places each, filled a chunk of `C` items at a time, in turn.

`deal k F C x` is the place of item `x`, and `undeal k F C y` the item at place `y`.

- `translate_translate`: two steps that each cut a number and put something between the cuts make up the layout.
- `deal_add`, `deal_row`: the items of a chunk lie next to each other, and so do the chunks of a part.
- `deal_bijOn`: the layout is a bijection, of any grid of items that the chunks and parts respect.
-/
import Mathlib

namespace FlexAlloc.Core

/-- the place of item `x`: its chunk is dealt to part `x / C % k`, as that part's chunk `x / C / k` -/
def deal (k F C x : ℕ) : ℕ := x / C % k * F + x / C / k * C + x % C

/-- the item at place `y` -/
def undeal (k F C y : ℕ) : ℕ := (y % F / C * k + y / F) * C + y % C

/-- `n` with `step` in place of each whole `chunk` in it -/
def translate (n chunk step : ℕ) : ℕ := n % chunk + n / chunk * step

variable {k F C x y d b : ℕ}

theorem translate_le {n chunk step : ℕ} (hle : step ≤ chunk) : translate n chunk step ≤ n := by
  have hdiv := Nat.mod_add_div n chunk
  have hmul := Nat.mul_le_mul_left (n / chunk) hle
  rw [Nat.mul_comm chunk] at hdiv
  unfold translate
  omega

theorem deal_add (h : x % C + d < C) : deal k F C (x + d) = deal k F C x + d := by
  have hdiv := Nat.div_add_mod x C
  have hsum : x + d = x % C + d + C * (x / C) := by omega
  have hchunk : (x + d) / C = x / C := by
    rw [hsum, Nat.add_mul_div_left _ _ (by omega), Nat.div_eq_of_lt h, Nat.zero_add]
  have hitem : (x + d) % C = x % C + d := by rw [hsum, Nat.add_mul_mod_self_left, Nat.mod_eq_of_lt h]
  rw [deal, deal, hchunk, hitem, ← Nat.add_assoc]

/-- one row on from an item: the rest of its chunk and one chunk of each other part are passed -/
theorem next_row (hk : 0 < k) (x : ℕ) (hC : 0 < C) : x + (C - x % C) + C * (k - 1) = (x / C + k) * C := by
  have hmod := Nat.mod_lt x hC
  obtain ⟨k, rfl⟩ : ∃ n, k = n + 1 := ⟨k - 1, by omega⟩
  calc x + (C - x % C) + C * (k + 1 - 1) = C * (x / C) + x % C + (C - x % C) + C * k := by
        rw [Nat.div_add_mod, Nat.add_sub_cancel]
    _ = C * (x / C) + C + C * k := by omega
    _ = (x / C + (k + 1)) * C := by ring

theorem deal_row (hk : 0 < k) (hC : 0 < C) (x : ℕ) :
    deal k F C (x + (C - x % C) + C * (k - 1)) = deal k F C x + (C - x % C) := by
  have hmod := Nat.mod_lt x hC
  rw [next_row hk x hC, deal, deal, Nat.mul_div_cancel _ hC, Nat.mul_mod_left, Nat.add_mod_right,
    Nat.add_div_right _ hk, Nat.succ_mul]
  omega

theorem row_lt (hk : 0 < k) (hC : 0 < C) (hF : C ∣ F) (hx : x < k * F) : x / C / k * C + x % C < F := by
  obtain ⟨R, rfl⟩ := hF
  have hitem := Nat.mod_lt x hC
  have hrow : x / C / k < R := by
    rw [Nat.div_div_eq_div_mul, Nat.div_lt_iff_lt_mul (Nat.mul_pos hC hk)]
    calc x < k * (C * R) := hx
      _ = R * (C * k) := by ring
  have hrows := Nat.mul_le_mul_right C (Nat.succ_le_of_lt hrow)
  rw [Nat.succ_mul, Nat.mul_comm R] at hrows
  omega

theorem deal_lt (hk : 0 < k) (hC : 0 < C) (hF : C ∣ F) (hx : x < k * F) : deal k F C x < k * F := by
  have hrow := row_lt hk hC hF hx
  have hpart := Nat.mul_le_mul_right F (Nat.succ_le_of_lt (Nat.mod_lt (x / C) hk))
  rw [Nat.succ_mul] at hpart
  unfold deal
  omega

theorem undeal_deal (hk : 0 < k) (hC : 0 < C) (hF : C ∣ F) (hx : x < k * F) : undeal k F C (deal k F C x) = x := by
  have hrow := row_lt hk hC hF hx
  have hitem := Nat.mod_lt x hC
  have hsplit : deal k F C x = x / C % k * F + (x / C / k * C + x % C) := by rw [deal, Nat.add_assoc]
  have hpart : deal k F C x / F = x / C % k := by
    rw [hsplit, Nat.add_comm, Nat.add_mul_div_right _ _ (by omega), Nat.div_eq_of_lt hrow, Nat.zero_add]
  have hinside : deal k F C x % F = x / C / k * C + x % C := by rw [hsplit, Nat.mul_add_mod_of_lt hrow]
  have hchunk : deal k F C x % F / C = x / C / k := by
    rw [hinside, Nat.add_comm, Nat.add_mul_div_right _ _ hC, Nat.div_eq_of_lt hitem, Nat.zero_add]
  have hfront : deal k F C x % C = x % C := by
    rw [← Nat.mod_mod_of_dvd _ hF, hinside, Nat.mul_add_mod_of_lt hitem]
  calc undeal k F C (deal k F C x) = (x / C / k * k + x / C % k) * C + x % C := by
        rw [undeal, hchunk, hpart, hfront]
    _ = x / C * C + x % C := by rw [Nat.div_add_mod']
    _ = x := Nat.div_add_mod' x C

theorem deal_dvd (hC : b ∣ C) (hF : b ∣ F) (hx : b ∣ x) : b ∣ deal k F C x :=
  ((hF.mul_left _).add (hC.mul_left _)).add ((Nat.dvd_mod_iff hC).2 hx)

/-- **The layout is a bijection** of the items, and of every grid `b` of them that divides the chunks. -/
theorem deal_bijOn (hk : 0 < k) (hC : 0 < C) (hF : C ∣ F) (hb : b ∣ C) :
    Set.BijOn (deal k F C) {x | x < k * F ∧ b ∣ x} {x | x < k * F ∧ b ∣ x} := by
  have hfinite : {x | x < k * F ∧ b ∣ x}.Finite := (Set.finite_Iio (k * F)).subset fun x hx => hx.1
  have hmaps : Set.MapsTo (deal k F C) {x | x < k * F ∧ b ∣ x} {x | x < k * F ∧ b ∣ x} := by
    intro x hx
    exact ⟨deal_lt hk hC hF hx.1, deal_dvd hb (hb.trans hF) hx.2⟩
  apply (hfinite.injOn_iff_bijOn_of_mapsTo hmaps).1
  intro x hx y hy heq
  rw [← undeal_deal hk hC hF hx.1, heq, undeal_deal hk hC hF hy.1]

/-- cut into chunks with `F` between their fronts, and that into rows with a chunk between their fronts -/
theorem translate_translate (hk : 0 < k) (hC : 0 < C) (hF : C ∣ F) (hpos : 0 < F) (x : ℕ) :
    translate (translate x C F) (k * F) C = deal k F C x := by
  have hitem : x % C < F := (Nat.mod_lt _ hC).trans_le (Nat.le_of_dvd hpos hF)
  have hpart := Nat.mod_lt (x / C) hk
  have hsum : translate x C F = x % C + x / C % k * F + k * F * (x / C / k) := by
    have hrow := Nat.mod_add_div (x / C) k
    calc translate x C F = x % C + (x / C % k + k * (x / C / k)) * F := by rw [hrow, translate]
      _ = x % C + x / C % k * F + k * F * (x / C / k) := by ring
  have hlt : x % C + x / C % k * F < k * F := by
    calc x % C + x / C % k * F < F + x / C % k * F := Nat.add_lt_add_right hitem _
      _ = (x / C % k + 1) * F := by rw [Nat.succ_mul, Nat.add_comm]
      _ ≤ k * F := Nat.mul_le_mul_right _ hpart
  rw [translate, hsum, Nat.add_mul_mod_self_left, Nat.mod_eq_of_lt hlt, Nat.add_mul_div_left _ _ (by omega),
    Nat.div_eq_of_lt hlt, Nat.zero_add, deal]
  omega

end FlexAlloc.Core
