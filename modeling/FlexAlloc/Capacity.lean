/-
Does a formatted device have room for what it is formatted with?

`fla_mkfs_geo_calc` sets blocks aside for the super block and the pools, and gives the rest to the slabs and their
headers. Three things can go wrong: on a device of a few blocks the difference wraps below zero; the 32-bit product in
`fla_nelems_max` wraps, so that the headers of the slabs are not subtracted; and when the number of pools is inferred,
the pool segment is computed anew for the final number, which is larger than the one set aside when `npools * 2`
wrapped.

`Committable` says when none of this bites, in terms of the request. `geo_fits_iff`: a geometry that is accepted fits
in the device if and only if the request is committable. `geo_overcommits`: a device of 4097 * 2^20 + 4 blocks is
formatted with 4097 slabs of 2^20 blocks and no room for their headers, and one of three blocks with 2^32 - 1 slabs.

The search alone: `nelemsMax_largest_iff`, it finds the largest number of slabs that fit with their headers if and only
if the product does not pass 2^32 or the first number tried is the answer.
-/
import FlexAlloc.Layout

namespace FlexAlloc

/-- blocks of the pool segment for `p` pools -/
def poolBlocks (p lb : ℕ) : ℕ := flaGeoPoolSgmtNblocks (flaGeoPoolSgmtCalc p lb)

/-- the number of pools space is first set aside for: the number asked for, or one for each slab of a device without
pools -/
def pools0 (nlb lb slabNlb npools : ℕ) : ℕ :=
  if npools = 0 then flaNelemsMax (sub64 nlb 1) slabNlb (flaSlabSgmtCalc · lb) else npools

/-- `n` is the largest number of elements that fit together with their metadata, or 0 when none fits -/
def LargestFit (units elem : ℕ) (md : ℕ → ℕ) (n : ℕ) : Prop :=
  IsGreatest {m | m * elem + md m ≤ units} n ∨ n = 0 ∧ ∀ m, ¬ m * elem + md m ≤ units

/-- the request can be met: the device has more than the fewest blocks; where the product of slabs and blocks per slab
passes 2^32 the blocks left over hold the slab headers; and where 2^31 pools or more were inferred the pool segment for the
largest number of slabs that fit still fits -/
def Committable (nlb lb slabNlb npools : ℕ) : Prop :=
  let p := pools0 nlb lb slabNlb npools
  let room := nlb - 1 - poolBlocks p lb
  let q := room / slabNlb
  6 ≤ nlb ∧
    (2 ^ 32 ≤ q * slabNlb → q < 2 ^ 32 →
      poolBlocks (min p q) lb + flaSlabSgmtCalc q lb ≤ poolBlocks p lb + room % slabNlb) ∧
    (q * slabNlb < 2 ^ 32 → npools = 0 → 2 ^ 31 ≤ p → ∀ n, LargestFit room slabNlb (flaSlabSgmtCalc · lb) n →
      poolBlocks (min p n) lb ≤ poolBlocks p lb + (room - (n * slabNlb + flaSlabSgmtCalc n lb)))

section Bounds

variable {lb : ℕ}

theorem ceilDiv_le_512 (hlb : 512 ≤ lb) (x : ℕ) : flaCeilDiv x lb ≤ flaCeilDiv x 512 := by
  unfold flaCeilDiv
  set k := (x + 512 - 1) / 512 with hk
  have hx : x ≤ 512 * k := by omega
  have hmul : 512 * k ≤ lb * k := Nat.mul_le_mul_right k hlb
  have : x + lb - 1 < (k + 1) * lb := by
    rw [Nat.add_mul, Nat.mul_comm k lb]; omega
  exact Nat.le_of_lt_succ ((Nat.div_lt_iff_lt_mul (by omega)).2 this)

theorem ceilDiv_pos (hlb : 512 ≤ lb) {x : ℕ} (hx : 0 < x) : 0 < flaCeilDiv x lb :=
  Nat.div_pos (by omega) (by omega)

theorem ceilDiv_mono (b : ℕ) {x y : ℕ} (h : x ≤ y) : flaCeilDiv x b ≤ flaCeilDiv y b :=
  Nat.div_le_div_right (by omega)

theorem mdNlb_eq (hlb : 512 ≤ lb) : u32 (flaCeilDiv sizeofFlaSuper lb) = 1 := by
  have h1 := ceilDiv_le_512 hlb sizeofFlaSuper
  have h2 := ceilDiv_pos hlb (x := sizeofFlaSuper) (by decide)
  have h3 : flaCeilDiv sizeofFlaSuper 512 = 1 := by decide
  rw [u32_of_lt (by omega)]; omega

theorem slabSgmt_bounds (hlb : 512 ≤ lb) {n : ℕ} (hn : n < 2 ^ 32) :
    1 ≤ flaSlabSgmtCalc n lb ∧ flaSlabSgmtCalc n lb < 2 ^ 28 := by
  have h1 := ceilDiv_le_512 hlb (n * sizeofFlaSlabHeader + 12)
  have h2 := ceilDiv_pos hlb (x := n * sizeofFlaSlabHeader + 12) (by omega)
  have h3 : flaCeilDiv (n * sizeofFlaSlabHeader + 12) 512 < 2 ^ 28 := by
    unfold flaCeilDiv sizeofFlaSlabHeader; omega
  unfold flaSlabSgmtCalc
  rw [u32_of_lt (by omega)]; omega

theorem poolSgmt_parts (hlb : 512 ≤ lb) {p : ℕ} (hp : p < 2 ^ 32) :
    (flaGeoPoolSgmtCalc p lb).freelistNlb = flaCeilDiv (flaFlistSize p) lb ∧
      (flaGeoPoolSgmtCalc p lb).htblNlb = flaCeilDiv (8 + u32 (p * 2) * 16) lb ∧
      (flaGeoPoolSgmtCalc p lb).entriesNlb = flaCeilDiv (p * 160) lb ∧
      flaCeilDiv (flaFlistSize p) lb ≤ (4 * (1 + (p + 31) / 32) + 511) / 512 ∧
      flaCeilDiv (8 + u32 (p * 2) * 16) lb ≤ (8 + u32 (p * 2) * 16 + 511) / 512 ∧
      flaCeilDiv (p * 160) lb ≤ (p * 160 + 511) / 512 := by
  have h1 := ceilDiv_le_512 hlb (flaFlistSize p)
  have h2 := ceilDiv_le_512 hlb (8 + u32 (p * 2) * 16)
  have h3 := ceilDiv_le_512 hlb (p * 160)
  have hu := u32_lt (p * 2)
  have e1 : flaCeilDiv (flaFlistSize p) 512 = (4 * (1 + (p + 31) / 32) + 511) / 512 := rfl
  have e2 : flaCeilDiv (8 + u32 (p * 2) * 16) 512 = (8 + u32 (p * 2) * 16 + 511) / 512 := rfl
  have e3 : flaCeilDiv (p * 160) 512 = (p * 160 + 511) / 512 := rfl
  rw [e1] at h1
  rw [e2] at h2
  rw [e3] at h3
  refine ⟨u32_of_lt (by omega), u32_of_lt ?_, u32_of_lt ?_, h1, h2, h3⟩
  · unfold sizeofFlaPoolHtblHeader sizeofFlaHtblEntry; omega
  · unfold sizeofFlaPoolEntry; omega

theorem poolBlocks_eq (hlb : 512 ≤ lb) {p : ℕ} (hp : p < 2 ^ 32) :
    poolBlocks p lb = flaCeilDiv (flaFlistSize p) lb + flaCeilDiv (8 + u32 (p * 2) * 16) lb + flaCeilDiv (p * 160) lb := by
  obtain ⟨e1, e2, e3, h1, h2, h3⟩ := poolSgmt_parts hlb hp
  have hu := u32_lt (p * 2)
  unfold poolBlocks flaGeoPoolSgmtNblocks
  rw [e1, e2, e3, u32_of_lt (by omega)]

theorem poolBlocks_bounds (hlb : 512 ≤ lb) {p : ℕ} (hp : p < 2 ^ 32) (hpos : 0 < p) :
    3 ≤ poolBlocks p lb ∧ poolBlocks p lb < 2 ^ 31 ∧ (6 ≤ p + 1 → poolBlocks p lb ≤ p) := by
  obtain ⟨-, -, -, h1, h2, h3⟩ := poolSgmt_parts hlb hp
  have hu : u32 (p * 2) ≤ p * 2 := u32_le _
  have hu' := u32_lt (p * 2)
  have g1 := ceilDiv_pos hlb (x := flaFlistSize p) (by unfold flaFlistSize; omega)
  have g2 := ceilDiv_pos hlb (x := 8 + u32 (p * 2) * 16) (by omega)
  have g3 := ceilDiv_pos hlb (x := p * 160) (by omega)
  rw [poolBlocks_eq hlb hp]
  refine ⟨by omega, by omega, fun h => by omega⟩

/-- without a wrap, fewer pools need no more blocks -/
theorem poolBlocks_mono (hlb : 512 ≤ lb) {p r : ℕ} (h : p ≤ r) (hr : r < 2 ^ 31) :
    poolBlocks p lb ≤ poolBlocks r lb := by
  rw [poolBlocks_eq hlb (by omega), poolBlocks_eq hlb (by omega), u32_of_lt (by omega), u32_of_lt (by omega)]
  have h1 : flaFlistSize p ≤ flaFlistSize r := by
    unfold flaFlistSize flaFreelistU32Elems flaCeilDiv; omega
  have h2 := ceilDiv_mono lb h1
  have h3 := ceilDiv_mono lb (show 8 + p * 2 * 16 ≤ 8 + r * 2 * 16 by omega)
  have h4 := ceilDiv_mono lb (show p * 160 ≤ r * 160 by omega)
  omega

end Bounds

/-! ## The downward search -/

section Search

variable {units elem : ℕ} {md : ℕ → ℕ}

theorem nelemsMax_le : flaNelemsMax units elem md ≤ u32 (units / elem) := Nat.findGreatest_le _

/-- without a wrap the loop's test says that the elements and their metadata fit -/
theorem nelemsMax_test (hu : units < 2 ^ 64) (hprod : units / elem * elem < 2 ^ 32) {m : ℕ} (hm : m ≤ units / elem) :
    md m ≤ sub64 units (u32 (m * elem)) ↔ m * elem + md m ≤ units := by
  have hmul : m * elem ≤ units / elem * elem := Nat.mul_le_mul_right _ hm
  have hle : units / elem * elem ≤ units := Nat.div_mul_le_self _ _
  rw [u32_of_lt (by omega), sub64_of_le (by omega) hu]
  omega

theorem nelemsMax_fits (hu : units < 2 ^ 64) (hprod : units / elem * elem < 2 ^ 32)
    (hpos : 0 < flaNelemsMax units elem md) :
    flaNelemsMax units elem md * elem + md (flaNelemsMax units elem md) ≤ units := by
  have hle : flaNelemsMax units elem md ≤ units / elem := nelemsMax_le.trans (u32_le _)
  have htest := Nat.findGreatest_of_ne_zero (rfl : flaNelemsMax units elem md = _) (Nat.pos_iff_ne_zero.1 hpos)
  exact (nelemsMax_test hu hprod hle).1 htest

/-- with a wrap the first number tried is taken: the product that is subtracted is short by 2^32 -/
theorem nelemsMax_wraps (hu : units < 2 ^ 64) (hq : units / elem < 2 ^ 32)
    (hprod : 2 ^ 32 ≤ units / elem * elem) (hmd : md (units / elem) ≤ 2 ^ 32) :
    flaNelemsMax units elem md = units / elem := by
  unfold flaNelemsMax
  rw [u32_of_lt hq]
  refine Nat.findGreatest_eq ?_
  have hle : units / elem * elem ≤ units := Nat.div_mul_le_self _ _
  have hshort : u32 (units / elem * elem) + 2 ^ 32 ≤ units / elem * elem := by unfold u32; omega
  rw [sub64_of_le (by omega) hu]
  omega

theorem LargestFit.unique {m n : ℕ} (hm : LargestFit units elem md m) (hn : LargestFit units elem md n) : m = n := by
  rcases hm with hm | ⟨rfl, hnone⟩ <;> rcases hn with hn | ⟨rfl, hnone'⟩
  · exact hm.unique hn
  · exact absurd hm.1 (hnone' m)
  · exact absurd hn.1 (hnone n)
  · rfl

theorem le_div_of_fits {m room : ℕ} (helem : 0 < elem) (h : m * elem + room ≤ units) : m ≤ units / elem := by
  rw [Nat.le_div_iff_mul_le helem]
  exact (Nat.le_add_right _ _).trans h

/-- without a wrap the search finds the largest number that fits -/
theorem nelemsMax_largest (hu : units < 2 ^ 64) (helem : 0 < elem) (hq : units / elem < 2 ^ 32)
    (hprod : units / elem * elem < 2 ^ 32) : LargestFit units elem md (flaNelemsMax units elem md) := by
  by_cases hex : ∃ m, m * elem + md m ≤ units
  · left
    obtain ⟨m, hm⟩ := hex
    unfold flaNelemsMax
    rw [u32_of_lt hq]
    constructor
    · have hmq := le_div_of_fits helem hm
      have htest := Nat.findGreatest_spec (P := fun k => md k ≤ sub64 units (u32 (k * elem))) hmq
        ((nelemsMax_test hu hprod hmq).2 hm)
      exact (nelemsMax_test hu hprod (Nat.findGreatest_le _)).1 htest
    · intro k hk
      have hkq := le_div_of_fits helem hk
      exact Nat.le_findGreatest hkq ((nelemsMax_test hu hprod hkq).2 hk)
  · right
    push Not at hex
    refine ⟨?_, fun m => not_le.2 (hex m)⟩
    unfold flaNelemsMax
    rw [u32_of_lt hq, Nat.findGreatest_eq_zero_iff]
    intro m _ hm htest
    exact absurd ((nelemsMax_test hu hprod hm).1 htest) (not_le.2 (hex m))

/-- **The search finds the largest number of slabs that fit with their headers** if and only if the product of slabs
and blocks per slab does not pass 2^32, or the blocks left over by the first number tried hold its headers. -/
theorem nelemsMax_largest_iff {lb : ℕ} (hu : units < 2 ^ 64) (helem : 1 ≤ elem) (hq : units / elem < 2 ^ 32)
    (hlb : 512 ≤ lb) :
    LargestFit units elem (flaSlabSgmtCalc · lb) (flaNelemsMax units elem (flaSlabSgmtCalc · lb)) ↔
      units / elem * elem < 2 ^ 32 ∨ flaSlabSgmtCalc (units / elem) lb ≤ units % elem := by
  by_cases hprod : units / elem * elem < 2 ^ 32
  · exact iff_of_true (nelemsMax_largest hu helem hq hprod) (.inl hprod)
  have hdm : units / elem * elem + units % elem = units := Nat.div_add_mod' _ _
  rw [nelemsMax_wraps hu hq (by omega) ((slabSgmt_bounds hlb hq).2.le.trans (by decide))]
  constructor
  · rintro (⟨hfit, -⟩ | ⟨hzero, -⟩)
    · have hroom : units / elem * elem + flaSlabSgmtCalc (units / elem) lb ≤ units := hfit
      exact .inr (by omega)
    · exact absurd (by rw [hzero, Nat.zero_mul]; decide) hprod
  · rintro (h | hroom)
    · exact absurd h hprod
    · left
      constructor
      · have hfit : units / elem * elem + flaSlabSgmtCalc (units / elem) lb ≤ units := by omega
        exact hfit
      · exact fun m hm => le_div_of_fits helem hm

end Search

/-- a device of 2^21 blocks in slabs of 256 -/
theorem nelemsMax_largest_iff_small :
    LargestFit (2 ^ 21) 256 (flaSlabSgmtCalc · 512) (flaNelemsMax (2 ^ 21) 256 (flaSlabSgmtCalc · 512)) ↔
      2 ^ 21 / 256 * 256 < 2 ^ 32 ∨ flaSlabSgmtCalc (2 ^ 21 / 256) 512 ≤ 2 ^ 21 % 256 :=
  nelemsMax_largest_iff (by decide) (by decide) (by decide) (by decide)

/-- 2^33 blocks in slabs of 2^10 blocks: all of them go to the slabs -/
theorem nelemsMax_no_room : ¬ LargestFit (2 ^ 33) (2 ^ 10) (flaSlabSgmtCalc · 512)
    (flaNelemsMax (2 ^ 33) (2 ^ 10) (flaSlabSgmtCalc · 512)) := by
  rw [nelemsMax_wraps (by decide) (by decide) (by decide) (by decide)]
  rintro (⟨hfit, -⟩ | ⟨hzero, -⟩)
  · have hover : ¬ 2 ^ 33 / 2 ^ 10 * 2 ^ 10 + flaSlabSgmtCalc (2 ^ 33 / 2 ^ 10) 512 ≤ 2 ^ 33 := by decide
    exact hover hfit
  · exact absurd hzero (by decide)

/-! ## The result -/

theorem mkfsGeo_fits_iff {dev : Dev} {slabNlb p n : ℕ} (hlb : 512 ≤ dev.lbNbytes) (hp : p < 2 ^ 32) :
    (mkfsGeo dev slabNlb p n).Fits ↔
      1 + poolBlocks (min p n) dev.lbNbytes + flaSlabSgmtCalc n dev.lbNbytes + n * slabNlb ≤
        dev.tbytes / dev.lbNbytes := by
  have hm : min p n < 2 ^ 32 := lt_of_le_of_lt (min_le_left _ _) hp
  obtain ⟨e1, e2, e3, -⟩ := poolSgmt_parts hlb hm
  rw [poolBlocks_eq hlb hm]
  simp only [Geo.Fits, Geo.mdBlocks, mkfsGeo, mdNlb_eq hlb, e1, e2, e3]
  omega

/-- **A formatted device is over-committed exactly when the request is not committable.** For every conventional device
with blocks of at least 512 bytes, and every request that `fla_mkfs_geo_calc` accepts. -/
theorem geo_fits_iff {dev : Dev} {npools slabNlb : ℕ} {geo : Geo} (hcs : dev.cs = .cns) (htb : dev.tbytes < 2 ^ 64)
    (hlb : 512 ≤ dev.lbNbytes) (h : flaMkfsGeoCalc dev false npools slabNlb = .ok (0, geo)) :
    geo.Fits ↔ Committable (dev.tbytes / dev.lbNbytes) dev.lbNbytes slabNlb npools := by
  obtain ⟨-, hslab, a, p, n, ha, hnpa, hn, hnpn, hadef, hpdef, hndef, rfl⟩ := mkfsGeoCalc_ok h
  set nlb := dev.tbytes / dev.lbNbytes
  have hnlb : nlb < 2 ^ 64 := lt_of_le_of_lt (Nat.div_le_self _ _) htb
  have hpb : poolBlocks p dev.lbNbytes = flaGeoPoolSgmtNblocks (flaGeoPoolSgmtCalc p dev.lbNbytes) := rfl
  rw [mdNlb_eq hlb, mkfsNslabs_single] at hadef
  rw [mdNlb_eq hlb, mkfsNslabs_single, ← hpb] at hndef
  have hp0 : pools0 nlb dev.lbNbytes slabNlb npools = p := by rw [pools0, hpdef, hadef]
  have ha32 : a < 2 ^ 32 := hadef ▸ nelemsMax_le.trans_lt (u32_lt _)
  have hn32 : n < 2 ^ 32 := hndef ▸ nelemsMax_le.trans_lt (u32_lt _)
  have hpa : p ≤ a := by rw [hpdef]; split_ifs <;> omega
  have hppos : 0 < p := by rw [hpdef]; split_ifs <;> omega
  have hmpos : 0 < min p n := lt_min hppos hn
  have hm32 : min p n < 2 ^ 32 := lt_of_le_of_lt (min_le_right _ _) hn32
  obtain ⟨hPf3, hPf31, -⟩ := poolBlocks_bounds hlb hm32 hmpos
  obtain ⟨hP3, hP31, hPle⟩ := poolBlocks_bounds hlb (show p < 2 ^ 32 by omega) hppos
  obtain ⟨hS1, hS28⟩ := slabSgmt_bounds hlb hn32
  rw [mkfsGeo_fits_iff hlb (by omega), Committable]
  simp only [hp0]
  have hnslab : n ≤ n * slabNlb := Nat.le_mul_of_pos_right n hslab
  by_cases h6 : 6 ≤ nlb
  swap
  · exact ⟨fun hfit => absurd (show 6 ≤ nlb by omega) h6, fun hc => absurd hc.1 h6⟩
  -- the pool segment fits: the pools are at most as many as the blocks after the first
  have ha' : a ≤ nlb - 1 := by
    have h1 : a ≤ (nlb - 1) / slabNlb := by
      rw [hadef, sub64_of_le (by omega) hnlb]
      exact nelemsMax_le.trans (u32_le _)
    exact h1.trans (Nat.div_le_self _ _)
  have hPn : 1 + poolBlocks p dev.lbNbytes ≤ nlb := by
    by_cases h5 : 6 ≤ p + 1
    · have := hPle h5; omega
    · have := poolBlocks_mono hlb (show p ≤ 4 by omega) (by decide)
      have h4 : poolBlocks 4 dev.lbNbytes ≤ 4 := by
        have := (poolSgmt_parts hlb (p := 4) (by decide)).2.2.2
        rw [poolBlocks_eq hlb (by decide)]
        have hu : u32 (4 * 2) = 8 := by decide
        rw [hu] at this ⊢
        omega
      omega
  set P := poolBlocks p dev.lbNbytes
  set room := nlb - 1 - P with hroom
  rw [sub64_of_le hPn hnlb, show nlb - (1 + P) = room by omega] at hndef
  have hdm : room / slabNlb * slabNlb + room % slabNlb = room := Nat.div_add_mod' _ _
  have hroom64 : room < 2 ^ 64 := by omega
  by_cases hq : room / slabNlb < 2 ^ 32
  · by_cases hprod : room / slabNlb * slabNlb < 2 ^ 32
    · -- no wrap: only the recomputed pool segment can be too large
      have hpos : 0 < flaNelemsMax room slabNlb (flaSlabSgmtCalc · dev.lbNbytes) := hndef ▸ hn
      have hfit := nelemsMax_fits hroom64 hprod hpos
      have hlargest : LargestFit room slabNlb (flaSlabSgmtCalc · dev.lbNbytes)
          (flaNelemsMax room slabNlb (flaSlabSgmtCalc · dev.lbNbytes)) := nelemsMax_largest hroom64 hslab hq hprod
      rw [← hndef] at hfit hlargest
      refine ⟨fun hf => ⟨h6, fun h' => absurd hprod (by omega), fun _ _ _ m hm => ?_⟩, fun ⟨_, _, hc⟩ => ?_⟩
      · obtain rfl := hm.unique hlargest
        omega
      by_cases hnp : npools = 0
      · rcases Nat.lt_or_ge p (2 ^ 31) with hlt | hge
        · have := poolBlocks_mono hlb (min_le_left p n) hlt
          omega
        · have := hc hprod hnp hge n hlargest
          omega
      · have hmin : min p n = p := min_eq_left (by rw [hpdef, if_neg hnp]; exact hnpn)
        rw [hmin]; omega
    · have hnq : n = room / slabNlb := by
        rw [hndef]
        exact nelemsMax_wraps hroom64 hq (by omega) ((slabSgmt_bounds hlb hq).2.le.trans (by decide))
      rw [← hnq] at hprod hdm ⊢
      refine ⟨fun hf => ⟨h6, fun _ _ => by omega, fun h' => absurd h' hprod⟩, fun ⟨_, hc, _⟩ => ?_⟩
      have := hc (by omega) hn32
      omega
  · -- more than 2^32 slabs would fit: the count is cut down by at least that many
    have hcut : u32 (room / slabNlb) + 2 ^ 32 ≤ room / slabNlb := by unfold u32; omega
    have hle : n + 2 ^ 32 ≤ room / slabNlb := by
      have : n ≤ u32 (room / slabNlb) := hndef ▸ nelemsMax_le
      omega
    have hmul := Nat.mul_le_mul_right slabNlb hle
    have hexp : (n + 2 ^ 32) * slabNlb = n * slabNlb + 2 ^ 32 * slabNlb := Nat.add_mul _ _ _
    have hbig : 2 ^ 32 ≤ 2 ^ 32 * slabNlb := Nat.le_mul_of_pos_right _ hslab
    refine ⟨fun _ => ⟨h6, fun _ h' => absurd h' hq, fun h' => ?_⟩, fun _ => by omega⟩
    exfalso
    omega

/-- a 1 GiB device in slabs of 256 blocks -/
theorem geo_fits_iff_small : ∃ geo, flaMkfsGeoCalc ⟨2 ^ 30, 512, 2 ^ 17, .cns⟩ false 4 256 = .ok (0, geo) ∧
    (geo.Fits ↔ Committable (2 ^ 30 / 512) 512 256 4) := by
  have h : flaMkfsGeoCalc ⟨2 ^ 30, 512, 2 ^ 17, .cns⟩ false 4 256 =
      .ok (0, mkfsGeo ⟨2 ^ 30, 512, 2 ^ 17, .cns⟩ 256 4 8190) := by decide +kernel
  exact ⟨_, h, geo_fits_iff rfl (by decide) (by decide) h⟩

/-- a large device whose slab headers were not subtracted, and a tiny one whose size wrapped -/
theorem geo_overcommits :
    (∃ geo, flaMkfsGeoCalc ⟨512 * (4097 * 2 ^ 20 + 4), 512, 2 ^ 17, .cns⟩ false 1 (2 ^ 20) = .ok (0, geo) ∧
      ¬ geo.Fits) ∧
      ∃ geo, flaMkfsGeoCalc ⟨1536, 512, 2 ^ 17, .cns⟩ false 1 1 = .ok (0, geo) ∧ ¬ geo.Fits :=
  ⟨⟨mkfsGeo ⟨512 * (4097 * 2 ^ 20 + 4), 512, 2 ^ 17, .cns⟩ (2 ^ 20) 1 4097, by decide +kernel, by decide +kernel⟩,
    mkfsGeo ⟨1536, 512, 2 ^ 17, .cns⟩ 1 1 (2 ^ 32 - 1), by decide +kernel, by decide +kernel⟩

end FlexAlloc
