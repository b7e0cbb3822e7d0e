/-
Where things lie on a single conventional device.

`slabRange`, `objRange` and `flistRange` are the blocks of a slab, of an object and of a slab's freelist, each computed
the way the source computes it. `Geo.Fits` says that the segments and the slabs fit in the device, over the naturals.

- `slab_placement_iff`: the slabs of a formatted device lie where they should exactly when the offset of the last one
  does not overflow 32 bits. `slab_placement_aliases`: on a device of 2^33 blocks it does, and two slabs coincide.
- `layout_disjoint`: in a geometry that fits, objects have their size, lie inside the device, and are disjoint from each
  other, from every freelist and from the metadata; freelists are disjoint from each other. Slabs may belong to
  different pools.
-/
import FlexAlloc.Geometry

namespace FlexAlloc

def slabRange (v : Volume) (s : ℕ) : Set ℕ := Set.Ico (flaGeoSlabLbOff v s) (flaGeoSlabLbOff v s + v.geo.slabNlb)

/-- the blocks of an object of a pool with objects of `objNlb` blocks -/
def objRange (v : Volume) (objNlb : ℕ) (obj : Obj) : Set ℕ :=
  Set.Ico (flaObjectSlba v objNlb obj) (flaObjectElba v objNlb obj)

/-- the blocks that hold the freelist of slab `s`, of `n` entries -/
def flistRange (v : Volume) (s n : ℕ) : Set ℕ :=
  let flistNlb := flaSlabCacheFlistNlb v n
  Set.Ico (cacheEntryLbSlba v s flistNlb) (cacheEntryLbSlba v s flistNlb + flistNlb)

/-- blocks of metadata, over the naturals -/
def Geo.mdBlocks (geo : Geo) : ℕ :=
  geo.mdNlb + geo.poolSgmt.freelistNlb + geo.poolSgmt.htblNlb + geo.poolSgmt.entriesNlb + geo.slabSgmtNlb

/-- the metadata and the slabs fit in the device, over the naturals -/
def Geo.Fits (geo : Geo) : Prop := geo.mdBlocks + geo.nslabs * geo.slabNlb ≤ geo.nlb

instance (geo : Geo) : Decidable geo.Fits := inferInstanceAs (Decidable (_ ≤ _))

theorem Ico_disjoint_of_le {a b c d : ℕ} (h : b ≤ c ∨ d ≤ a) : Disjoint (Set.Ico a b) (Set.Ico c d) := by
  rw [Set.Ico_disjoint_Ico]
  omega

/-! ## Slabs -/

theorem flaGeoSlabLbOff_single (geo : Geo) (s : ℕ) :
    flaGeoSlabLbOff (.single geo) s = flaGeoSlabsLbOff geo + u32 (s * geo.slabNlb) := rfl

/-- every slab lies `slab_nlb` blocks after the one before it, clear of the others and of the metadata -/
def PlacementExact (geo : Geo) : Prop :=
  (∀ s < geo.nslabs, flaGeoSlabLbOff (.single geo) s = flaGeoSlabsLbOff geo + s * geo.slabNlb) ∧
    (∀ s < geo.nslabs, ∀ t < geo.nslabs, s ≠ t → Disjoint (slabRange (.single geo) s) (slabRange (.single geo) t)) ∧
    ∀ s < geo.nslabs, Disjoint (slabRange (.single geo) s) (Set.Ico 0 (flaGeoSlabsLbOff geo))

theorem mul_add_le_mul {s t k : ℕ} (h : s < t) : s * k + k ≤ t * k := by
  calc s * k + k = (s + 1) * k := by ring
    _ ≤ t * k := Nat.mul_le_mul_right k h

theorem placementExact_of_lt {geo : Geo} (h : (geo.nslabs - 1) * geo.slabNlb < 2 ^ 32) : PlacementExact geo := by
  have hoff : ∀ s < geo.nslabs, flaGeoSlabLbOff (.single geo) s = flaGeoSlabsLbOff geo + s * geo.slabNlb := by
    intro s hs
    have : s * geo.slabNlb ≤ (geo.nslabs - 1) * geo.slabNlb := Nat.mul_le_mul_right _ (by omega)
    rw [flaGeoSlabLbOff_single, u32_of_lt (by omega)]
  refine ⟨hoff, fun s hs t ht hst => Ico_disjoint_of_le ?_, fun s hs => Ico_disjoint_of_le ?_⟩
  · rw [hoff s hs, hoff t ht, show (Volume.single geo).geo = geo from rfl]
    rcases Nat.lt_or_gt_of_ne hst with hlt | hgt
    · have := mul_add_le_mul (k := geo.slabNlb) hlt; omega
    · have := mul_add_le_mul (k := geo.slabNlb) hgt; omega
  · rw [hoff s hs]; omega

/-- **Slab placement.** On a formatted conventional device every slab lies at its exact offset if and only if the
offset of the last one, counted from the first, is below 2^32 blocks. -/
theorem slab_placement_iff {dev : Dev} {npools slabNlb : ℕ} {geo : Geo} (hcs : dev.cs = .cns)
    (h : flaMkfsGeoCalc dev false npools slabNlb = .ok (0, geo)) :
    PlacementExact geo ↔ (geo.nslabs - 1) * geo.slabNlb < 2 ^ 32 := by
  refine ⟨fun hex => ?_, placementExact_of_lt⟩
  obtain ⟨-, -, a, p, n, -, -, hn, -, -, -, -, rfl⟩ := mkfsGeoCalc_ok h
  have hlast := hex.1 (n - 1) (by simp only [mkfsGeo]; omega)
  rw [flaGeoSlabLbOff_single, Nat.add_left_cancel_iff] at hlast
  have hlt := u32_lt ((n - 1) * (mkfsGeo dev slabNlb p n).slabNlb)
  rw [hlast] at hlt
  exact hlt

/-- a 1 GiB device in slabs of 256 blocks -/
theorem slab_placement_iff_small : ∃ geo, flaMkfsGeoCalc ⟨2 ^ 30, 512, 2 ^ 17, .cns⟩ false 4 256 = .ok (0, geo) ∧
    (PlacementExact geo ↔ (geo.nslabs - 1) * geo.slabNlb < 2 ^ 32) := by
  have h : flaMkfsGeoCalc ⟨2 ^ 30, 512, 2 ^ 17, .cns⟩ false 4 256 =
      .ok (0, mkfsGeo ⟨2 ^ 30, 512, 2 ^ 17, .cns⟩ 256 4 8190) := by decide +kernel
  exact ⟨_, h, slab_placement_iff rfl h⟩

/-- 2^33 blocks of 512 bytes in slabs of 2^20 blocks: slab 4096 is placed on slab 0 -/
theorem slab_placement_aliases : ∃ geo, flaMkfsGeoCalc ⟨2 ^ 42, 512, 2 ^ 17, .cns⟩ false 1 (2 ^ 20) = .ok (0, geo) ∧
    4096 < geo.nslabs ∧ flaGeoSlabLbOff (.single geo) 4096 = flaGeoSlabLbOff (.single geo) 0 ∧ ¬ PlacementExact geo := by
  refine ⟨mkfsGeo ⟨2 ^ 42, 512, 2 ^ 17, .cns⟩ (2 ^ 20) 1 8191, by decide +kernel, by decide +kernel, by decide +kernel,
    fun hex => ?_⟩
  have := hex.1 4096 (by decide +kernel)
  exact absurd this (by decide +kernel)

/-! ## Objects and freelists -/

/-- **Objects per slab.** The number chosen leaves room in the slab for the objects and for their freelist. -/
theorem calcObjs_spec {v : Volume} {objNlb n : ℕ} (hmd : v.hasMd = false) (hslab : v.geo.slabNlb < 2 ^ 32)
    (h : flaCalcObjsInSlab v objNlb = .ok n) :
    0 < objNlb ∧ (0 < n → n * objNlb + flaSlabCacheFlistNlb v n ≤ v.geo.slabNlb) := by
  unfold flaCalcObjsInSlab at h
  by_cases h0 : objNlb = 0
  · rw [if_pos h0] at h; cases h
  rw [if_neg h0, hmd, if_neg (by decide)] at h
  refine ⟨Nat.pos_of_ne_zero h0, fun hn => ?_⟩
  have hdef := Except.ok.inj h
  have hle : n ≤ v.geo.slabNlb / objNlb := hdef ▸ Nat.findGreatest_le _
  have hmul : n * objNlb ≤ v.geo.slabNlb := (Nat.le_div_iff_mul_le (Nat.pos_of_ne_zero h0)).1 hle
  have hp := Nat.findGreatest_of_ne_zero hdef (Nat.pos_iff_ne_zero.1 hn)
  rw [u32_of_lt (by omega), sub32_of_le hmul hslab] at hp
  omega

theorem calcObjs_le {v : Volume} {objNlb n : ℕ} (h : flaCalcObjsInSlab v objNlb = .ok n) : n ≤ v.geo.slabNlb := by
  unfold flaCalcObjsInSlab at h
  split_ifs at h with h0 hmd
  · exact (Except.ok.inj h).symm.trans_le (Nat.div_le_self _ _)
  · exact (Except.ok.inj h).symm.trans_le ((Nat.findGreatest_le _).trans (Nat.div_le_self _ _))

/-- at least one object of this size fits a slab -/
def FitsSlab (v : Volume) (objNlb : ℕ) : Prop :=
  match flaCalcObjsInSlab v objNlb with
  | .ok n => 1 ≤ n
  | .error _ => False

instance (v : Volume) (objNlb : ℕ) : Decidable (FitsSlab v objNlb) := by
  unfold FitsSlab
  exact match flaCalcObjsInSlab v objNlb with
    | .ok n => inferInstanceAs (Decidable (1 ≤ n))
    | .error _ => inferInstanceAs (Decidable False)

theorem fitsSlab_iff {v : Volume} {objNlb : ℕ} : FitsSlab v objNlb ↔ ∃ n, flaCalcObjsInSlab v objNlb = .ok n ∧ 1 ≤ n := by
  unfold FitsSlab
  cases flaCalcObjsInSlab v objNlb with
  | error f => simp
  | ok n => simp

section Fit

variable {geo : Geo}

/-- an object lies at its multiple of the object size, before the freelist of its slab, wherever the slabs start -/
theorem obj_slot (hwrap : geo.nslabs * geo.slabNlb < 2 ^ 32) {objNlb n : ℕ}
    (hcalc : flaCalcObjsInSlab (.single geo) objNlb = .ok n) {s e : ℕ} (hs : s < geo.nslabs) (he : e < n) :
    flaObjectSlba (.single geo) objNlb ⟨s, e⟩ = flaGeoSlabsLbOff geo + s * geo.slabNlb + e * objNlb ∧
      flaObjectElba (.single geo) objNlb ⟨s, e⟩ = flaGeoSlabsLbOff geo + s * geo.slabNlb + e * objNlb + objNlb ∧
      e * objNlb + objNlb + flaSlabCacheFlistNlb (.single geo) n ≤ geo.slabNlb := by
  have hmul := mul_add_le_mul (k := geo.slabNlb) hs
  have hoff : flaGeoSlabLbOff (.single geo) s = flaGeoSlabsLbOff geo + s * geo.slabNlb := by
    rw [flaGeoSlabLbOff_single, u32_of_lt (by omega)]
  obtain ⟨hpos, hroom⟩ := calcObjs_spec (v := .single geo) rfl (show geo.slabNlb < 2 ^ 32 by omega) hcalc
  have hroom' : n * objNlb + flaSlabCacheFlistNlb (.single geo) n ≤ geo.slabNlb := hroom (by omega)
  have hmul' := mul_add_le_mul (k := objNlb) he
  have hn : n ≤ n * objNlb := Nat.le_mul_of_pos_right n hpos
  have hsucc : objNlb * (e + 1) = e * objNlb + objNlb := by ring
  have h1 : e * objNlb < 2 ^ 32 := by omega
  have h2 : e * objNlb + objNlb < 2 ^ 32 := by omega
  have h3 : e + 1 < 2 ^ 32 := by omega
  simp only [flaObjectSlba, flaObjectElba, getSlabElbaDefault, hoff]
  rw [u32_of_lt h3, hsucc, mul_comm objNlb e, u32_of_lt h1, u32_of_lt h2]
  exact ⟨rfl, by ring, by omega⟩

theorem flist_slot {v : Volume} (hmd : v.hasMd = false) (hsuper : v.super.slabNlb = v.geo.slabNlb)
    (hslab : v.geo.slabNlb < 2 ^ 32) {objNlb n : ℕ} (hcalc : flaCalcObjsInSlab v objNlb = .ok n) (hn : 0 < n) {s : ℕ}
    (hoff : flaGeoSlabLbOff v s < 2 ^ 63) :
    cacheEntryLbSlba v s (flaSlabCacheFlistNlb v n) =
        flaGeoSlabLbOff v s + v.geo.slabNlb - flaSlabCacheFlistNlb v n ∧
      flaSlabCacheFlistNlb v n ≤ v.geo.slabNlb := by
  have hroom := (calcObjs_spec hmd hslab hcalc).2 hn
  unfold cacheEntryLbSlba
  rw [if_neg (by rw [hmd]; exact Bool.false_ne_true), hsuper, sub64_of_le (by omega) (by omega)]
  exact ⟨rfl, by omega⟩

theorem slabsLbOff_eq (hfit : geo.Fits) (hnlb : geo.nlb < 2 ^ 32) : flaGeoSlabsLbOff geo = geo.mdBlocks := by
  unfold Geo.Fits Geo.mdBlocks at hfit
  unfold flaGeoSlabsLbOff flaGeoSlabSgmtLbOff flaGeoPoolSgmtNblocks Geo.mdBlocks
  rw [u32_of_lt (by omega)]
  omega

theorem flaGeoNblocks_eq (hfit : geo.Fits) (hnlb : geo.nlb < 2 ^ 32) : flaGeoNblocks geo = geo.mdBlocks := by
  unfold Geo.Fits Geo.mdBlocks at hfit
  unfold flaGeoNblocks flaGeoPoolSgmtNblocks Geo.mdBlocks
  rw [u32_of_lt (n := _ + _ + geo.poolSgmt.entriesNlb) (by omega), u32_of_lt (by omega)]
  omega

theorem slab_fits (hfit : geo.Fits) (hnlb : geo.nlb < 2 ^ 32) {s : ℕ} (hs : s < geo.nslabs) :
    flaGeoSlabLbOff (.single geo) s = geo.mdBlocks + s * geo.slabNlb ∧
      geo.mdBlocks + s * geo.slabNlb + geo.slabNlb ≤ geo.nlb := by
  have hmul := mul_add_le_mul (k := geo.slabNlb) hs
  have hfit' : geo.mdBlocks + geo.nslabs * geo.slabNlb ≤ geo.nlb := hfit
  rw [flaGeoSlabLbOff_single, u32_of_lt (by omega), slabsLbOff_eq hfit hnlb]
  exact ⟨rfl, by omega⟩

theorem obj_place (hfit : geo.Fits) (hnlb : geo.nlb < 2 ^ 32) {objNlb n : ℕ}
    (hcalc : flaCalcObjsInSlab (.single geo) objNlb = .ok n) {s e : ℕ} (hs : s < geo.nslabs) (he : e < n) :
    flaObjectSlba (.single geo) objNlb ⟨s, e⟩ = geo.mdBlocks + s * geo.slabNlb + e * objNlb ∧
      flaObjectElba (.single geo) objNlb ⟨s, e⟩ = geo.mdBlocks + s * geo.slabNlb + e * objNlb + objNlb ∧
      e * objNlb + objNlb + flaSlabCacheFlistNlb (.single geo) n ≤ geo.slabNlb := by
  have hfit' : geo.mdBlocks + geo.nslabs * geo.slabNlb ≤ geo.nlb := hfit
  have hbase := slabsLbOff_eq hfit hnlb
  rw [← hbase]
  exact obj_slot (by omega) hcalc hs he

theorem flist_place (hfit : geo.Fits) (hnlb : geo.nlb < 2 ^ 32) {objNlb n : ℕ}
    (hcalc : flaCalcObjsInSlab (.single geo) objNlb = .ok n) (hn : 0 < n) {s : ℕ} (hs : s < geo.nslabs) :
    cacheEntryLbSlba (.single geo) s (flaSlabCacheFlistNlb (.single geo) n) =
        geo.mdBlocks + s * geo.slabNlb + geo.slabNlb - flaSlabCacheFlistNlb (.single geo) n ∧
      flaSlabCacheFlistNlb (.single geo) n ≤ geo.slabNlb := by
  obtain ⟨hoff, hend⟩ := slab_fits hfit hnlb hs
  have hslab : (Volume.single geo).geo.slabNlb < 2 ^ 32 := show geo.slabNlb < 2 ^ 32 by omega
  rw [← hoff]
  exact flist_slot rfl rfl hslab hcalc hn (by omega)

theorem slabs_apart (slabNlb : ℕ) {s t : ℕ} (hst : s ≠ t) :
    s * slabNlb + slabNlb ≤ t * slabNlb ∨ t * slabNlb + slabNlb ≤ s * slabNlb :=
  (Nat.lt_or_gt_of_ne hst).imp mul_add_le_mul mul_add_le_mul

section Assigned

variable {objNlb nobj : ℕ → ℕ}
variable (hcalc : ∀ s < geo.nslabs, flaCalcObjsInSlab (.single geo) (objNlb s) = .ok (nobj s) ∧ 0 < nobj s)

include hcalc

theorem obj_metadata_disjoint (hfit : geo.Fits) (hnlb : geo.nlb < 2 ^ 32) {s e : ℕ} (hs : s < geo.nslabs) (he : e < nobj s) :
    Disjoint (objRange (.single geo) (objNlb s) ⟨s, e⟩) (Set.Ico 0 (flaGeoNblocks geo)) := by
  obtain ⟨hslba, -, -⟩ := obj_place hfit hnlb (hcalc s hs).1 hs he
  refine Ico_disjoint_of_le ?_
  rw [hslba, flaGeoNblocks_eq hfit hnlb]
  omega

theorem obj_obj_disjoint (hfit : geo.Fits) (hnlb : geo.nlb < 2 ^ 32) {s e t f : ℕ} (hs : s < geo.nslabs) (he : e < nobj s)
    (ht : t < geo.nslabs) (hf : f < nobj t) (hne : (s, e) ≠ (t, f)) :
    Disjoint (objRange (.single geo) (objNlb s) ⟨s, e⟩) (objRange (.single geo) (objNlb t) ⟨t, f⟩) := by
  obtain ⟨hslba, helba, hroom⟩ := obj_place hfit hnlb (hcalc s hs).1 hs he
  obtain ⟨hslba', helba', hroom'⟩ := obj_place hfit hnlb (hcalc t ht).1 ht hf
  refine Ico_disjoint_of_le ?_
  rw [hslba, helba, hslba', helba']
  by_cases hst : s = t
  · -- two entries of one slab
    subst hst
    have hef : e ≠ f := fun h => hne (by rw [h])
    rcases Nat.lt_or_gt_of_ne hef with hlt | hgt
    · have := mul_add_le_mul (k := objNlb s) hlt; omega
    · have := mul_add_le_mul (k := objNlb s) hgt; omega
  · have := slabs_apart geo.slabNlb hst; omega

theorem obj_flist_disjoint (hfit : geo.Fits) (hnlb : geo.nlb < 2 ^ 32) {s e t : ℕ} (hs : s < geo.nslabs) (he : e < nobj s)
    (ht : t < geo.nslabs) :
    Disjoint (objRange (.single geo) (objNlb s) ⟨s, e⟩) (flistRange (.single geo) t (nobj t)) := by
  obtain ⟨hslba, helba, hroom⟩ := obj_place hfit hnlb (hcalc s hs).1 hs he
  obtain ⟨hfl, hle⟩ := flist_place hfit hnlb (hcalc t ht).1 (hcalc t ht).2 ht
  refine Ico_disjoint_of_le ?_
  rw [hslba, helba, hfl]
  by_cases hst : s = t
  · subst hst; omega
  · have := slabs_apart geo.slabNlb hst; omega

end Assigned

/-- **Nothing collides on the device.** For every assignment of object sizes to slabs, in a geometry that fits: each
object has its size, lies inside the device after the metadata, and is disjoint from every other object and from every
freelist; and freelists are disjoint from each other. -/
theorem layout_disjoint (hfit : geo.Fits) (hnlb : geo.nlb < 2 ^ 32) (objNlb nobj : ℕ → ℕ)
    (hcalc : ∀ s < geo.nslabs, flaCalcObjsInSlab (.single geo) (objNlb s) = .ok (nobj s) ∧ 0 < nobj s) :
    (∀ s < geo.nslabs, ∀ e < nobj s,
      flaObjectElba (.single geo) (objNlb s) ⟨s, e⟩ = flaObjectSlba (.single geo) (objNlb s) ⟨s, e⟩ + objNlb s ∧
      flaObjectElba (.single geo) (objNlb s) ⟨s, e⟩ ≤ geo.nlb ∧
      Disjoint (objRange (.single geo) (objNlb s) ⟨s, e⟩) (Set.Ico 0 (flaGeoNblocks geo)) ∧
      (∀ t < geo.nslabs, ∀ f < nobj t, (s, e) ≠ (t, f) →
        Disjoint (objRange (.single geo) (objNlb s) ⟨s, e⟩) (objRange (.single geo) (objNlb t) ⟨t, f⟩)) ∧
      ∀ t < geo.nslabs, Disjoint (objRange (.single geo) (objNlb s) ⟨s, e⟩) (flistRange (.single geo) t (nobj t))) ∧
    ∀ s < geo.nslabs, ∀ t < geo.nslabs, s ≠ t →
      Disjoint (flistRange (.single geo) s (nobj s)) (flistRange (.single geo) t (nobj t)) := by
  constructor
  · intro s hs e he
    obtain ⟨-, hend⟩ := slab_fits hfit hnlb hs
    obtain ⟨hslba, helba, hroom⟩ := obj_place hfit hnlb (hcalc s hs).1 hs he
    exact ⟨by rw [hslba, helba], by omega, obj_metadata_disjoint hcalc hfit hnlb hs he,
      fun t ht f hf hne => obj_obj_disjoint hcalc hfit hnlb hs he ht hf hne,
      fun t ht => obj_flist_disjoint hcalc hfit hnlb hs he ht⟩
  · intro s hs t ht hst
    obtain ⟨hfs, hles⟩ := flist_place hfit hnlb (hcalc s hs).1 (hcalc s hs).2 hs
    obtain ⟨hft, hlet⟩ := flist_place hfit hnlb (hcalc t ht).1 (hcalc t ht).2 ht
    refine Ico_disjoint_of_le ?_
    rw [hfs, hft]
    have := slabs_apart geo.slabNlb hst
    omega

end Fit

/-- two slabs of ten blocks on a device of thirty, one with objects of two blocks and one with objects of three -/
theorem layout_disjoint_two_sizes : ∃ geo, flaMkfsGeoCalc ⟨15360, 512, 2 ^ 17, .cns⟩ false 1 10 = .ok (0, geo) ∧
    geo.Fits ∧ Disjoint (objRange (.single geo) 2 ⟨0, 3⟩) (objRange (.single geo) 3 ⟨1, 2⟩) := by
  refine ⟨mkfsGeo ⟨15360, 512, 2 ^ 17, .cns⟩ 10 1 2, by decide +kernel, by decide +kernel, ?_⟩
  have hcalc : ∀ s < (mkfsGeo ⟨15360, 512, 2 ^ 17, .cns⟩ 10 1 2).nslabs,
      flaCalcObjsInSlab (.single (mkfsGeo ⟨15360, 512, 2 ^ 17, .cns⟩ 10 1 2)) (s + 2) = .ok (if s = 0 then 4 else 3) ∧
        0 < if s = 0 then 4 else 3 := by decide +kernel
  exact ((layout_disjoint (by decide +kernel) (by decide +kernel) (· + 2) (fun s => if s = 0 then 4 else 3) hcalc).1
    0 (by decide +kernel) 3 (by decide)).2.2.2.1 1 (by decide +kernel) 2 (by decide) (by decide)

end FlexAlloc
