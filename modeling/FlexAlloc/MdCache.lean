/-
Freelists on a metadata device.

With a metadata device `cache_entry_lb_slba` gives each slab one block, whatever the length of its freelist; loading a
longer freelist prints an error and returns 0 with nothing loaded. The number of objects of a slab is the whole slab
divided by the object size, since nothing is set aside in the slab.

- `md_flists_iff`: the freelists of different slabs lie apart, and a load that returns 0 has loaded the freelist, exactly
  when the freelist of every slab fits one block.
- `md_flists_collide`: slabs of 8192 blocks with objects of one block and blocks of 512 bytes need three blocks each.
-/
import FlexAlloc.CacheCoherence

namespace FlexAlloc

open FlexAlloc.Core

/-- the volume of a device with a metadata device -/
def Volume.onMd (dev : Dev) (geo : Geo) : Volume := ⟨geo, flaMkfsSuperInit geo, true, dev.cs⟩

/-- what `fla_base_pool_create` asks of an object size, for slabs of `n` objects -/
structure SizeAdmitted (v : Volume) (objNlb n : ℕ) : Prop where
  calc_eq : flaCalcObjsInSlab v objNlb = .ok n
  pos : 1 ≤ n
  check : ∀ fs : Flexalloc, fs.vol = v → csCheckPool fs objNlb = 0

/-- the freelists of `nobj s` entries of the slabs lie apart, and loading one loads it -/
structure FlistsKept (v : Volume) (nobj : ℕ → ℕ) : Prop where
  apart : ∀ s < v.geo.nslabs, ∀ t < v.geo.nslabs, s ≠ t →
    Disjoint (flistRange v s (nobj s)) (flistRange v t (nobj t))
  loaded : ∀ env fs s fs', fs.vol = v → s < v.geo.nslabs → flaSlabCacheElemLoad env fs s (nobj s) = .ok (0, fs') →
    (fs'.cache s).state ≠ .stale ∧ ∃ buf, (fs'.cache s).freelist = some buf ∧ buf.flist.len = nobj s

section Md

variable {v : Volume}

theorem flistNlb_le_one (hlb : 0 < v.geo.lbNbytes) (n : ℕ) :
    flaSlabCacheFlistNlb v n ≤ 1 ↔ flaFlistSize n ≤ v.geo.lbNbytes := by
  show (flaFlistSize n + v.geo.lbNbytes - 1) / v.geo.lbNbytes ≤ 1 ↔ _
  rw [← Nat.lt_succ_iff, Nat.div_lt_iff_lt_mul hlb]
  omega

theorem cacheEntryLbSlba_md (hmd : v.hasMd) (s flistNlb : ℕ) :
    cacheEntryLbSlba v s flistNlb = flaGeoSlabsLbOff v.geo + s := if_pos hmd

theorem flistRange_md_disjoint (hmd : v.hasMd) {s t m n : ℕ} (hst : s ≠ t) (hm : flaSlabCacheFlistNlb v m ≤ 1)
    (hn : flaSlabCacheFlistNlb v n ≤ 1) : Disjoint (flistRange v s m) (flistRange v t n) := by
  refine Ico_disjoint_of_le ?_
  rw [cacheEntryLbSlba_md hmd, cacheEntryLbSlba_md hmd]
  omega

theorem elemLoad_md_loaded {env : Env} {fs fs' : Flexalloc} {s n : ℕ} (hn : flaSlabCacheFlistNlb fs.vol n ≤ 1)
    (h : flaSlabCacheElemLoad env fs s n = .ok (0, fs')) :
    (fs'.cache s).state ≠ .stale ∧ ∃ buf, (fs'.cache s).freelist = some buf ∧ buf.flist.len = n := by
  rcases elemLoad_inv h with ⟨-, hmd⟩ | ⟨-, -, -, -, b, -, -, rfl⟩
  · exact absurd (hmd rfl).2 (Nat.not_lt.2 hn)
  · rw [fs.setElem_self]
    exact ⟨by simp, _, rfl, rfl⟩

/-- loading a freelist of more than one block returns 0 and loads nothing -/
theorem elemLoad_md_long {env : Env} {fs : Flexalloc} {s n : ℕ} (hmd : fs.vol.hasMd) (hbuf : env.bufAlloc)
    (hst : (fs.cache s).state = .stale) (hn : 1 < flaSlabCacheFlistNlb fs.vol n) :
    flaSlabCacheElemLoad env fs s n = .ok (0, fs) := by
  rw [flaSlabCacheElemLoad, if_neg (by simp [hst]), if_neg (by simp [hbuf])]
  exact if_pos ⟨hmd, hn⟩

end Md

/-- **Freelists on a metadata device.** For every assignment of object sizes to slabs that pools may have, the freelists
lie apart and are really loaded if and only if each of them fits one block. -/
theorem md_flists_iff {dev : Dev} {npools slabNlb : ℕ} {geo : Geo}
    (hgeo : flaMkfsGeoCalc dev true npools slabNlb = .ok (0, geo)) {objNlb nobj : ℕ → ℕ}
    (hsize : ∀ s < geo.nslabs, SizeAdmitted (.onMd dev geo) (objNlb s) (nobj s)) :
    FlistsKept (.onMd dev geo) nobj ↔ ∀ s < geo.nslabs, flaFlistSize (slabNlb / objNlb s) ≤ dev.lbNbytes := by
  obtain ⟨hlb, -, _, _, _, -, -, -, -, -, -, -, hmk⟩ := mkfsGeoCalc_accepts hgeo
  have hslab : geo.slabNlb = slabNlb := by rw [hmk]; rfl
  have hlb_eq : geo.lbNbytes = dev.lbNbytes := by rw [hmk]; rfl
  have hblocks : ∀ s < geo.nslabs, flaSlabCacheFlistNlb (.onMd dev geo) (nobj s) ≤ 1 ↔
      flaFlistSize (slabNlb / objNlb s) ≤ dev.lbNbytes := fun s hs => by
    have hcalc := (hsize s hs).calc_eq
    unfold flaCalcObjsInSlab at hcalc
    split_ifs at hcalc with h0 hmd
    · have hn : geo.slabNlb / objNlb s = nobj s := Except.ok.inj hcalc
      rw [flistNlb_le_one (show 0 < geo.lbNbytes from hlb_eq ▸ hlb), ← hn, hslab]
      exact hlb_eq ▸ Iff.rfl
    · exact absurd rfl hmd
  constructor
  · intro hkept s hs
    refine (hblocks s hs).1 (not_lt.1 fun hlong => ?_)
    -- a fresh element
    obtain ⟨hstale, -⟩ := hkept.loaded .reliable { flaMkfs dev geo fun _ => 0 with vol := .onMd dev geo } s _ rfl hs
      (elemLoad_md_long rfl rfl rfl hlong)
    exact hstale rfl
  · intro hfit
    refine ⟨fun s hs t ht hst => ?_, fun env fs s fs' hvol hs h => ?_⟩
    · exact flistRange_md_disjoint rfl hst ((hblocks s hs).2 (hfit s hs)) ((hblocks t ht).2 (hfit t ht))
    · refine elemLoad_md_loaded ?_ h
      rw [hvol]
      exact (hblocks s hs).2 (hfit s hs)

/-- 256 KiB in 32 slabs of 16 blocks, with objects of one block in slab 0 and of two blocks in the others -/
def mdDev : Dev := ⟨2 ^ 18, 512, 2 ^ 17, .cns⟩

theorem md_flists_small : ∃ geo, flaMkfsGeoCalc mdDev true 2 16 = .ok (0, geo) ∧
    FlistsKept (.onMd mdDev geo) (fun s => if s = 0 then 16 else 8) := by
  have hgeo : flaMkfsGeoCalc mdDev true 2 16 = .ok (0, mkfsGeo mdDev 16 2 32) := by decide +kernel
  have hsize : ∀ s < 32, SizeAdmitted (.onMd mdDev (mkfsGeo mdDev 16 2 32)) (if s = 0 then 1 else 2)
      (if s = 0 then 16 else 8) := fun s _ => by
    split_ifs
    · exact ⟨by decide +kernel, by decide, fun fs hvol => by rw [csCheckPool, hvol]; rfl⟩
    · exact ⟨by decide +kernel, by decide, fun fs hvol => by rw [csCheckPool, hvol]; rfl⟩
  refine ⟨mkfsGeo mdDev 16 2 32, hgeo, (md_flists_iff hgeo hsize).2 fun s _ => ?_⟩
  split_ifs
  · decide +kernel
  · decide +kernel

/-- 16 MiB in four slabs of 8192 blocks -/
def mdDevWide : Dev := ⟨2 ^ 24, 512, 2 ^ 17, .cns⟩

/-- Slabs of 8192 blocks with objects of one block: the freelist of slab 0 takes three blocks, and the one of slab 1
starts in the second of them. -/
theorem md_flists_collide : ∃ geo, flaMkfsGeoCalc mdDevWide true 1 8192 = .ok (0, geo) ∧
    (∀ s < geo.nslabs, SizeAdmitted (.onMd mdDevWide geo) 1 8192) ∧
    ¬ Disjoint (flistRange (.onMd mdDevWide geo) 0 8192) (flistRange (.onMd mdDevWide geo) 1 8192) ∧
    ¬ FlistsKept (.onMd mdDevWide geo) (fun _ => 8192) := by
  have hover : ¬ Disjoint (flistRange (.onMd mdDevWide (mkfsGeo mdDevWide 8192 1 4)) 0 8192)
      (flistRange (.onMd mdDevWide (mkfsGeo mdDevWide 8192 1 4)) 1 8192) := by
    rw [flistRange, flistRange, Set.Ico_disjoint_Ico]
    decide +kernel
  refine ⟨mkfsGeo mdDevWide 8192 1 4, by decide +kernel, fun _ _ => ?_, hover, fun hkept => ?_⟩
  · exact ⟨by decide +kernel, by decide, fun fs hvol => by rw [csCheckPool, hvol]; rfl⟩
  · exact hover (hkept.apart 0 (by decide +kernel) 1 (by decide +kernel) (by decide))

end FlexAlloc
