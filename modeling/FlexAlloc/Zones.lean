/-
Slabs and objects on a zoned device (`flexalloc_cs_zns.c`).

`fla_cs_zns_slab_offset` means to move a slab up to the next zone. It adds the slab's offset within its zone where it
should add what is left of the zone, so the slab lands on a zone only if that offset is 0 or exactly half a zone. A slab
is a whole number of zones, so all slabs are off by the same amount.

- `zndManaged_object`: an object of one zone gets one zone command, at the object's first block.
- `zone_placement_iff`: a slab is placed as it should be exactly when twice the base of the slabs is a number of zones.
- `zones_missed`: a zoned device without a metadata device on which no slab starts at a zone.
-/
import FlexAlloc.Objects
import FlexAlloc.Layout

namespace FlexAlloc

/-! ## Zone commands -/

/-- the blocks that `fla_znd_manage_zones_object_finish` and `fla_znd_manage_zones_object_reset` send a command for -/
def zndManagedSlbas (fs : Flexalloc) (nzsect ndx : ℕ) (obj : Obj) : Ret (List ℕ) := do
  let e ← fs.entryAt ndx
  let fnc ← fs.fncAt ndx
  .ok ((List.range (fnc.numFlaObjs e)).map fun i => flaObjectSlba fs.vol e.objNlb obj + u64 (nzsect * i))

def zndManageZonesObjectFinish (env : Env) (fs : Flexalloc) (nzsect ndx : ℕ) (obj : Obj) : Ret ℤ := do
  let slbas ← zndManagedSlbas fs nzsect ndx obj
  .ok (slbas.foldl (fun err slba => Int.lor err (env.zndMgmtSend slba)) 0)

/-- `fla_object_seal`, through the `object_seal` hook of the command set -/
def flaObjectSeal (env : Env) (fs : Flexalloc) (ndx : ℕ) (obj : Obj) : Ret ℤ :=
  match fs.vol.cs with
  | .cns => .ok 0
  | .zns nzsect => zndManageZonesObjectFinish env fs nzsect ndx obj

/-- finishing and resetting send their commands for the same blocks -/
theorem zndReset_eq (env : Env) (fs : Flexalloc) (nzsect ndx : ℕ) (obj : Obj) :
    zndManageZonesObjectReset env fs nzsect ndx obj = (do
      let slbas ← zndManagedSlbas fs nzsect ndx obj
      .ok (slbas.foldl (fun err slba => Int.lor err (env.zndMgmtSend slba)) 0)) := by
  unfold zndManageZonesObjectReset zndManagedSlbas
  cases fs.entryAt ndx with
  | error f => rfl
  | ok e =>
    cases fs.fncAt ndx with
    | error f => rfl
    | ok fnc =>
      simp only [ok_bind, List.foldl_map]

/-- **An object of one zone** gets one command, at its first block. -/
theorem zndManaged_object {fs : Flexalloc} {ndx : ℕ} {e : PoolEntry} (hent : fs.entryAt ndx = .ok e)
    (hfnc : fs.fncAt ndx = .ok .dflt) (nzsect : ℕ) (obj : Obj) :
    zndManagedSlbas fs nzsect ndx obj = .ok [flaObjectSlba fs.vol e.objNlb obj] := by
  rw [zndManagedSlbas, hent, ok_bind, hfnc, ok_bind]
  simp [EntryFnc.numFlaObjs, u64]

/-! ## Placement -/

/-- the first block of the slabs, as `fla_geo_slab_lb_off` passes it on -/
def Volume.slabsBase (v : Volume) : ℕ := if v.hasMd then 0 else flaGeoSlabsLbOff v.geo

/-- a range of blocks that is one zone -/
def IsZone (nzsect : ℕ) (r : Set ℕ) : Prop := ∃ z, r = Set.Ico (nzsect * z) (nzsect * z + nzsect)

/-- the blocks of slab `s` of a zoned device, with the slabs based at `base` -/
def znsSlabRange (v : Volume) (nzsect base s : ℕ) : Set ℕ :=
  Set.Ico (flaCsZnsSlabOffset v nzsect s base) (flaCsZnsSlabOffset v nzsect s base + v.geo.slabNlb)

/-- slab `s` starts at the first zone that does not start before its place, clear of the other slabs, and each of its
objects of one zone is a zone, to the commands that finish and reset it as well -/
structure ZonePlaced (v : Volume) (nzsect base s : ℕ) : Prop where
  aligned : nzsect ∣ flaCsZnsSlabOffset v nzsect s base
  ge : base + s * v.geo.slabNlb ≤ flaCsZnsSlabOffset v nzsect s base
  lt : flaCsZnsSlabOffset v nzsect s base < base + s * v.geo.slabNlb + nzsect
  disjoint : ∀ t, t ≠ s → base + t * v.geo.slabNlb < 2 ^ 32 →
    Disjoint (znsSlabRange v nzsect base s) (znsSlabRange v nzsect base t)
  zones : ∀ e, nzsect * (e + 1) ≤ v.geo.slabNlb →
    IsZone nzsect (Set.Ico (flaCsZnsSlabOffset v nzsect s base + u32 (nzsect * e))
      (flaCsZnsSlabOffset v nzsect s base + u32 (nzsect * e) + nzsect))
  managed : ∀ fs ndx p e, fs.vol = v → v.cs = .zns nzsect → base = v.slabsBase → fs.entryAt ndx = .ok p →
    fs.fncAt ndx = .ok .dflt → p.objNlb = nzsect → nzsect * (e + 1) ≤ v.geo.slabNlb →
    ∃ slba, zndManagedSlbas fs nzsect ndx ⟨s, e⟩ = .ok [slba] ∧ slba = flaObjectSlba v nzsect ⟨s, e⟩ ∧
      objRange v nzsect ⟨s, e⟩ = Set.Ico slba (slba + nzsect) ∧ IsZone nzsect (objRange v nzsect ⟨s, e⟩)

section Placement

variable {v : Volume} {nzsect base s : ℕ}

/-- where the code puts a slab: its offset within its zone is added, not what is left of the zone -/
theorem znsSlabOffset_eq (hs : base + s * v.geo.slabNlb < 2 ^ 32) :
    flaCsZnsSlabOffset v nzsect s base =
      base + s * v.geo.slabNlb + (base + s * v.geo.slabNlb) % nzsect := by
  unfold flaCsZnsSlabOffset flaCsCnsSlabOffset
  rw [u32_of_lt (by omega)]
  dsimp only
  split_ifs with hmod
  · rw [hmod, Nat.add_zero]
  · rfl

/-- every slab is as far into its zone as the base is -/
theorem slabPlace_mod (hslab : v.geo.slabNlb % nzsect = 0) (base s : ℕ) :
    (base + s * v.geo.slabNlb) % nzsect = base % nzsect := by
  obtain ⟨k, hk⟩ := Nat.dvd_of_mod_eq_zero hslab
  rw [hk, show s * (nzsect * k) = nzsect * (s * k) by ring, Nat.add_mul_mod_self_left]

/-- doubling what is left over gives a number of zones when the whole, doubled, is one -/
theorem dvd_add_mod_iff (x : ℕ) : nzsect ∣ x + x % nzsect ↔ nzsect ∣ 2 * x := by
  have hx := Nat.div_add_mod x nzsect
  have hsplit : x + x % nzsect = nzsect * (x / nzsect) + 2 * (x % nzsect) := by omega
  have hdouble : 2 * x = nzsect * (2 * (x / nzsect)) + 2 * (x % nzsect) := by
    calc 2 * x = 2 * (nzsect * (x / nzsect) + x % nzsect) := by rw [hx]
      _ = nzsect * (2 * (x / nzsect)) + 2 * (x % nzsect) := by ring
  rw [hsplit, hdouble, Nat.dvd_add_right (Nat.dvd_mul_right _ _), Nat.dvd_add_right (Nat.dvd_mul_right _ _)]

/-- the object `e` of one zone in a slab that starts at a zone -/
theorem isZone_entry {off e : ℕ} (hoff : nzsect ∣ off) :
    IsZone nzsect (Set.Ico (off + nzsect * e) (off + nzsect * e + nzsect)) := by
  obtain ⟨z, rfl⟩ := hoff
  exact ⟨z + e, by rw [Nat.mul_add]⟩

/-- **Zone placement.** A slab of a whole number of zones is placed as it should be if and only if twice the base of the
slabs is a whole number of zones. -/
theorem zone_placement_iff (hz : 0 < nzsect) (hslab : v.geo.slabNlb % nzsect = 0) (h32 : v.geo.slabNlb < 2 ^ 32)
    (hs : base + s * v.geo.slabNlb < 2 ^ 32) : ZonePlaced v nzsect base s ↔ nzsect ∣ 2 * base := by
  have hoff : ∀ t, base + t * v.geo.slabNlb < 2 ^ 32 → flaCsZnsSlabOffset v nzsect t base =
      base + t * v.geo.slabNlb + (base + t * v.geo.slabNlb) % nzsect := fun t ht => znsSlabOffset_eq ht
  have hmod := slabPlace_mod hslab base
  have hrem := Nat.mod_lt base hz
  have hiff : nzsect ∣ flaCsZnsSlabOffset v nzsect s base ↔ nzsect ∣ 2 * base := by
    rw [hoff s hs, hmod, Nat.dvd_iff_mod_eq_zero, Nat.add_right_comm, Nat.add_mod, Nat.mul_mod, hslab, Nat.mul_zero,
      Nat.zero_mod, Nat.add_zero, Nat.mod_mod, ← Nat.dvd_iff_mod_eq_zero, dvd_add_mod_iff]
  constructor
  · intro h
    exact hiff.1 h.aligned
  · intro hbase
    have haligned := hiff.2 hbase
    -- the products that place an object do not wrap
    have hentry : ∀ e, nzsect * (e + 1) ≤ v.geo.slabNlb → u32 (nzsect * e) = nzsect * e := fun e he => by
      rw [Nat.mul_add] at he
      exact u32_of_lt (by omega)
    refine ⟨haligned, by rw [hoff s hs]; omega, by rw [hoff s hs, hmod]; omega, fun t hne ht => ?_, fun e he => ?_,
      fun fs ndx p e hvol hcs hb hent hfnc hobj he => ?_⟩
    · refine Ico_disjoint_of_le ?_
      rw [hoff s hs, hoff t ht, hmod, hmod]
      rcases Nat.lt_or_gt_of_ne hne with hts | hst
      · have := mul_add_le_mul (k := v.geo.slabNlb) hts
        omega
      · have := mul_add_le_mul (k := v.geo.slabNlb) hst
        omega
    · rw [hentry e he]
      exact isZone_entry haligned
    · subst hvol hb hobj
      have hlb : flaGeoSlabLbOff fs.vol s = flaCsZnsSlabOffset fs.vol p.objNlb s fs.vol.slabsBase := by
        rw [flaGeoSlabLbOff, hcs]
        rfl
      have hslba : flaObjectSlba fs.vol p.objNlb ⟨s, e⟩ =
          flaCsZnsSlabOffset fs.vol p.objNlb s fs.vol.slabsBase + p.objNlb * e := by
        rw [flaObjectSlba, hlb, hentry e he]
      have helba : flaObjectElba fs.vol p.objNlb ⟨s, e⟩ = flaObjectSlba fs.vol p.objNlb ⟨s, e⟩ + p.objNlb := by
        have hle : e + 1 ≤ p.objNlb * (e + 1) := Nat.le_mul_of_pos_left _ hz
        rw [hslba, flaObjectElba, hlb, getSlabElbaDefault, u32_of_lt (n := e + 1) (by omega), u32_of_lt (by omega),
          Nat.mul_add, Nat.mul_one, Nat.add_assoc]
      refine ⟨_, zndManaged_object hent hfnc _ _, rfl, ?_, ?_⟩
      · rw [objRange, helba]
      · rw [objRange, helba, hslba]
        exact isZone_entry haligned

end Placement

/-- eight-block zones, and the slabs based half a zone in: they are moved on to the next zone -/
theorem zone_placement_iff_half : ZonePlaced ⟨mkfsGeo ⟨2 ^ 15, 512, 2 ^ 17, .zns 8⟩ 8 1 7, ⟨0, 7, 8, 1, 0, 0⟩, false, .zns 8⟩
    8 4 3 :=
  (zone_placement_iff (by decide) (by decide +kernel) (by decide +kernel) (by decide +kernel)).2 (by decide)

/-- **No slab starts at a zone.** Zones of eight blocks, five blocks of metadata before the slabs. -/
theorem zones_missed : ∃ geo, flaMkfsGeoCalc ⟨2 ^ 15, 512, 2 ^ 17, .zns 8⟩ false 1 8 = .ok (0, geo) ∧
    ∀ s < geo.nslabs, ¬ ZonePlaced ⟨geo, flaMkfsSuperInit geo, false, .zns 8⟩ 8 (flaGeoSlabsLbOff geo) s := by
  refine ⟨mkfsGeo ⟨2 ^ 15, 512, 2 ^ 17, .zns 8⟩ 8 1 7, by decide +kernel, fun s hs h => ?_⟩
  have hmissed : ∀ s < 7, ¬ 8 ∣ flaCsZnsSlabOffset ⟨mkfsGeo ⟨2 ^ 15, 512, 2 ^ 17, .zns 8⟩ 8 1 7,
    flaMkfsSuperInit (mkfsGeo ⟨2 ^ 15, 512, 2 ^ 17, .zns 8⟩ 8 1 7), false, .zns 8⟩ 8 s
      (flaGeoSlabsLbOff (mkfsGeo ⟨2 ^ 15, 512, 2 ^ 17, .zns 8⟩ 8 1 7)) := by decide +kernel
  exact hmissed s hs h.aligned

end FlexAlloc
