/-
Disk geometry: `fla_mkfs_geo_calc` and the address computations that read the geometry (`flexalloc_mm.c`,
`flexalloc_util.c`, `flexalloc_pool.c`, `flexalloc_cs_cns.c`, `flexalloc_cs_zns.c`, `flexalloc_slabcache.c`).

Layout of a single device, in logical blocks: super block, pool segment (freelist, hash table, entries), slab segment
(slab headers, then the free-list counters), slabs. A slab holds its objects from its start and its freelist at its
end. With a metadata device the slabs start at block 0 of the data device and the freelists lie on the other.

`uint32_t` and `uint64_t` products, sums and differences that can wrap are written with `u32`, `u64`, `sub64`. The two
downward loops (`fla_nelems_max`, `fla_calc_objs_in_slab`) count down from a bound to the first number that passes a
test and end at 0 when none does, which is `Nat.findGreatest`.
-/
import FlexAlloc.Freelist

namespace FlexAlloc

/-! ## Sizes of the disk structures -/

def sizeofFlaSuper : ℕ := 32

def sizeofFlaPoolEntry : ℕ := 160

def sizeofFlaSlabHeader : ℕ := 24

def sizeofFlaHtblEntry : ℕ := 16

def sizeofFlaPoolHtblHeader : ℕ := 8

/-! ## Geometry -/

/-- `struct fla_geo_pool_sgmt` -/
structure GeoPoolSgmt where
  freelistNlb : ℕ
  htblNlb : ℕ
  htblTblSize : ℕ
  entriesNlb : ℕ
deriving DecidableEq, Repr

/-- `struct fla_geo` -/
structure Geo where
  nlb : ℕ
  lbNbytes : ℕ
  slabNlb : ℕ
  npools : ℕ
  nslabs : ℕ
  mdNlb : ℕ
  poolSgmt : GeoPoolSgmt
  slabSgmtNlb : ℕ
deriving DecidableEq, Repr

/-- the command set of a device, with the zone size of a zoned one -/
inductive Cs where
  | cns
  | zns (nzsect : ℕ)
deriving DecidableEq, Repr

/-- what xNVMe reports about a device: its size, its block size, its largest transfer and its command set -/
structure Dev where
  tbytes : ℕ
  lbNbytes : ℕ
  mdtsNbytes : ℕ
  cs : Cs
deriving DecidableEq, Repr

/-- 64 blocks of 512 bytes -/
def smallDev : Dev := ⟨32768, 512, 4096, .cns⟩

/-- `struct fla_super` -/
structure Super where
  magic : ℕ
  nslabs : ℕ
  slabNlb : ℕ
  npools : ℕ
  mdNlb : ℕ
  fmtVersion : ℕ
deriving DecidableEq, Repr

def flaGeoPoolSgmtCalc (npools lbNbytes : ℕ) : GeoPoolSgmt where
  freelistNlb := u32 (flaCeilDiv (flaFlistSize npools) lbNbytes)
  htblTblSize := u32 (npools * 2)
  htblNlb := u32 (flaCeilDiv (sizeofFlaPoolHtblHeader + u32 (npools * 2) * sizeofFlaHtblEntry) lbNbytes)
  entriesNlb := u32 (flaCeilDiv (npools * sizeofFlaPoolEntry) lbNbytes)

/-- `fla_slab_sgmt_calc`: the headers, then the free count, head and tail -/
def flaSlabSgmtCalc (nslabs lbNbytes : ℕ) : ℕ := u32 (flaCeilDiv (nslabs * sizeofFlaSlabHeader + 12) lbNbytes)

def flaGeoPoolSgmtNblocks (g : GeoPoolSgmt) : ℕ := u32 (g.freelistNlb + g.htblNlb + g.entriesNlb)

def flaGeoNblocks (geo : Geo) : ℕ := u32 (geo.mdNlb + flaGeoPoolSgmtNblocks geo.poolSgmt + geo.slabSgmtNlb)

/-- `fla_nelems_max`: count down from `unitsTotal / elemSz`; the product is a `uint32_t` -/
def flaNelemsMax (unitsTotal elemSz : ℕ) (calcMdSize : ℕ → ℕ) : ℕ :=
  Nat.findGreatest (fun nelems => calcMdSize nelems ≤ sub64 unitsTotal (u32 (nelems * elemSz)))
    (u32 (unitsTotal / elemSz))

def flaNslabsMaxMddev (blocks slabNlb lbNbytes mdBlocks : ℕ) : ℕ :=
  let nslabs := u32 (blocks / slabNlb)
  if flaSlabSgmtCalc nslabs lbNbytes ≤ mdBlocks then nslabs else 0

/-- `fla_geo_init`, on a geometry whose other fields are not set yet -/
def flaGeoInit (dev : Dev) (npools slabNlb lbNbytes : ℕ) : Geo where
  nlb := dev.tbytes / lbNbytes
  lbNbytes := lbNbytes
  slabNlb := slabNlb
  npools := npools
  nslabs := 0
  mdNlb := u32 (flaCeilDiv sizeofFlaSuper lbNbytes)
  poolSgmt := ⟨0, 0, 0, 0⟩
  slabSgmtNlb := 0

def flaCsGeoCheck (dev : Dev) (slabNlb : ℕ) : Ret ℤ :=
  match dev.cs with
  | .cns => .ok 0
  | .zns nzsect => if nzsect = 0 then .error .divByZero else .ok (if slabNlb % nzsect = 0 then 0 else -1)

/-- the slabs of `fla_mkfs_geo_calc`, estimated or final, with `used` blocks already taken by metadata. The size of the
metadata device is read from `dev` itself. -/
def mkfsNslabs (hasMd : Bool) (nlb used slabNlb lbNbytes : ℕ) : ℕ :=
  if hasMd then flaNslabsMaxMddev nlb slabNlb lbNbytes (sub64 nlb used)
  else flaNelemsMax (sub64 nlb used) slabNlb (flaSlabSgmtCalc · lbNbytes)

theorem mkfsNslabs_single (nlb used slabNlb lbNbytes : ℕ) : mkfsNslabs false nlb used slabNlb lbNbytes =
    flaNelemsMax (sub64 nlb used) slabNlb (flaSlabSgmtCalc · lbNbytes) := by
  unfold mkfsNslabs
  exact if_neg Bool.false_ne_true

/-- `fla_mkfs_geo_calc`: the return value and the geometry -/
def flaMkfsGeoCalc (dev : Dev) (hasMd : Bool) (npools slabNlb : ℕ) : Ret (ℤ × Geo) :=
  if dev.lbNbytes = 0 then .error .divByZero else
  let lbNbytes := dev.lbNbytes
  let geo := flaGeoInit dev npools slabNlb lbNbytes
  match flaCsGeoCheck dev slabNlb with
  | .error f => .error f
  | .ok err =>
    if err ≠ 0 then .ok (err, geo)
    else if slabNlb = 0 then .error .divByZero
    else
      -- estimate how many slabs there are before knowing the overhead of the pool metadata
      let nslabsApprox := mkfsNslabs hasMd geo.nlb (if hasMd then 0 else geo.mdNlb) slabNlb lbNbytes
      if nslabsApprox = 0 then .ok (-1, geo)
      else if nslabsApprox < npools then .ok (-1, geo)
      else
        let p := if npools = 0 then nslabsApprox else npools
        let poolSgmt := flaGeoPoolSgmtCalc p lbNbytes
        let nslabs := mkfsNslabs hasMd geo.nlb (geo.mdNlb + flaGeoPoolSgmtNblocks poolSgmt) slabNlb lbNbytes
        let geo := { geo with npools := p, poolSgmt := poolSgmt, nslabs := nslabs }
        if nslabs = 0 then .ok (-1, geo)
        else
          let geo := { geo with slabSgmtNlb := flaSlabSgmtCalc nslabs lbNbytes }
          if nslabs < npools then .ok (-1, geo)
          else if nslabs < p then
            -- npools was not specified, and there are fewer slabs than inferred pools
            .ok (0, { geo with npools := nslabs, poolSgmt := flaGeoPoolSgmtCalc nslabs lbNbytes })
          else .ok (0, geo)

/-- the geometry left by a successful `fla_mkfs_geo_calc` on a single conventional device, from the number of pools
`p` that space was first set aside for and the number of slabs -/
def mkfsGeo (dev : Dev) (slabNlb p nslabs : ℕ) : Geo where
  nlb := dev.tbytes / dev.lbNbytes
  lbNbytes := dev.lbNbytes
  slabNlb := slabNlb
  npools := min p nslabs
  nslabs := nslabs
  mdNlb := u32 (flaCeilDiv sizeofFlaSuper dev.lbNbytes)
  poolSgmt := flaGeoPoolSgmtCalc (min p nslabs) dev.lbNbytes
  slabSgmtNlb := flaSlabSgmtCalc nslabs dev.lbNbytes

/-- **What a successful geometry calculation returns**: the slabs `a` of the estimate, the pools `p` space is set aside
for and the slabs `n` that are left. -/
theorem mkfsGeoCalc_accepts {dev : Dev} {hasMd : Bool} {npools slabNlb : ℕ} {geo : Geo}
    (h : flaMkfsGeoCalc dev hasMd npools slabNlb = .ok (0, geo)) :
    0 < dev.lbNbytes ∧ 0 < slabNlb ∧ ∃ a p n, 0 < a ∧ npools ≤ a ∧ 0 < n ∧ npools ≤ n ∧
      a = mkfsNslabs hasMd (dev.tbytes / dev.lbNbytes) (if hasMd then 0 else u32 (flaCeilDiv sizeofFlaSuper dev.lbNbytes))
        slabNlb dev.lbNbytes ∧
      p = (if npools = 0 then a else npools) ∧
      n = mkfsNslabs hasMd (dev.tbytes / dev.lbNbytes) (u32 (flaCeilDiv sizeofFlaSuper dev.lbNbytes) +
        flaGeoPoolSgmtNblocks (flaGeoPoolSgmtCalc p dev.lbNbytes)) slabNlb dev.lbNbytes ∧
      geo = mkfsGeo dev slabNlb p n := by
  unfold flaMkfsGeoCalc at h
  by_cases hlb : dev.lbNbytes = 0
  · rw [if_pos hlb] at h; cases h
  rw [if_neg hlb] at h
  dsimp only [flaGeoInit] at h
  cases hcheck : flaCsGeoCheck dev slabNlb with
  | error f => rw [hcheck] at h; cases h
  | ok err =>
    rw [hcheck] at h
    by_cases herr : err ≠ 0
    · simp only [if_pos herr, Except.ok.injEq, Prod.mk.injEq] at h
      exact absurd h.1 herr
    dsimp only at h
    rw [if_neg herr] at h
    by_cases hslab : slabNlb = 0
    · rw [if_pos hslab] at h; cases h
    rw [if_neg hslab] at h
    set a := mkfsNslabs hasMd (dev.tbytes / dev.lbNbytes)
      (if hasMd then 0 else u32 (flaCeilDiv sizeofFlaSuper dev.lbNbytes)) slabNlb dev.lbNbytes
    by_cases h1 : a = 0
    · rw [if_pos h1] at h; cases h
    by_cases h2 : a < npools
    · rw [if_neg h1, if_pos h2] at h; cases h
    rw [if_neg h1, if_neg h2] at h
    set p := if npools = 0 then a else npools
    set n := mkfsNslabs hasMd (dev.tbytes / dev.lbNbytes) (u32 (flaCeilDiv sizeofFlaSuper dev.lbNbytes) +
      flaGeoPoolSgmtNblocks (flaGeoPoolSgmtCalc p dev.lbNbytes)) slabNlb dev.lbNbytes
    by_cases h3 : n = 0
    · rw [if_pos h3] at h; cases h
    by_cases h4 : n < npools
    · rw [if_neg h3, if_pos h4] at h; cases h
    rw [if_neg h3, if_neg h4] at h
    refine ⟨by omega, by omega, a, p, n, by omega, by omega, by omega, by omega, rfl, rfl, rfl, ?_⟩
    by_cases h5 : n < p
    · rw [if_pos h5] at h
      cases h
      rw [mkfsGeo, min_eq_right (by omega)]
    · rw [if_neg h5] at h
      cases h
      rw [mkfsGeo, min_eq_left (by omega)]

theorem nelemsMax_lt (unitsTotal elemSz : ℕ) (f : ℕ → ℕ) : flaNelemsMax unitsTotal elemSz f < 2 ^ 32 :=
  (Nat.findGreatest_le _).trans_lt (u32_lt _)

theorem mkfsNslabs_lt (hasMd : Bool) (nlb used slabNlb lbNbytes : ℕ) :
    mkfsNslabs hasMd nlb used slabNlb lbNbytes < 2 ^ 32 := by
  unfold mkfsNslabs
  split_ifs
  · unfold flaNslabsMaxMddev
    dsimp only
    split_ifs
    · exact u32_lt _
    · decide
  · exact nelemsMax_lt _ _ _

/-- **What is accepted** has a pool, no more pools than slabs, and fewer than 2^32 slabs. -/
theorem accepted_bounds {dev : Dev} {hasMd : Bool} {npools slabNlb : ℕ} {geo : Geo}
    (h : flaMkfsGeoCalc dev hasMd npools slabNlb = .ok (0, geo)) : 0 < geo.npools ∧ geo.npools ≤ geo.nslabs ∧
      geo.nslabs < 2 ^ 32 ∧ geo.slabNlb = slabNlb ∧ 0 < slabNlb ∧ geo.lbNbytes = dev.lbNbytes ∧ 0 < geo.lbNbytes := by
  obtain ⟨hlb, hslab, a, p, n, ha, -, hn, -, -, hp, hneq, rfl⟩ := mkfsGeoCalc_accepts h
  have hn32 : n < 2 ^ 32 := by
    rw [hneq]
    exact mkfsNslabs_lt _ _ _ _ _
  have hp0 : 0 < p := by
    rw [hp]
    split_ifs <;> omega
  exact ⟨Nat.lt_min.2 ⟨hp0, hn⟩, min_le_right p n, hn32, rfl, hslab, rfl, hlb⟩

theorem mkfsGeoCalc_zones {dev : Dev} {hasMd : Bool} {npools slabNlb nzsect : ℕ} {geo : Geo} (hcs : dev.cs = .zns nzsect)
    (h : flaMkfsGeoCalc dev hasMd npools slabNlb = .ok (0, geo)) : slabNlb % nzsect = 0 := by
  by_contra hmod
  have hcheck : flaCsGeoCheck dev slabNlb = if nzsect = 0 then .error .divByZero else .ok (-1) := by
    rw [flaCsGeoCheck, hcs]
    dsimp only
    rw [if_neg hmod]
  unfold flaMkfsGeoCalc at h
  by_cases hlb : dev.lbNbytes = 0
  · rw [if_pos hlb] at h; cases h
  rw [if_neg hlb, hcheck] at h
  by_cases h0 : nzsect = 0
  · rw [if_pos h0] at h; cases h
  · rw [if_neg h0] at h; cases h

theorem mkfsGeoCalc_ok {dev : Dev} {npools slabNlb : ℕ} {geo : Geo}
    (h : flaMkfsGeoCalc dev false npools slabNlb = .ok (0, geo)) :
    0 < dev.lbNbytes ∧ 0 < slabNlb ∧ ∃ a p n, 0 < a ∧ npools ≤ a ∧ 0 < n ∧ npools ≤ n ∧
      a = mkfsNslabs false (dev.tbytes / dev.lbNbytes) (u32 (flaCeilDiv sizeofFlaSuper dev.lbNbytes)) slabNlb
        dev.lbNbytes ∧
      p = (if npools = 0 then a else npools) ∧
      n = mkfsNslabs false (dev.tbytes / dev.lbNbytes) (u32 (flaCeilDiv sizeofFlaSuper dev.lbNbytes) +
        flaGeoPoolSgmtNblocks (flaGeoPoolSgmtCalc p dev.lbNbytes)) slabNlb dev.lbNbytes ∧
      geo = mkfsGeo dev slabNlb p n := by
  have hacc := mkfsGeoCalc_accepts h
  rwa [if_neg Bool.false_ne_true] at hacc

def flaMagic : ℕ := 0x00534621

def flaFmtVer : ℕ := 1

def flaMkfsSuperInit (geo : Geo) : Super := ⟨flaMagic, geo.nslabs, geo.slabNlb, geo.npools, geo.mdNlb, flaFmtVer⟩

def flaGeoFromSuper (dev : Dev) (super : Super) : Geo where
  nlb := dev.tbytes / dev.lbNbytes
  lbNbytes := dev.lbNbytes
  slabNlb := super.slabNlb
  npools := super.npools
  nslabs := super.nslabs
  mdNlb := super.mdNlb
  poolSgmt := flaGeoPoolSgmtCalc super.npools dev.lbNbytes
  slabSgmtNlb := flaSlabSgmtCalc super.nslabs dev.lbNbytes

/-! ## Addresses -/

/-- the fields of an open system that the address computations read -/
structure Volume where
  geo : Geo
  super : Super
  hasMd : Bool
  cs : Cs
deriving DecidableEq, Repr

/-- a conventional device without a metadata device -/
def Volume.single (geo : Geo) : Volume := ⟨geo, flaMkfsSuperInit geo, false, .cns⟩

/-- `struct fla_object` -/
structure Obj where
  slabId : ℕ
  entryNdx : ℕ
deriving DecidableEq, Repr

def flaGeoSlabSgmtLbOff (geo : Geo) : ℕ := geo.mdNlb + flaGeoPoolSgmtNblocks geo.poolSgmt

def flaGeoSlabsLbOff (geo : Geo) : ℕ := flaGeoSlabSgmtLbOff geo + geo.slabSgmtNlb

/-- `fla_cs_cns_slab_offset`: both factors are `uint32_t` -/
def flaCsCnsSlabOffset (v : Volume) (slabId slabsBase : ℕ) : ℕ := slabsBase + u32 (slabId * v.geo.slabNlb)

def flaCsZnsSlabOffset (v : Volume) (nzsect slabId slabsBase : ℕ) : ℕ :=
  let slabOffset := flaCsCnsSlabOffset v slabId slabsBase
  if slabOffset % nzsect = 0 then slabOffset else slabOffset + slabOffset % nzsect

def flaGeoSlabLbOff (v : Volume) (slabId : ℕ) : ℕ :=
  let slabsBase := if v.hasMd then 0 else flaGeoSlabsLbOff v.geo
  match v.cs with
  | .cns => flaCsCnsSlabOffset v slabId slabsBase
  | .zns nzsect => flaCsZnsSlabOffset v nzsect slabId slabsBase

def flaSlabCacheFlistNlb (v : Volume) (flistLen : ℕ) : ℕ := flaCeilDiv (flaFlistSize flistLen) v.geo.lbNbytes

def cacheEntryLbSlba (v : Volume) (slabId flistNlb : ℕ) : ℕ :=
  if v.hasMd then flaGeoSlabsLbOff v.geo + slabId
  else sub64 (flaGeoSlabLbOff v slabId + v.super.slabNlb) flistNlb

/-- `fla_calc_objs_in_slab`: count down to the first number of objects that leaves room for its freelist -/
def flaCalcObjsInSlab (v : Volume) (objNlb : ℕ) : Ret ℕ :=
  if objNlb = 0 then .error .divByZero
  else if v.hasMd then .ok (v.geo.slabNlb / objNlb)
  else .ok (Nat.findGreatest
    (fun objNum => flaSlabCacheFlistNlb v objNum ≤ sub32 v.geo.slabNlb (u32 (objNum * objNlb)))
    (v.geo.slabNlb / objNlb))

/-- `fla_object_slba`, for the `obj_nlb` of the pool entry -/
def flaObjectSlba (v : Volume) (objNlb : ℕ) (obj : Obj) : ℕ :=
  flaGeoSlabLbOff v obj.slabId + u32 (objNlb * obj.entryNdx)

def getSlabElbaDefault (objNlb objNdx : ℕ) : ℕ := u32 (objNlb * u32 (objNdx + 1))

def getSlabElbaStrp (objNlb strpNobjs objNdx : ℕ) : ℕ := u32 (objNlb * u32 (objNdx + strpNobjs))

/-- `fla_object_elba` of a pool that is not striped -/
def flaObjectElba (v : Volume) (objNlb : ℕ) (obj : Obj) : ℕ :=
  flaGeoSlabLbOff v obj.slabId + getSlabElbaDefault objNlb obj.entryNdx

end FlexAlloc
