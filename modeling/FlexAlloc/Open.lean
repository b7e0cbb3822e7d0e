/-
Opening a formatted device: `fla_open` with `fla_super_read`, `fla_init`, `fla_pool_init` and `fla_slab_cache_init`.

The structures of an open system are pointers into the buffer that was read; here they are decoded from it, at the
places `mdRanges` gives. The dispatch table of the pools is not stored: `fla_pool_init` sets it for the pools that the
freelist search visits, and leaves the rest of the memory as `malloc` returned it.

- `poolInit_eq`: which entries of the dispatch table are set, and to what.
- `open_inv`: all that an open that returns a system can have done.
-/
import FlexAlloc.Sync
import FlexAlloc.Pool

namespace FlexAlloc

open FlexAlloc.Core Function

/-! ## Decoding -/

/-- memory from `off` on -/
def Core.Bytes.from (b : Bytes) (off : ℕ) : Bytes := fun i => b (off + i)

def superAt (b : Bytes) : Super := ⟨leNat b 0 8, leNat b 8 4, leNat b 12 4, leNat b 16 4, leNat b 20 4, leNat b 24 1⟩

def htblEntryAt (b : Bytes) (off : ℕ) : HtblEntry := ⟨leNat b off 8, leNat b (off + 8) 4, leNat b (off + 12) 2⟩

def poolEntryAt (b : Bytes) (off : ℕ) : PoolEntry where
  emptySlabs := leNat b off 4
  fullSlabs := leNat b (off + 4) 4
  partialSlabs := leNat b (off + 8) 4
  objNlb := leNat b (off + 12) 4
  slabNobj := leNat b (off + 16) 4
  rootObjHndl := leNat b (off + 24) 8
  flags := BitVec.ofNat 64 (leNat b (off + 32) 8)
  strpNobjs := leNat b (off + 40) 4
  strpNbytes := leNat b (off + 44) 4
  name := (List.range flaNameSizePool).map fun i => (b (off + 48 + i)).toBitVec

def slabHeaderAt (b : Bytes) (off : ℕ) : SlabHeader :=
  ⟨leNat b off 8, leNat b (off + 8) 4, leNat b (off + 12) 4, leNat b (off + 16) 4⟩

/-! ## Opening -/

def flaMdtsMinNbytes : ℕ := 512

/-- `fla_dev_sanity_check`; `fla_open` gives it the device itself when there is no metadata device -/
def flaDevSanityCheck (dev mdDev : Dev) : ℤ :=
  if dev.mdtsNbytes ≤ flaMdtsMinNbytes ∨ mdDev.mdtsNbytes ≤ flaMdtsMinNbytes ∨ mdDev.lbNbytes ≠ dev.lbNbytes then 1 else 0

/-- read `nbytes` bytes from the start of a device into a fresh buffer of zeros -/
def readHead (env : Env) (dev : Dev) (disk : Bytes) (nbytes : ℕ) : Ret (ℤ × Bytes) :=
  if ¬ env.bufAlloc then .ok (-eNOMEM, 0)
  else
    let range := env.rangeFromOffsetNbytes dev 0 nbytes
    if ¬ range.isValid then .ok (1, 0) else flaXneSyncSeqRXneio env dev range disk 0

def flaSuperRead (env : Env) (dev : Dev) (disk : Bytes) (lbNbytes : ℕ) : Ret (ℤ × Super) := do
  let (err, b) ← readHead env dev disk lbNbytes
  .ok (if err ≠ 0 then err else if (superAt b).magic ≠ flaMagic then 22 else 0, superAt b)

/-- the callback `fla_pool_initialize_entrie_func` -/
def initializeVisit (p : Pools) (ndx : ℕ) : ℤ × Pools := (0, flaPoolInitializeEntrieFunc p ndx)

/-- the pool segment as `fla_pool_init` finds it in the buffer, with the dispatch table as memory came -/
def poolsAt (geo : Geo) (b : Bytes) : Pools :=
  let base := flaGeoPoolSgmtOff geo
  let htbl := base + u32 (geo.lbNbytes * geo.poolSgmt.freelistNlb)
  let entries := base + u32 (geo.lbNbytes * u32 (geo.poolSgmt.freelistNlb + geo.poolSgmt.htblNlb))
  let size := leNat b htbl 4
  { freelist := flistOfBytes (b.from base) (leNat b base 4)
    htbl :=
      { tbl := fun i =>
          if i < size then htblEntryAt b (htbl + sizeofFlaPoolHtblHeader + i * sizeofFlaHtblEntry)
          else ⟨flaHtblEntryUnset, 0, 0⟩
        tblSize := size
        len := leNat b (htbl + 4) 4 }
    hdrSize := size
    hdrLen := leNat b (htbl + 4) 4
    entries := fun i => if i < geo.npools then poolEntryAt b (entries + i * sizeofFlaPoolEntry) else .zero
    entrieFuncs := fun _ => none }

/-- `fla_pool_init`, on the buffer `b`: the dispatch table is set by the search -/
def flaPoolInit (env : Env) (geo : Geo) (b : Bytes) : ℤ × Pools :=
  let pools := poolsAt geo b
  if ¬ env.malloc then (-eNOMEM, pools)
  else
    let (err, _, pools) := flaFlistSearchWfunc initializeVisit pools.freelist flaFlistSearchExecFirst 0 pools
    (err, pools)

/-- the slab segment as `fla_init` finds it in the buffer -/
def slabsAt (geo : Geo) (b : Bytes) : Slabs :=
  let headers := flaGeoSlabSgmtOff geo
  let tail := headers + u32 (geo.slabSgmtNlb * geo.lbNbytes)
  { headers := fun s => if s < geo.nslabs then slabHeaderAt b (headers + s * sizeofFlaSlabHeader) else ⟨0, 0, 0, 0⟩
    fslabNum := leNat b (tail - 12) 4
    fslabHead := leNat b (tail - 8) 4
    fslabTail := leNat b (tail - 4) 4 }

/-- `fla_init` and `fla_slab_cache_init` on a buffer that has been read: a system with an empty slab cache -/
def flaInit (env : Env) (dev mdDev : Dev) (hasMd : Bool) (geo : Geo) (b disk mdDisk : Bytes) : ℤ × Option Flexalloc :=
  let (err, pools) := flaPoolInit env geo b
  if err ≠ 0 then (err, none)
  else (0, some
    { vol := ⟨geo, superAt b, hasMd, dev.cs⟩
      dev := dev
      mdDev := mdDev
      pools := pools
      slabs := slabsAt geo b
      cache := fun _ => ⟨.stale, none⟩
      disk := disk
      mdDisk := mdDisk })

/-- `fla_open`, of devices that xNVMe opens -/
def flaOpen (env : Env) (dev mdDev : Dev) (hasMd : Bool) (disk mdDisk : Bytes) : Ret (ℤ × Option Flexalloc) :=
  let home := if hasMd then mdDev else dev
  let bytes := if hasMd then mdDisk else disk
  if ¬ env.malloc then .ok (-eNOMEM, none)
  else if flaDevSanityCheck dev home ≠ 0 then .ok (flaDevSanityCheck dev home, none)
  else do
    let (err, super) ← flaSuperRead env home bytes dev.lbNbytes
    if err ≠ 0 then .ok (err, none)
    else
      let geo := flaGeoFromSuper dev super
      let (err, b) ← readHead env home bytes (flaGeoNbytes geo)
      if err ≠ 0 then .ok (err, none) else .ok (flaInit env dev mdDev hasMd geo b disk mdDisk)

/-! ## The dispatch table -/

theorem initialize_foldl (l : List ℕ) (n : ℕ) (p : Pools) :
    (l.foldl (visit initializeVisit) (n, p)).2 =
      { p with entrieFuncs := fun i => if i ∈ l then some .dflt else p.entrieFuncs i } := by
  induction l generalizing n p with
  | nil => simp
  | cons a l ih =>
    rw [List.foldl_cons]
    have hvisit : visit initializeVisit (n, p) a = (n + 0, flaPoolInitializeEntrieFunc p a) := rfl
    rw [hvisit, ih, initializeEntrieFunc_eq]
    congr 1
    funext i
    by_cases hi : i ∈ l
    · simp [hi]
    · by_cases hia : i = a
      · simp [hia]
      · simp [hi, hia]

/-- the pools the search of `fla_pool_init` visits -/
def Freelist.visited (fl : Freelist) : List ℕ :=
  fl.reserved.filter fun i => decide (fl.len % 32 ≠ 0) || decide (i + 32 < fl.len)

/-- **The pools after an open**: those of the buffer, with default functions for the pools that the search visits and
nothing for the rest. -/
theorem poolInit_eq {env : Env} {geo : Geo} {b : Bytes} {p : Pools} (h : flaPoolInit env geo b = (0, p)) :
    p = { poolsAt geo b with
      entrieFuncs := fun i => if i ∈ (poolsAt geo b).freelist.visited then some .dflt else none } := by
  unfold flaPoolInit at h
  dsimp only at h
  split_ifs at h with hm
  · rw [search_visits fun _ _ => Or.inl rfl] at h
    dsimp only at h
    rw [initialize_foldl] at h
    obtain ⟨-, rfl⟩ := Prod.mk.inj h
    rfl
  · exact absurd (Prod.mk.inj h).1 (by decide)

/-- **Opening**: a system that is returned was decoded from a buffer that was read. -/
theorem open_inv {env : Env} {dev mdDev : Dev} {hasMd : Bool} {disk mdDisk : Bytes} {err : ℤ} {fs : Flexalloc}
    (h : flaOpen env dev mdDev hasMd disk mdDisk = .ok (err, some fs)) :
    ∃ super b, flaSuperRead env (if hasMd then mdDev else dev) (if hasMd then mdDisk else disk) dev.lbNbytes =
        .ok (0, super) ∧
      readHead env (if hasMd then mdDev else dev) (if hasMd then mdDisk else disk)
        (flaGeoNbytes (flaGeoFromSuper dev super)) = .ok (0, b) ∧
      flaInit env dev mdDev hasMd (flaGeoFromSuper dev super) b disk mdDisk = (err, some fs) := by
  unfold flaOpen at h
  dsimp only at h
  generalize (if hasMd then mdDev else dev) = home at h ⊢
  generalize (if hasMd then mdDisk else disk) = bytes at h ⊢
  by_cases hm : ¬ env.malloc
  · rw [if_pos hm] at h
    cases h
  rw [if_neg hm] at h
  split_ifs at h with hsane
  · cases h
  obtain ⟨⟨err₁, super⟩, hsuper, h⟩ := bind_eq_ok h
  dsimp only at h
  split_ifs at h with herr₁
  · cases h
  obtain ⟨⟨err₂, b⟩, hread, h⟩ := bind_eq_ok h
  dsimp only at h
  split_ifs at h with herr₂
  · cases h
  rw [not_ne_iff.1 herr₁] at hsuper
  rw [not_ne_iff.1 herr₂] at hread
  exact ⟨super, b, hsuper, hread, Except.ok.inj h⟩

theorem init_inv {env : Env} {dev mdDev : Dev} {hasMd : Bool} {geo : Geo} {b disk mdDisk : Bytes} {err : ℤ}
    {fs : Flexalloc} (h : flaInit env dev mdDev hasMd geo b disk mdDisk = (err, some fs)) :
    err = 0 ∧ flaPoolInit env geo b = (0, fs.pools) ∧ fs.slabs = slabsAt geo b ∧
      fs.vol = ⟨geo, superAt b, hasMd, dev.cs⟩ ∧ (fs.dev = dev ∧ fs.mdDev = mdDev) ∧
      (fs.disk = disk ∧ fs.mdDisk = mdDisk) ∧ ∀ s, fs.cache s = ⟨.stale, none⟩ := by
  unfold flaInit at h
  cases hp : flaPoolInit env geo b with
  | mk err₁ pools =>
    rw [hp] at h
    dsimp only at h
    split_ifs at h with herr
    · cases h
    rw [not_ne_iff.1 herr]
    cases h
    exact ⟨rfl, rfl, rfl, rfl, ⟨rfl, rfl⟩, ⟨rfl, rfl⟩, fun _ => rfl⟩

end FlexAlloc
