/-
The state of an open FlexAlloc system (`flexalloc.h`, `flexalloc_mm.h`, `flexalloc_pool.h`, `flexalloc_slabcache.h`).

The metadata buffer is kept as the structures laid over it: super block, pool freelist, hash table, pool entries, slab
headers and the three free-list counters. Arrays are functions on their index; only the indices below `npools` and
`nslabs` exist. A C pointer to a slab header is the slab's id, and a pointer to a list head is the list it belongs to.

A pool entry past the array and a dispatch entry that was never set are faults of the caller (`entryAt`, `fncAt`).
-/
import FlexAlloc.Device
import FlexAlloc.HashMap

namespace FlexAlloc

open FlexAlloc.Core Function

/-! ## Pools -/

def flaNameSizePool : ℕ := 112

def flaRootObjNone : ℕ := 2 ^ 64 - 1

/-- `FLA_POOL_ENTRY_STRP`: the first value of its enumeration -/
def flaPoolEntryStrp : BitVec 64 := 0

/-- `struct fla_pool_entry`; `usable` holds the two striping parameters -/
structure PoolEntry where
  emptySlabs : ℕ
  fullSlabs : ℕ
  partialSlabs : ℕ
  objNlb : ℕ
  slabNobj : ℕ
  rootObjHndl : ℕ
  flags : BitVec 64
  strpNobjs : ℕ
  strpNbytes : ℕ
  name : List (BitVec 8)
deriving DecidableEq, Repr

/-- an entry of zero bytes -/
def PoolEntry.zero : PoolEntry := ⟨0, 0, 0, 0, 0, 0, 0, 0, 0, List.replicate flaNameSizePool 0⟩

/-- `struct fla_pool_entry_fnc`: the two sets of functions an entry can be dispatched to -/
inductive EntryFnc where
  | dflt
  | strp
deriving DecidableEq, Repr

/-- `struct fla_pools`; a dispatch entry is `none` until it is set -/
structure Pools where
  freelist : Freelist
  htbl : Htbl
  hdrSize : ℕ
  hdrLen : ℕ
  entries : ℕ → PoolEntry
  entrieFuncs : ℕ → Option EntryFnc

/-- `struct fla_pool` -/
structure PoolHandle where
  h2 : ℕ
  ndx : ℕ
deriving DecidableEq, Repr

/-- `struct fla_pool_create_arg`; `name` holds the bytes of the string before its terminator -/
structure PoolCreateArg where
  flags : BitVec 64
  name : List (BitVec 8)
  nameLen : ℤ
  objNlb : ℕ
  strpNobjs : ℕ
  strpNbytes : ℕ
deriving DecidableEq, Repr

/-! ## Slabs -/

/-- `struct fla_slab_header` -/
structure SlabHeader where
  pool : ℕ
  prev : ℕ
  next : ℕ
  refcount : ℕ
deriving DecidableEq, Repr

/-- `struct fla_slabs` -/
structure Slabs where
  headers : ℕ → SlabHeader
  fslabNum : ℕ
  fslabHead : ℕ
  fslabTail : ℕ

/-- `enum fla_slab_flist_elem_state` -/
inductive ElemState where
  | stale
  | dirty
  | clean
deriving DecidableEq, Repr

/-- an I/O buffer with a freelist at its start; `pad` are the bytes of the buffer after the freelist -/
structure FlistBuf where
  flist : Freelist
  pad : Bytes

/-- `struct fla_slab_flist_cache_elem`; `none` is a null pointer -/
structure CacheElem where
  state : ElemState
  freelist : Option FlistBuf

/-! ## The system -/

/-- `struct flexalloc`, with the devices it is open on; `mdDev` and `mdDisk` count only with a metadata device -/
structure Flexalloc where
  vol : Volume
  dev : Dev
  mdDev : Dev
  pools : Pools
  slabs : Slabs
  cache : ℕ → CacheElem
  disk : Bytes
  mdDisk : Bytes

namespace Flexalloc

variable (fs : Flexalloc)

abbrev geo : Geo := fs.vol.geo

abbrev nslabs : ℕ := fs.vol.geo.nslabs

abbrev npools : ℕ := fs.vol.super.npools

/-- `&fs->pools.entries[ndx]` -/
def entryAt (ndx : ℕ) : Ret PoolEntry :=
  if ndx < fs.npools then .ok (fs.pools.entries ndx) else .error .outOfBounds

/-- `fs->pools.entrie_funcs + ndx`, where it is called through -/
def fncAt (ndx : ℕ) : Ret EntryFnc :=
  if ndx < fs.npools then (match fs.pools.entrieFuncs ndx with
    | some f => .ok f
    | none => .error .uninitialised)
  else .error .outOfBounds

def header (s : ℕ) : SlabHeader := fs.slabs.headers s

def setHeader (s : ℕ) (h : SlabHeader) : Flexalloc :=
  { fs with slabs := { fs.slabs with headers := update fs.slabs.headers s h } }

/-- the device the metadata is on -/
def mdHome : Dev := if fs.vol.hasMd then fs.mdDev else fs.dev

def mdBytes : Bytes := if fs.vol.hasMd then fs.mdDisk else fs.disk

def setMdBytes (b : Bytes) : Flexalloc := if fs.vol.hasMd then { fs with mdDisk := b } else { fs with disk := b }

def setElem (s : ℕ) (e : CacheElem) : Flexalloc := { fs with cache := update fs.cache s e }

def setEntry (ndx : ℕ) (e : PoolEntry) : Flexalloc :=
  { fs with pools := { fs.pools with entries := update fs.pools.entries ndx e } }

@[simp] theorem setElem_self (s : ℕ) (e : CacheElem) : (fs.setElem s e).cache s = e := update_self ..

variable {fs} in
theorem setElem_ne {s t : ℕ} (h : t ≠ s) (e : CacheElem) : (fs.setElem s e).cache t = fs.cache t := update_of_ne h ..

end Flexalloc

theorem entryAt_eq {fs : Flexalloc} {ndx : ℕ} {e : PoolEntry} (h : fs.entryAt ndx = .ok e) : e = fs.pools.entries ndx := by
  unfold Flexalloc.entryAt at h
  split_ifs at h
  cases h
  rfl

/-- open on the same devices -/
def SameDevs (fs fs' : Flexalloc) : Prop := fs'.dev = fs.dev ∧ fs'.mdDev = fs.mdDev

/-! ## The state left by mkfs -/

/-- the slab headers written by `fla_mkfs_slab_sgmt_init`: first, last, then the ones between -/
def mkfsHeaders (nslabs : ℕ) : ℕ → SlabHeader :=
  let last := sub32 nslabs 1
  fun s =>
    if 1 ≤ s ∧ s < last then ⟨0, s - 1, s + 1, 0⟩
    else if s = last then ⟨0, sub32 last 1, flaLinkedListNull, 0⟩
    else if s = 0 then ⟨0, flaLinkedListNull, 1, 0⟩
    else ⟨0, 0, 0, 0⟩

def flaMkfsSlabSgmtInit (geo : Geo) : Slabs := ⟨mkfsHeaders geo.nslabs, geo.nslabs, 0, sub32 geo.nslabs 1⟩

/-- `fla_mkfs_pool_sgmt_init`, with the dispatch table still unset -/
def flaMkfsPoolSgmtInit (geo : Geo) : Pools where
  freelist := flaFlistInit geo.npools
  htbl := htblInit geo.poolSgmt.htblTblSize
  hdrSize := geo.poolSgmt.htblTblSize
  hdrLen := 0
  entries := fun _ => .zero
  entrieFuncs := fun _ => none

/-- a system just formatted on one device and open, with an empty slab cache -/
def flaMkfs (dev : Dev) (geo : Geo) (disk : Bytes) : Flexalloc where
  vol := ⟨geo, flaMkfsSuperInit geo, false, dev.cs⟩
  dev := dev
  mdDev := dev
  pools := flaMkfsPoolSgmtInit geo
  slabs := flaMkfsSlabSgmtInit geo
  cache := fun _ => ⟨.stale, none⟩
  disk := disk
  mdDisk := fun _ => 0

/-- a system just opened on volume `v` as mkfs left it, with or without a metadata device -/
structure Fresh (v : Volume) (fs : Flexalloc) : Prop where
  vol : fs.vol = v
  pools : fs.pools = flaMkfsPoolSgmtInit v.geo
  slabs : fs.slabs = flaMkfsSlabSgmtInit v.geo
  cache : ∀ s, fs.cache s = ⟨.stale, none⟩

theorem mkfs_fresh (dev : Dev) (geo : Geo) (disk : Bytes) : Fresh (flaMkfs dev geo disk).vol (flaMkfs dev geo disk) :=
  ⟨rfl, rfl, rfl, fun _ => rfl⟩

end FlexAlloc
