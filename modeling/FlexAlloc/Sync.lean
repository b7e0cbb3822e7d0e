/-
Writing an open system to its device: `fla_flush` (`flexalloc_mm.c`).

`mdBuffer` is the buffer that holds the metadata, as the structures of the state laid out by `mdRanges`. A flush writes
the freelists of the dirty cache elements, and when all of them are written copies the length of the hash table to its
header and writes the buffer.

- `flush_flushed`: whatever a flush returns, it changes the device, the header of the hash table, and dirty cache
  elements to clean ones; nothing else.
-/
import FlexAlloc.SlabCache
import FlexAlloc.Format
import FlexAlloc.Core.Image

namespace FlexAlloc

open FlexAlloc.Core Function

/-! ## The metadata buffer -/

def superBytes (super : Super) : Bytes :=
  record [(8, super.magic), (4, super.nslabs), (4, super.slabNlb), (4, super.npools), (4, super.mdNlb),
    (1, super.fmtVersion)]

def htblEntryBytes (e : HtblEntry) : Bytes := record [(8, e.h2), (4, e.val), (2, e.psl)]

def nameBytes (name : List (BitVec 8)) : Bytes := fun i => ⟨name.getD i 0⟩

def poolEntryBytes (e : PoolEntry) : Bytes :=
  image [(0, 48, record [(4, e.emptySlabs), (4, e.fullSlabs), (4, e.partialSlabs), (4, e.objNlb), (4, e.slabNobj), (4, 0),
      (8, e.rootObjHndl), (8, e.flags.toNat), (4, e.strpNobjs), (4, e.strpNbytes)]),
    (48, flaNameSizePool, nameBytes e.name)]

def slabHeaderBytes (h : SlabHeader) : Bytes := record [(8, h.pool), (4, h.prev), (4, h.next), (4, h.refcount)]

/-- what each piece of the metadata buffer holds, in the order of `mdRanges` -/
def mdPieces (fs : Flexalloc) : List Bytes :=
  [superBytes fs.vol.super,
   flistBytes ⟨fs.pools.freelist, 0⟩,
   record [(4, fs.pools.hdrSize), (4, fs.pools.hdrLen)],
   arrayOf sizeofFlaHtblEntry fun i => htblEntryBytes (fs.pools.htbl.tbl i),
   arrayOf sizeofFlaPoolEntry fun i => poolEntryBytes (fs.pools.entries i),
   arrayOf sizeofFlaSlabHeader fun s => slabHeaderBytes (fs.header s),
   record [(4, fs.slabs.fslabNum)], record [(4, fs.slabs.fslabHead)], record [(4, fs.slabs.fslabTail)]]

/-- `fs->fs_buffer` -/
def mdBuffer (fs : Flexalloc) : Bytes := image (List.zipWith (fun r b => (r.1, r.2, b)) (mdRanges fs.geo) (mdPieces fs))

/-! ## Flushing -/

/-- the end of `fla_flush`, once the freelists are written -/
def flushMd (env : Env) (fs : Flexalloc) : Ret (ℤ × Flexalloc) :=
  -- the length is kept outside the buffer while the system is open
  let fs := { fs with pools := { fs.pools with hdrLen := fs.pools.htbl.len } }
  let range := env.rangeFromSlbaNaddrs fs.mdHome 0 (flaGeoNblocks fs.geo)
  if ¬ range.isValid then .ok (1, fs)
  else do
    let (err, disk) ← flaXneSyncSeqWXneio env fs.mdHome false range (mdBuffer fs) fs.mdBytes
    .ok (err, fs.setMdBytes disk)

/-- `fla_flush`, of an open system -/
def flaFlush (env : Env) (fs : Flexalloc) : Ret (ℤ × Flexalloc) := do
  let (err, fs) ← flaSlabCacheFlush env fs
  if err ≠ 0 then .ok (err, fs) else flushMd env fs

def flaBaseSync (env : Env) (fs : Flexalloc) : Ret (ℤ × Flexalloc) := flaFlush env fs

/-- `fs'` is `fs` with some of it written to the device -/
structure Flushed (fs fs' : Flexalloc) : Prop where
  vol : fs'.vol = fs.vol
  devs : SameDevs fs fs'
  slabs : fs'.slabs = fs.slabs
  pools : ∃ n, fs'.pools = { fs.pools with hdrLen := n }
  flist : ∀ s, (fs'.cache s).freelist = (fs.cache s).freelist
  stale : ∀ s, (fs'.cache s).state = .stale ↔ (fs.cache s).state = .stale

theorem Flushed.refl (fs : Flexalloc) : Flushed fs fs :=
  ⟨rfl, ⟨rfl, rfl⟩, rfl, ⟨fs.pools.hdrLen, rfl⟩, fun _ => rfl, fun _ => Iff.rfl⟩

theorem Flushed.trans {fs₁ fs₂ fs₃ : Flexalloc} (h : Flushed fs₁ fs₂) (h' : Flushed fs₂ fs₃) : Flushed fs₁ fs₃ := by
  obtain ⟨n, hn⟩ := h.pools
  obtain ⟨m, hm⟩ := h'.pools
  refine ⟨h'.vol.trans h.vol, ⟨h'.devs.1.trans h.devs.1, h'.devs.2.trans h.devs.2⟩, h'.slabs.trans h.slabs,
    ⟨m, by rw [hm, hn]⟩, fun s => (h'.flist s).trans (h.flist s), fun s => (h'.stale s).trans (h.stale s)⟩

theorem flushed_setMdBytes (fs : Flexalloc) (b : Bytes) : Flushed fs (fs.setMdBytes b) := by
  unfold Flexalloc.setMdBytes
  split_ifs
  · exact ⟨rfl, ⟨rfl, rfl⟩, rfl, ⟨fs.pools.hdrLen, rfl⟩, fun _ => rfl, fun _ => Iff.rfl⟩
  · exact ⟨rfl, ⟨rfl, rfl⟩, rfl, ⟨fs.pools.hdrLen, rfl⟩, fun _ => rfl, fun _ => Iff.rfl⟩

section Flush

variable {env : Env} {fs fs' : Flexalloc} {err : ℤ}

theorem elemFlush_flushed {s : ℕ} (h : flaSlabCacheElemFlush env fs s = .ok (err, fs')) : Flushed fs fs' := by
  unfold flaSlabCacheElemFlush at h
  by_cases hst : (fs.cache s).state ≠ .dirty
  · rw [if_pos hst] at h
    cases h
    exact .refl fs
  rw [if_neg hst] at h
  have hdirty := not_ne_iff.1 hst
  cases hbuf : (fs.cache s).freelist with
  | none =>
    rw [hbuf] at h
    cases h
  | some buf =>
    rw [hbuf] at h
    dsimp only at h
    split_ifs at h with hvalid
    swap
    · cases h
      exact .refl fs
    split at h
    · cases h
    · rename_i err₁ disk hw
      have hmd := flushed_setMdBytes fs disk
      split_ifs at h with herr
      · cases h
        exact hmd
      · cases h
        -- the element turns from dirty to clean
        refine hmd.trans ⟨rfl, ⟨rfl, rfl⟩, rfl, ⟨_, rfl⟩, fun t => ?_, fun t => ?_⟩
        · by_cases ht : t = s
          · subst ht
            rw [Flexalloc.setElem_self, hmd.flist, hbuf]
          · rw [Flexalloc.setElem_ne ht]
        · by_cases ht : t = s
          · subst ht
            rw [Flexalloc.setElem_self, hmd.stale, hdirty]
            simp
          · rw [Flexalloc.setElem_ne ht]

theorem cacheFlushLoop_flushed (n slabId : ℕ) {err₀ : ℤ} (h : slabCacheFlushLoop env n slabId err₀ fs = .ok (err, fs')) :
    Flushed fs fs' := by
  induction n generalizing slabId err₀ fs with
  | zero =>
    cases h
    exact .refl _
  | succ n ih =>
    rw [slabCacheFlushLoop] at h
    split at h
    · cases h
    · rename_i ret fs₁ hflush
      exact (elemFlush_flushed hflush).trans (ih _ h)

theorem flushMd_flushed (h : flushMd env fs = .ok (err, fs')) : Flushed fs fs' := by
  have hlen : Flushed fs { fs with pools := { fs.pools with hdrLen := fs.pools.htbl.len } } :=
    ⟨rfl, ⟨rfl, rfl⟩, rfl, ⟨_, rfl⟩, fun _ => rfl, fun _ => Iff.rfl⟩
  unfold flushMd at h
  dsimp only at h
  split_ifs at h with hvalid
  · obtain ⟨⟨err₁, disk⟩, -, h⟩ := bind_eq_ok h
    cases h
    exact hlen.trans (flushed_setMdBytes _ _)
  · cases h
    exact hlen

/-- **What a flush leaves alone.** -/
theorem flush_flushed (h : flaFlush env fs = .ok (err, fs')) : Flushed fs fs' := by
  obtain ⟨⟨err₁, fs₁⟩, hcache, h⟩ := bind_eq_ok h
  have hfl : Flushed fs fs₁ := cacheFlushLoop_flushed _ _ hcache
  dsimp only at h
  split_ifs at h with herr
  · cases h
    exact hfl
  · exact hfl.trans (flushMd_flushed h)

end Flush

end FlexAlloc
