/-
Closing and opening again: what `fla_flush` writes, `fla_open` reads.

Each structure of the metadata is read back with its fields cut to their widths (`SlabHeader.stored`,
`PoolEntry.stored`, `HtblEntry.stored`), from the place where it was written (`mdBuffer_held`).

- `flush_written`: after a flush that returns 0 the start of the device holds the metadata buffer.
- `open_reopened`: a system that is opened from bytes that start with the metadata of a system has what that one has.
- `reopen_inv`: a system that is opened from a device just flushed has the volume, headers, free queue, pool freelist,
  hash table and entries it had, and an empty cache.
-/
import FlexAlloc.FreeSlabs
import FlexAlloc.Open

namespace FlexAlloc

open FlexAlloc.Core Function

/-! ## Structures as they are stored -/

def SlabHeader.stored (h : SlabHeader) : SlabHeader :=
  ⟨h.pool % 2 ^ 64, h.prev % 2 ^ 32, h.next % 2 ^ 32, h.refcount % 2 ^ 32⟩

def HtblEntry.stored (e : HtblEntry) : HtblEntry := ⟨e.h2 % 2 ^ 64, e.val % 2 ^ 32, e.psl % 2 ^ 16⟩

def PoolEntry.stored (e : PoolEntry) : PoolEntry where
  emptySlabs := e.emptySlabs % 2 ^ 32
  fullSlabs := e.fullSlabs % 2 ^ 32
  partialSlabs := e.partialSlabs % 2 ^ 32
  objNlb := e.objNlb % 2 ^ 32
  slabNobj := e.slabNobj % 2 ^ 32
  rootObjHndl := e.rootObjHndl % 2 ^ 64
  flags := e.flags
  strpNobjs := e.strpNobjs % 2 ^ 32
  strpNbytes := e.strpNbytes % 2 ^ 32
  name := (List.range flaNameSizePool).map fun i => e.name.getD i 0

section Held

variable {b : Bytes} {off : ℕ}

theorem slabHeaderAt_held {h : SlabHeader} (hb : Held b off sizeofFlaSlabHeader (slabHeaderBytes h)) :
    slabHeaderAt b off = h.stored := by
  have hpool : leNat b off 8 = h.pool % 2 ^ 64 := hb.field 0 (o := 0) rfl rfl (by decide)
  have hprev : leNat b (off + 8) 4 = h.prev % 2 ^ 32 := hb.field 1 rfl rfl (by decide)
  have hnext : leNat b (off + 12) 4 = h.next % 2 ^ 32 := hb.field 2 rfl rfl (by decide)
  have hcount : leNat b (off + 16) 4 = h.refcount % 2 ^ 32 := hb.field 3 rfl rfl (by decide)
  rw [slabHeaderAt, hpool, hprev, hnext, hcount, SlabHeader.stored]

theorem htblEntryAt_held {e : HtblEntry} (hb : Held b off sizeofFlaHtblEntry (htblEntryBytes e)) :
    htblEntryAt b off = e.stored := by
  have hh2 : leNat b off 8 = e.h2 % 2 ^ 64 := hb.field 0 (o := 0) rfl rfl (by decide)
  have hval : leNat b (off + 8) 4 = e.val % 2 ^ 32 := hb.field 1 rfl rfl (by decide)
  have hpsl : leNat b (off + 12) 2 = e.psl % 2 ^ 16 := hb.field 2 rfl rfl (by decide)
  rw [htblEntryAt, hh2, hval, hpsl, HtblEntry.stored]

/-- the fields of an entry before its name -/
def poolEntryFields (e : PoolEntry) : List (ℕ × ℕ) :=
  [(4, e.emptySlabs), (4, e.fullSlabs), (4, e.partialSlabs), (4, e.objNlb), (4, e.slabNobj), (4, 0), (8, e.rootObjHndl),
    (8, e.flags.toNat), (4, e.strpNobjs), (4, e.strpNbytes)]

theorem poolEntryAt_held {e : PoolEntry} (hb : Held b off sizeofFlaPoolEntry (poolEntryBytes e)) :
    poolEntryAt b off = e.stored := by
  have hrec : Held b off 48 (record (poolEntryFields e)) := fun i hi =>
    (hb i (hi.trans (by decide))).trans ((congrArg _ (Nat.zero_add i).symm).trans (image_head _ _ hi))
  have hname : ((List.range flaNameSizePool).map fun i => (b (off + 48 + i)).toBitVec) =
      (List.range flaNameSizePool).map fun i => e.name.getD i 0 := by
    refine List.map_congr_left fun i hi => ?_
    have hi : i < flaNameSizePool := List.mem_range.1 hi
    have hlt : 48 + i < sizeofFlaPoolEntry := Nat.add_lt_add_left hi 48
    rw [Nat.add_assoc, hb _ hlt, poolEntryBytes, image_tail _ _ (by omega), image_head _ _ hi, nameBytes]
  have hempty : leNat b off 4 = e.emptySlabs % 2 ^ 32 := hrec.field 0 (o := 0) rfl rfl (by decide)
  have hfull : leNat b (off + 4) 4 = e.fullSlabs % 2 ^ 32 := hrec.field 1 rfl rfl (by decide)
  have hpart : leNat b (off + 8) 4 = e.partialSlabs % 2 ^ 32 := hrec.field 2 rfl rfl (by decide)
  have hnlb : leNat b (off + 12) 4 = e.objNlb % 2 ^ 32 := hrec.field 3 rfl rfl (by decide)
  have hnobj : leNat b (off + 16) 4 = e.slabNobj % 2 ^ 32 := hrec.field 4 rfl rfl (by decide)
  have hroot : leNat b (off + 24) 8 = e.rootObjHndl % 2 ^ 64 := hrec.field 6 rfl rfl (by decide)
  have hflags : BitVec.ofNat 64 (leNat b (off + 32) 8) = e.flags := by
    have hnat : leNat b (off + 32) 8 = e.flags.toNat % 2 ^ 64 := hrec.field 7 rfl rfl (by decide)
    rw [hnat, Nat.mod_eq_of_lt e.flags.isLt, BitVec.ofNat_toNat, BitVec.setWidth_eq]
  have hnobjs : leNat b (off + 40) 4 = e.strpNobjs % 2 ^ 32 := hrec.field 8 rfl rfl (by decide)
  have hnbytes : leNat b (off + 44) 4 = e.strpNbytes % 2 ^ 32 := hrec.field 9 rfl rfl (by decide)
  rw [poolEntryAt, hempty, hfull, hpart, hnlb, hnobj, hroot, hflags, hnobjs, hnbytes, hname, PoolEntry.stored]

end Held

/-! ## What a flush writes -/

section Flush

variable {env : Env} {fs fs' : Flexalloc}

theorem mdBuffer_held (ha : Arranged fs.geo) (j : ℕ) {start size : ℕ} {c : Bytes}
    (hplace : (mdRanges fs.geo)[j]? = some (start, size)) (hc : (mdPieces fs)[j]? = some c) :
    Held (mdBuffer fs) start size c := held_zip ha.1 j hplace hc

theorem setMdBytes_mdBytes (fs : Flexalloc) (c : Bytes) : (fs.setMdBytes c).mdBytes = c := by
  unfold Flexalloc.setMdBytes Flexalloc.mdBytes
  by_cases hmd : fs.vol.hasMd
  · rw [if_pos hmd]
    exact if_pos hmd
  · rw [if_neg hmd]
    exact if_neg hmd

theorem mdBuffer_setMdBytes (fs : Flexalloc) (c : Bytes) : mdBuffer (fs.setMdBytes c) = mdBuffer fs := by
  unfold Flexalloc.setMdBytes
  split_ifs
  · rfl
  · rfl

theorem setMdBytes_pools (fs : Flexalloc) (c : Bytes) : (fs.setMdBytes c).pools = fs.pools := by
  unfold Flexalloc.setMdBytes
  split_ifs
  · rfl
  · rfl

theorem flushMd_written (hr : env.RangesExact fs.mdHome) (hpos : 0 < flaGeoNblocks fs.geo)
    (hlt : flaGeoNblocks fs.geo < 2 ^ 63) (hlb : fs.mdHome.lbNbytes = fs.geo.lbNbytes)
    (h : flushMd env fs = .ok (0, fs')) :
    (∀ i < flaGeoNbytes fs.geo, fs'.mdBytes i = mdBuffer fs' i) ∧ fs'.pools.hdrLen = fs'.pools.htbl.len := by
  unfold flushMd at h
  -- the system with the length of the hash table copied to its header
  set fs₁ : Flexalloc := { fs with pools := { fs.pools with hdrLen := fs.pools.htbl.len } } with hfs₁
  have hrange : env.rangeFromSlbaNaddrs fs₁.mdHome 0 (flaGeoNblocks fs₁.geo) =
      env.rangeFromSlbaNaddrs fs.mdHome 0 (flaGeoNblocks fs.geo) := rfl
  dsimp only at h
  rw [hrange] at h
  by_cases hvalid : (env.rangeFromSlbaNaddrs fs.mdHome 0 (flaGeoNblocks fs.geo)).isValid
  swap
  · rw [if_pos hvalid] at h
    cases h
  rw [if_neg (not_not.2 hvalid), hr 0 _ hpos hvalid] at h
  obtain ⟨⟨err, disk⟩, hw, h⟩ := bind_eq_ok h
  dsimp only at h
  obtain ⟨rfl, rfl⟩ := Prod.mk.inj (Except.ok.inj h)
  have hle : (⟨0, 0 + flaGeoNblocks fs.geo - 1, true⟩ : LbaRange).elba < 2 ^ 63 := by
    dsimp only
    omega
  have hcopy := seqW_spec (seqW_mdts (Nat.zero_le _) hle hw) hle hw
  have hhome : fs₁.mdHome.lbNbytes = fs.geo.lbNbytes := hlb
  have hlen : (0 + flaGeoNblocks fs.geo - 1 + 1 - 0) * fs.geo.lbNbytes = flaGeoNbytes fs.geo := by
    rw [show 0 + flaGeoNblocks fs.geo - 1 + 1 - 0 = flaGeoNblocks fs.geo by omega, flaGeoNbytes]
  dsimp only at hcopy
  rw [hhome, hlen, Nat.zero_mul] at hcopy
  refine ⟨fun i hi => ?_, ?_⟩
  · rw [setMdBytes_mdBytes, mdBuffer_setMdBytes, hcopy, copyBytes_of_mem (Nat.zero_le i) (by omega), Nat.zero_add,
      Nat.sub_zero]
  · rw [setMdBytes_pools]

/-- **What a flush leaves on the device.** A flush that returns 0 has written the metadata buffer of the system after it,
whose header of the hash table counts its elements. -/
theorem flush_written (hr : env.RangesExact fs.mdHome) (hpos : 0 < flaGeoNblocks fs.geo)
    (hlt : flaGeoNblocks fs.geo < 2 ^ 63) (hlb : fs.mdHome.lbNbytes = fs.geo.lbNbytes)
    (h : flaFlush env fs = .ok (0, fs')) :
    (∀ i < flaGeoNbytes fs.geo, fs'.mdBytes i = mdBuffer fs' i) ∧ fs'.pools.hdrLen = fs'.pools.htbl.len := by
  obtain ⟨⟨err₁, fs₁⟩, hcache, h⟩ := bind_eq_ok h
  have hfl : Flushed fs fs₁ := cacheFlushLoop_flushed _ _ hcache
  dsimp only at h
  split_ifs at h with herr
  · cases h
    exact absurd rfl herr
  have hhome : fs₁.mdHome = fs.mdHome := by
    unfold Flexalloc.mdHome
    rw [hfl.vol, hfl.devs.1, hfl.devs.2]
  have hgeo : fs₁.geo = fs.geo := by rw [Flexalloc.geo, hfl.vol]
  rw [← hhome] at hr hlb
  rw [← hgeo] at hpos hlt hlb ⊢
  exact flushMd_written hr hpos hlt hlb h

end Flush

/-! ## What an open reads -/

section Open

variable {env : Env} {dev : Dev} {disk b : Bytes}

theorem readHead_spec (hr : env.OffsetsExact dev) (hlb : 0 < dev.lbNbytes) {n : ℕ} (hn : 0 < n) (hlt : n < 2 ^ 63)
    (h : readHead env dev disk (n * dev.lbNbytes) = .ok (0, b)) (i : ℕ) (hi : i < n * dev.lbNbytes) : b i = disk i := by
  unfold readHead at h
  split_ifs at h with hbuf
  · dsimp only at h
    by_cases hvalid : (env.rangeFromOffsetNbytes dev 0 (n * dev.lbNbytes)).isValid
    swap
    · rw [if_pos hvalid] at h
      cases h
    rw [if_neg (not_not.2 hvalid), hr 0 _ (dvd_zero _) (Dvd.intro_left n rfl) (Nat.mul_pos hn hlb) hvalid, Nat.zero_div,
      Nat.zero_add, Nat.mul_div_cancel _ hlb] at h
    have hle : (⟨0, n - 1, true⟩ : LbaRange).elba < 2 ^ 63 := by
      dsimp only
      omega
    have hcopy := seqR_spec (seqR_mdts (Nat.zero_le _) hle h) hle h
    dsimp only at hcopy
    rw [show n - 1 + 1 - 0 = n by omega, Nat.zero_mul] at hcopy
    rw [hcopy, copyBytes_of_mem (Nat.zero_le i) (by omega), Nat.zero_add, Nat.sub_zero]
  · cases h

theorem superAt_held {super : Super} (hb : Held b 0 sizeofFlaSuper (superBytes super)) (hmagic : super.magic < 2 ^ 64)
    (hn : super.nslabs < 2 ^ 32) (hnlb : super.slabNlb < 2 ^ 32) (hp : super.npools < 2 ^ 32)
    (hmd : super.mdNlb < 2 ^ 32) (hver : super.fmtVersion < 2 ^ 8) : superAt b = super := by
  have h0 : leNat b 0 8 = super.magic % 2 ^ 64 := hb.field 0 (o := 0) rfl rfl (by decide)
  have h1 : leNat b 8 4 = super.nslabs % 2 ^ 32 := hb.field 1 (o := 8) rfl rfl (by decide)
  have h2 : leNat b 12 4 = super.slabNlb % 2 ^ 32 := hb.field 2 (o := 12) rfl rfl (by decide)
  have h3 : leNat b 16 4 = super.npools % 2 ^ 32 := hb.field 3 (o := 16) rfl rfl (by decide)
  have h4 : leNat b 20 4 = super.mdNlb % 2 ^ 32 := hb.field 4 (o := 20) rfl rfl (by decide)
  have h5 : leNat b 24 1 = super.fmtVersion % 2 ^ 8 := hb.field 5 (o := 24) rfl rfl (by decide)
  rw [superAt, h0, h1, h2, h3, h4, h5, Nat.mod_eq_of_lt hmagic, Nat.mod_eq_of_lt hn, Nat.mod_eq_of_lt hnlb,
    Nat.mod_eq_of_lt hp, Nat.mod_eq_of_lt hmd, Nat.mod_eq_of_lt hver]

end Open

/-! ## The round trip -/

/-- a volume that mkfs accepts, on a device with blocks of at least 512 bytes, with less than 4 GiB of metadata -/
structure Laid (dev mdDev : Dev) (hasMd : Bool) (npools slabNlb : ℕ) (geo : Geo) : Prop where
  accepted : flaMkfsGeoCalc dev hasMd npools slabNlb = .ok (0, geo)
  slabNlb_lt : slabNlb < 2 ^ 32
  same_lb : mdDev.lbNbytes = dev.lbNbytes
  lb : 512 ≤ dev.lbNbytes
  nbytes : flaGeoNbytes geo < 2 ^ 32

/-- an open system on a volume, with tables of the sizes of its geometry -/
structure OnVol (dev mdDev : Dev) (hasMd : Bool) (geo : Geo) (fs : Flexalloc) : Prop where
  vol : fs.vol = .formatted dev hasMd geo
  devs : fs.dev = dev ∧ fs.mdDev = mdDev
  flist : fs.pools.freelist.len = geo.npools
  hdr : fs.pools.hdrSize = geo.poolSgmt.htblTblSize
  tbl : fs.pools.htbl.tblSize = geo.poolSgmt.htblTblSize

/-- what is found again when `fs` is flushed and opened -/
structure Reopened (fs fs' : Flexalloc) : Prop where
  vol : fs'.vol = fs.vol
  devs : SameDevs fs fs'
  header : ∀ s < fs.nslabs, fs'.header s = (fs.header s).stored
  header_past : ∀ s, fs.nslabs ≤ s → fs'.header s = ⟨0, 0, 0, 0⟩
  num : fs'.slabs.fslabNum = fs.slabs.fslabNum % 2 ^ 32
  head : fs'.slabs.fslabHead = fs.slabs.fslabHead % 2 ^ 32
  tail : fs'.slabs.fslabTail = fs.slabs.fslabTail % 2 ^ 32
  flist : fs'.pools.freelist = fs.pools.freelist
  hdr : fs'.pools.hdrSize = fs.pools.hdrSize
  tblSize : fs'.pools.htbl.tblSize = fs.pools.htbl.tblSize
  len : fs'.pools.htbl.len = fs.pools.htbl.len % 2 ^ 32
  slot : ∀ i < fs.pools.htbl.tblSize, fs'.pools.htbl.tbl i = (fs.pools.htbl.tbl i).stored
  entry : ∀ i < fs.npools, fs'.pools.entries i = (fs.pools.entries i).stored
  entry_past : ∀ i, fs.npools ≤ i → fs'.pools.entries i = .zero
  funcs : ∀ i, fs'.pools.entrieFuncs i = if i ∈ fs.pools.freelist.visited then some .dflt else none
  cache : ∀ s, fs'.cache s = ⟨.stale, none⟩

section Reopen

variable {dev mdDev : Dev} {hasMd : Bool} {npools slabNlb : ℕ} {geo : Geo}

theorem Laid.bounds (h : Laid dev mdDev hasMd npools slabNlb geo) :
    geo.lbNbytes = dev.lbNbytes ∧ geo.nslabs < 2 ^ 32 ∧ geo.npools < 2 ^ 32 ∧ geo.slabNlb < 2 ^ 32 ∧
      geo.mdNlb < 2 ^ 32 ∧ geo.poolSgmt.htblTblSize < 2 ^ 32 := by
  obtain ⟨-, -, a, p, n, -, -, -, -, -, -, hn, rfl⟩ := mkfsGeoCalc_accepts h.accepted
  have hn32 : n < 2 ^ 32 := by
    rw [hn]
    exact mkfsNslabs_lt _ _ _ _ _
  exact ⟨rfl, hn32, (min_le_right p n).trans_lt hn32, h.slabNlb_lt, u32_lt _, u32_lt _⟩

theorem Laid.arranged (h : Laid dev mdDev hasMd npools slabNlb geo) : Arranged geo :=
  accepted_arranged h.accepted (h.bounds.1 ▸ h.lb) h.nbytes

theorem Laid.nblocks (h : Laid dev mdDev hasMd npools slabNlb geo) :
    0 < flaGeoNblocks geo ∧ flaGeoNblocks geo < 2 ^ 63 ∧ dev.lbNbytes ≤ flaGeoNbytes geo := by
  have hnb := h.nbytes
  have hlb := h.lb
  have hsuper : (0, sizeofFlaSuper) ∈ mdRanges geo := List.mem_cons_self
  have hle := h.arranged.2 _ hsuper
  rw [flaGeoNbytes, h.bounds.1] at hle hnb ⊢
  have hpos : 0 < flaGeoNblocks geo := by
    refine Nat.pos_of_ne_zero fun h0 => ?_
    rw [h0, Nat.zero_mul] at hle
    exact absurd hle (by decide)
  have hge : flaGeoNblocks geo ≤ flaGeoNblocks geo * dev.lbNbytes := Nat.le_mul_of_pos_right _ (by omega)
  exact ⟨hpos, by omega, Nat.le_mul_of_pos_left _ hpos⟩

theorem Laid.home_lb (h : Laid dev mdDev hasMd npools slabNlb geo) :
    (if hasMd then mdDev else dev).lbNbytes = dev.lbNbytes := by
  split_ifs
  · exact h.same_lb
  · rfl

variable {fs fs' : Flexalloc} {b : Bytes}

theorem Laid.held (h : Laid dev mdDev hasMd npools slabNlb geo) (hgeo : fs.geo = geo)
    (hb : ∀ i < flaGeoNbytes geo, b i = mdBuffer fs i) (j : ℕ) {start size : ℕ} {c : Bytes}
    (hplace : (mdRanges geo)[j]? = some (start, size)) (hc : (mdPieces fs)[j]? = some c) : Held b start size c := by
  subst hgeo
  have hend := h.arranged.2 _ (List.mem_iff_getElem?.2 ⟨j, hplace⟩)
  dsimp only at hend
  exact (mdBuffer_held h.arranged j hplace hc).of_eq fun i hi => hb _ (by omega)

theorem Laid.slabs (h : Laid dev mdDev hasMd npools slabNlb geo) (hgeo : fs.geo = geo)
    (hb : ∀ i < flaGeoNbytes geo, b i = mdBuffer fs i) :
    (∀ s < geo.nslabs, (slabsAt geo b).headers s = (fs.header s).stored) ∧
      (slabsAt geo b).fslabNum = fs.slabs.fslabNum % 2 ^ 32 ∧ (slabsAt geo b).fslabHead = fs.slabs.fslabHead % 2 ^ 32 ∧
      (slabsAt geo b).fslabTail = fs.slabs.fslabTail % 2 ^ 32 := by
  have hheaders := h.held hgeo hb 5 rfl rfl
  have hnum := h.held hgeo hb 6 rfl rfl
  have hhead := h.held hgeo hb 7 rfl rfl
  have htail := h.held hgeo hb 8 rfl rfl
  refine ⟨fun s hs => ?_, hnum.field 0 (o := 0) rfl rfl (by decide), hhead.field 0 (o := 0) rfl rfl (by decide),
    htail.field 0 (o := 0) rfl rfl (by decide)⟩
  show (if s < geo.nslabs then _ else _) = _
  rw [if_pos hs]
  exact slabHeaderAt_held (hheaders.elem hs)

theorem Laid.pools (h : Laid dev mdDev hasMd npools slabNlb geo) (hv : OnVol dev mdDev hasMd geo fs)
    (hlen : fs.pools.hdrLen = fs.pools.htbl.len) (hb : ∀ i < flaGeoNbytes geo, b i = mdBuffer fs i) :
    (poolsAt geo b).freelist = fs.pools.freelist ∧ (poolsAt geo b).hdrSize = fs.pools.hdrSize ∧
      (poolsAt geo b).htbl.tblSize = fs.pools.htbl.tblSize ∧ (poolsAt geo b).htbl.len = fs.pools.htbl.len % 2 ^ 32 ∧
      (∀ i < fs.pools.htbl.tblSize, (poolsAt geo b).htbl.tbl i = (fs.pools.htbl.tbl i).stored) ∧
      ∀ i < geo.npools, (poolsAt geo b).entries i = (fs.pools.entries i).stored := by
  have hgeo : fs.geo = geo := by rw [Flexalloc.geo, hv.vol]; rfl
  obtain ⟨-, -, hnp, -, -, htbl32⟩ := h.bounds
  have hflist := h.held hgeo hb 1 rfl rfl
  have hhdr := h.held hgeo hb 2 rfl rfl
  have hslots := h.held hgeo hb 3 rfl rfl
  have hentries := h.held hgeo hb 4 rfl rfl
  have hsize : leNat b (flaGeoPoolSgmtOff geo + u32 (geo.lbNbytes * geo.poolSgmt.freelistNlb)) 4 =
      geo.poolSgmt.htblTblSize := by
    have hfield : leNat b (flaGeoPoolSgmtOff geo + u32 (geo.lbNbytes * geo.poolSgmt.freelistNlb)) 4 =
        fs.pools.hdrSize % 2 ^ 32 := hhdr.field 0 (o := 0) rfl rfl (by decide)
    rw [hfield, hv.hdr, Nat.mod_eq_of_lt htbl32]
  obtain ⟨buf, hbuf⟩ : ∃ buf : FlistBuf, buf = ⟨fs.pools.freelist, 0⟩ := ⟨_, rfl⟩
  have hfl : buf.flist = fs.pools.freelist := by rw [hbuf]
  have hfrom : ∀ i, i < flaFlistSize buf.flist.len → (b.from (flaGeoPoolSgmtOff geo)) i = flistBytes buf i := by
    intro i hi
    rw [hbuf]
    rw [hfl, hv.flist] at hi
    exact hflist i hi
  have hflen : leNat b (flaGeoPoolSgmtOff geo) 4 = buf.flist.len := by
    rw [← flistBytes_len (by rw [hfl, hv.flist]; exact hnp) hfrom]
    exact leNat_congr fun i _ => by rw [Nat.zero_add]; rfl
  refine ⟨?_, hsize.trans hv.hdr.symm, hsize.trans hv.tbl.symm, ?_, fun i hi => ?_, fun i hi => ?_⟩
  · show flistOfBytes (b.from (flaGeoPoolSgmtOff geo)) (leNat b (flaGeoPoolSgmtOff geo) 4) = _
    rw [hflen, ← hfl]
    exact flistOfBytes_flistBytes hfrom
  · rw [← hlen]
    exact hhdr.field 1 (o := 4) rfl rfl (by decide)
  · rw [hv.tbl] at hi
    show (if i < leNat b _ 4 then _ else _) = _
    rw [hsize, if_pos hi]
    exact htblEntryAt_held (hslots.elem hi)
  · show (if i < geo.npools then _ else _) = _
    rw [if_pos hi]
    exact poolEntryAt_held (hentries.elem hi)

theorem Laid.superAt (h : Laid dev mdDev hasMd npools slabNlb geo) (hvol : fs.vol = .formatted dev hasMd geo)
    (hb : ∀ i < dev.lbNbytes, b i = mdBuffer fs i) : superAt b = flaMkfsSuperInit geo := by
  obtain ⟨-, hn, hp, hslab, hmd, -⟩ := h.bounds
  have hlb := h.lb
  have hsize : sizeofFlaSuper = 32 := rfl
  have hgeo : fs.geo = geo := by rw [Flexalloc.geo, hvol]; rfl
  have hheld : Held (mdBuffer fs) 0 sizeofFlaSuper (superBytes fs.vol.super) :=
    mdBuffer_held (hgeo ▸ h.arranged) 0 rfl rfl
  have hsuper := superAt_held (hheld.of_eq fun i hi => hb _ (by omega))
  rw [hvol] at hsuper
  exact hsuper (show flaMagic < 2 ^ 64 by decide) hn hslab hp hmd (show flaFmtVer < 2 ^ 8 by decide)

theorem Laid.superRead (h : Laid dev mdDev hasMd npools slabNlb geo) (hvol : fs.vol = .formatted dev hasMd geo)
    {env : Env} {home : Dev} (hr : env.OffsetsExact home) (hhome : home.lbNbytes = dev.lbNbytes) {bytes : Bytes}
    (hb : ∀ i < flaGeoNbytes geo, bytes i = mdBuffer fs i) {super : Super}
    (hread : flaSuperRead env home bytes dev.lbNbytes = .ok (0, super)) : super = flaMkfsSuperInit geo := by
  obtain ⟨-, -, hone⟩ := h.nblocks
  have hlb := h.lb
  obtain ⟨⟨err, b⟩, hread, hs⟩ := bind_eq_ok hread
  dsimp only at hs
  obtain ⟨herr, rfl⟩ := Prod.mk.inj (Except.ok.inj hs)
  obtain rfl : err = 0 := by
    by_contra hne
    rw [if_pos hne] at herr
    exact hne herr
  rw [← Nat.one_mul dev.lbNbytes, ← hhome] at hread
  have hcopy := readHead_spec hr (by omega) Nat.one_pos (by norm_num) hread
  exact h.superAt hvol fun i hi => (hcopy i (by omega)).trans (hb i (by omega))

theorem OnVol.geo_eq (hv : OnVol dev mdDev hasMd geo fs) : fs.geo = geo := by
  rw [Flexalloc.geo, hv.vol]
  rfl

theorem OnVol.mdHome (hv : OnVol dev mdDev hasMd geo fs) : fs.mdHome = if hasMd then mdDev else dev := by
  rw [Flexalloc.mdHome, hv.vol, hv.devs.1, hv.devs.2]
  rfl

/-- **Opening.** A system that opens from bytes that start with the metadata of `fs` has what `fs` has. -/
theorem open_reopened (h : Laid dev mdDev hasMd npools slabNlb geo) (hv : OnVol dev mdDev hasMd geo fs)
    (hlen : fs.pools.hdrLen = fs.pools.htbl.len) {env : Env} (hr : env.OffsetsExact (if hasMd then mdDev else dev))
    {disk mdDisk : Bytes} (hheld : ∀ i < flaGeoNbytes geo, (if hasMd then mdDisk else disk) i = mdBuffer fs i) {err : ℤ}
    (hopen : flaOpen env dev mdDev hasMd disk mdDisk = .ok (err, some fs')) :
    Reopened fs fs' ∧ fs'.disk = disk ∧ fs'.mdDisk = mdDisk := by
  obtain ⟨hlbeq, -⟩ := h.bounds
  obtain ⟨hpos, hlt, hone⟩ := h.nblocks
  have hlb := h.lb
  have hgeo := hv.geo_eq
  have hhomelb := h.home_lb
  -- the super block is read from the first block
  obtain ⟨super, b, hsuper, hread, hinit⟩ := open_inv hopen
  obtain rfl := h.superRead hv.vol hr hhomelb hheld hsuper
  rw [accepted_fromSuper h.accepted] at hread hinit
  rw [flaGeoNbytes, hlbeq, ← hhomelb] at hread
  have hcopy := readHead_spec hr (by omega) hpos hlt hread
  have hb : ∀ i < flaGeoNbytes geo, b i = mdBuffer fs i := fun i hi => by
    rw [hcopy i (by rw [hhomelb, ← hlbeq]; exact hi), hheld i hi]
  -- then all of the metadata
  obtain ⟨-, hpools, hslabs, hvol, hdevs, hdisks, hcache⟩ := init_inv hinit
  obtain ⟨hheaders, hnum, hhead, htail⟩ := h.slabs hgeo hb
  obtain ⟨hflist, hhdr, htbl, hcount, hslot, hentry⟩ := h.pools hv hlen hb
  have hp' := poolInit_eq hpools
  have hnpeq : fs.npools = geo.npools := by rw [Flexalloc.npools, hv.vol]; rfl
  have hnseq : fs.nslabs = geo.nslabs := by rw [Flexalloc.nslabs, hv.vol]; rfl
  refine ⟨⟨?_, ⟨hdevs.1.trans hv.devs.1.symm, hdevs.2.trans hv.devs.2.symm⟩, fun s hs => ?_, fun s hs => ?_, ?_, ?_, ?_, ?_,
    ?_, ?_, ?_, fun i hi => ?_, fun i hi => ?_, fun i hi => ?_, fun i => ?_, hcache⟩, hdisks⟩
  · rw [hvol, h.superAt hv.vol fun i hi => hb i (by omega), hv.vol]
    rfl
  · rw [Flexalloc.header, hslabs]
    exact hheaders s (hnseq ▸ hs)
  · rw [Flexalloc.header, hslabs]
    exact if_neg (by omega)
  · rw [hslabs, hnum]
  · rw [hslabs, hhead]
  · rw [hslabs, htail]
  · rw [hp', hflist]
  · rw [hp', hhdr]
  · rw [hp', htbl]
  · rw [hp', hcount]
  · rw [hp', hslot i hi]
  · rw [hp', hentry i (hnpeq ▸ hi)]
  · rw [hp']
    exact if_neg (by omega)
  · rw [hp', hflist]

theorem readHead_ok {home : Dev} (hlb : 0 < home.lbNbytes) (hm : 0 < flaXneCalcMdtsNaddrs home) {n : ℕ} (hn : 0 < n)
    (hlt : n < 2 ^ 63) (bytes : Bytes) : ∃ b, readHead .reliable home bytes (n * home.lbNbytes) = .ok (0, b) := by
  have hlast : (⟨0, n - 1, true⟩ : LbaRange).elba < 2 ^ 63 := by
    dsimp only
    omega
  obtain ⟨b, hb⟩ : ∃ b, flaXneSyncSeqRXneio .reliable home ⟨0, n - 1, true⟩ bytes 0 = .ok (0, b) :=
    seqR_ok hm hlast (Nat.zero_le _) (fun _ => rfl) _ _
  refine ⟨b, ?_⟩
  rw [readHead, if_neg (by simp [Env.reliable])]
  have hrange : Env.reliable.rangeFromOffsetNbytes home 0 (n * home.lbNbytes) = ⟨0, n - 1, true⟩ := by
    rw [reliable_offsetsExact home 0 _ (dvd_zero _) (Dvd.intro_left n rfl) (Nat.mul_pos hn hlb) rfl, Nat.zero_div,
      Nat.zero_add, Nat.mul_div_cancel _ hlb]
  rw [hrange]
  exact (if_neg (by simp)).trans hb

/-- **Opening succeeds**, on devices that pass the checks and do all they are asked. -/
theorem open_ok (h : Laid dev mdDev hasMd npools slabNlb geo) (hv : OnVol dev mdDev hasMd geo fs)
    (hsane : flaDevSanityCheck dev (if hasMd then mdDev else dev) = 0)
    (hm : 0 < flaXneCalcMdtsNaddrs (if hasMd then mdDev else dev)) {disk mdDisk : Bytes}
    (hheld : ∀ i < flaGeoNbytes geo, (if hasMd then mdDisk else disk) i = mdBuffer fs i) :
    ∃ fs', flaOpen .reliable dev mdDev hasMd disk mdDisk = .ok (0, some fs') := by
  obtain ⟨hpos, hlt, -⟩ := h.nblocks
  have hlb := h.lb
  have hhomelb := h.home_lb
  have hlbpos : 0 < (if hasMd then mdDev else dev).lbNbytes := by omega
  obtain ⟨b, hfirst⟩ := readHead_ok hlbpos hm Nat.one_pos (by norm_num) (if hasMd then mdDisk else disk)
  obtain ⟨b', hall⟩ := readHead_ok hlbpos hm hpos hlt (if hasMd then mdDisk else disk)
  rw [Nat.one_mul, hhomelb] at hfirst
  rw [hhomelb, ← h.bounds.1, ← flaGeoNbytes] at hall
  -- the super block has the magic number
  have hsuper : flaSuperRead .reliable (if hasMd then mdDev else dev) (if hasMd then mdDisk else disk) dev.lbNbytes =
      .ok (0, superAt b) := by
    have hcopy := readHead_spec (reliable_offsetsExact _) hlbpos Nat.one_pos (by norm_num)
      (by rw [Nat.one_mul, hhomelb]; exact hfirst)
    rw [Nat.one_mul, hhomelb] at hcopy
    have hmagic : superAt b = flaMkfsSuperInit geo :=
      h.superAt hv.vol fun i hi => (hcopy i hi).trans (hheld i (hi.trans_le h.nblocks.2.2))
    rw [flaSuperRead, hfirst, ok_bind]
    dsimp only
    rw [hmagic, if_neg (by simp), if_neg (by simp [flaMkfsSuperInit])]
  have hread := h.superRead hv.vol (reliable_offsetsExact _) hhomelb hheld hsuper
  obtain ⟨pools, hpools⟩ : ∃ pools, flaPoolInit .reliable geo b' = (0, pools) := by
    unfold flaPoolInit
    dsimp only
    rw [if_neg (by simp [Env.reliable]), search_visits fun _ _ => Or.inl rfl]
    exact ⟨_, rfl⟩
  obtain ⟨fs', hinit⟩ : ∃ fs', flaInit .reliable dev mdDev hasMd geo b' disk mdDisk = (0, some fs') := by
    rw [flaInit, hpools]
    exact ⟨_, if_neg (by simp)⟩
  refine ⟨fs', ?_⟩
  rw [flaOpen, if_neg (by simp [Env.reliable]), if_neg (by rw [hsane]; simp), hsuper, ok_bind]
  dsimp only
  rw [if_neg (by simp), hread, accepted_fromSuper h.accepted, hall, ok_bind]
  dsimp only
  rw [if_neg (by simp), hinit]

theorem Flushed.onVol {fs₁ : Flexalloc} (hfl : Flushed fs fs₁) (hv : OnVol dev mdDev hasMd geo fs) :
    OnVol dev mdDev hasMd geo fs₁ := by
  obtain ⟨m, hpools⟩ := hfl.pools
  refine ⟨hfl.vol.trans hv.vol, ⟨hfl.devs.1.trans hv.devs.1, hfl.devs.2.trans hv.devs.2⟩, ?_, ?_, ?_⟩
  · rw [hpools]
    exact hv.flist
  · rw [hpools]
    exact hv.hdr
  · rw [hpools]
    exact hv.tbl

/-- a flush leaves alone what an open finds again -/
theorem Flushed.reopened {fs₁ : Flexalloc} (hfl : Flushed fs fs₁) (hr : Reopened fs₁ fs') : Reopened fs fs' := by
  obtain ⟨m, hpools⟩ := hfl.pools
  obtain ⟨hvol, hdevs, hheader, hpast, hnum, hhead, htail, hflist, hhdr, htbl, hlen, hslot, hentry, hepast, hfuncs, hcache⟩ :=
    hr
  have hslabs : fs₁.header = fs.header := by
    funext s
    rw [Flexalloc.header, Flexalloc.header, hfl.slabs]
  have hnslabs : fs₁.nslabs = fs.nslabs := by rw [Flexalloc.nslabs, Flexalloc.nslabs, hfl.vol]
  have hnpools : fs₁.npools = fs.npools := by rw [Flexalloc.npools, Flexalloc.npools, hfl.vol]
  rw [hpools] at hflist hhdr htbl hlen hslot hentry hfuncs
  rw [hfl.slabs] at hnum hhead htail
  rw [hslabs, hnslabs] at hheader
  rw [hnslabs] at hpast
  rw [hnpools] at hentry hepast
  exact ⟨hvol.trans hfl.vol, ⟨hdevs.1.trans hfl.devs.1, hdevs.2.trans hfl.devs.2⟩, hheader, hpast, hnum, hhead, htail, hflist,
    hhdr, htbl, hlen, hslot, hentry, hepast, hfuncs, hcache⟩

/-- **What a flush that returns 0 leaves on the device.** -/
theorem Laid.flushed (h : Laid dev mdDev hasMd npools slabNlb geo) (hv : OnVol dev mdDev hasMd geo fs) {env : Env}
    (hr : env.RangesExact fs.mdHome) {fs₁ : Flexalloc} (hflush : flaFlush env fs = .ok (0, fs₁)) :
    (∀ i < flaGeoNbytes geo, (if hasMd then fs₁.mdDisk else fs₁.disk) i = mdBuffer fs₁ i) ∧
      fs₁.pools.hdrLen = fs₁.pools.htbl.len := by
  obtain ⟨hpos, hlt, -⟩ := h.nblocks
  have hgeo := hv.geo_eq
  have hhomelb : fs.mdHome.lbNbytes = fs.geo.lbNbytes := by rw [hv.mdHome, hgeo, h.bounds.1, h.home_lb]
  have hbytes : (if hasMd then fs₁.mdDisk else fs₁.disk) = fs₁.mdBytes := by
    rw [Flexalloc.mdBytes, (flush_flushed hflush).vol, hv.vol]
    rfl
  obtain ⟨hwritten, hlen⟩ := flush_written hr (hgeo ▸ hpos) (hgeo ▸ hlt) hhomelb hflush
  rw [hbytes, ← hgeo]
  exact ⟨hwritten, hlen⟩

/-- **Opening again.** A system that opens after a flush that returned 0 has what was flushed. -/
theorem reopen_inv (h : Laid dev mdDev hasMd npools slabNlb geo) (hv : OnVol dev mdDev hasMd geo fs)
    {env₁ env₂ : Env} (hr₁ : env₁.RangesExact fs.mdHome) (hr₂ : env₂.OffsetsExact fs.mdHome) {fs₁ : Flexalloc} {err : ℤ}
    (hflush : flaFlush env₁ fs = .ok (0, fs₁))
    (hopen : flaOpen env₂ fs.dev fs.mdDev fs.vol.hasMd fs₁.disk fs₁.mdDisk = .ok (err, some fs')) :
    Reopened fs fs' ∧ fs'.disk = fs₁.disk ∧ fs'.mdDisk = fs₁.mdDisk := by
  have hfl := flush_flushed hflush
  obtain ⟨hheld, hlen⟩ := h.flushed hv hr₁ hflush
  have hmd : fs.vol.hasMd = hasMd := by rw [hv.vol]; rfl
  rw [hv.devs.1, hv.devs.2, hmd] at hopen
  rw [hv.mdHome] at hr₂
  obtain ⟨hr, hdisks⟩ := open_reopened h (hfl.onVol hv) hlen hr₂ hheld hopen
  exact ⟨hfl.reopened hr, hdisks⟩

end Reopen

end FlexAlloc
