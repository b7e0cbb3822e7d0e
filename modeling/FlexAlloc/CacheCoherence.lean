/-
The cache of slab freelists and the device.

Clients of the cache initialise, load, change, flush and drop its elements in any order, for any slabs, and every device
command may fail. `Coherent` is what holds in every state: an element is stale exactly when it has no buffer, and the
buffer of a clean element is what the device holds at the end of the slab. It rests on the freelists of different slabs
lying apart (`SlabByte.unique`), whatever their lengths, so that flushing one never touches another.

- `cacheStep_coherent`: each call keeps it.
- `cache_coherent`: in every run whose freelists have at most 2^31 entries the cache is coherent, a flush that returns 0
  leaves no dirty element, what is then dropped and loaded again is what it was, and a flush that fails changes no
  element.
- `wide_entry_loses_write`: in a longer freelist entry 2^31 is taken, its index is negative as an `int`, and the element
  stays clean with a buffer the device does not hold.
-/
import FlexAlloc.System

namespace FlexAlloc

open FlexAlloc.Core Function

/-- a call on the cache; freelists are sized for objects of `objNlb` blocks -/
inductive CacheOp where
  | elemInit (slabId objNlb : ℕ)
  | elemLoad (slabId objNlb : ℕ)
  | objAlloc (slabId : ℕ)
  | objFree (obj : Obj)
  | elemFlush (slabId : ℕ)
  | elemDrop (slabId : ℕ)
  | flush
deriving DecidableEq, Repr

/-- an index below the length of the freelist in the cache, if there is one -/
def EntryIn (fs : Flexalloc) (obj : Obj) : Prop :=
  match (fs.cache obj.slabId).freelist with
  | some buf => obj.entryNdx < buf.flist.len
  | none => True

instance (fs : Flexalloc) (obj : Obj) : Decidable (EntryIn fs obj) := by
  unfold EntryIn
  exact match (fs.cache obj.slabId).freelist with
    | some buf => inferInstanceAs (Decidable (obj.entryNdx < buf.flist.len))
    | none => inferInstanceAs (Decidable True)

/-- slabs exist, objects of the given size fit them, and what is freed is an entry of the freelist -/
def CacheLegal (fs : Flexalloc) : CacheOp → Prop
  | .elemInit s objNlb => s < fs.nslabs ∧ FitsSlab fs.vol objNlb
  | .elemLoad s objNlb => s < fs.nslabs ∧ FitsSlab fs.vol objNlb
  | .objAlloc s => s < fs.nslabs
  | .objFree obj => obj.slabId < fs.nslabs ∧ EntryIn fs obj
  | .elemFlush s => s < fs.nslabs
  | .elemDrop s => s < fs.nslabs
  | .flush => True

instance (fs : Flexalloc) : (op : CacheOp) → Decidable (CacheLegal fs op)
  | .elemInit s objNlb => inferInstanceAs (Decidable (s < fs.nslabs ∧ FitsSlab fs.vol objNlb))
  | .elemLoad s objNlb => inferInstanceAs (Decidable (s < fs.nslabs ∧ FitsSlab fs.vol objNlb))
  | .objAlloc s => inferInstanceAs (Decidable (s < fs.nslabs))
  | .objFree obj => inferInstanceAs (Decidable (obj.slabId < fs.nslabs ∧ EntryIn fs obj))
  | .elemFlush s => inferInstanceAs (Decidable (s < fs.nslabs))
  | .elemDrop s => inferInstanceAs (Decidable (s < fs.nslabs))
  | .flush => inferInstanceAs (Decidable True)

/-- a call: its return value and the system after it -/
def cachePerform (env : Env) (fs : Flexalloc) : CacheOp → Ret (ℤ × Flexalloc)
  | .elemInit s objNlb => do
    let n ← flaCalcObjsInSlab fs.vol objNlb
    .ok (flaSlabCacheElemInit env fs s n)
  | .elemLoad s objNlb => do
    let n ← flaCalcObjsInSlab fs.vol objNlb
    flaSlabCacheElemLoad env fs s n
  | .objAlloc s => do
    let r ← flaSlabCacheObjAlloc fs s 1
    .ok (r.1, r.2.2)
  | .objFree obj => flaSlabCacheObjFree fs obj 1
  | .elemFlush s => flaSlabCacheElemFlush env fs s
  | .elemDrop s => .ok (0, flaSlabCacheElemDrop fs s)
  | .flush => flaSlabCacheFlush env fs

/-- a legal call that returns -/
def cacheStep (fs : Flexalloc) (x : Env × CacheOp) : Option Flexalloc :=
  if CacheLegal fs x.2 then
    match cachePerform x.1 fs x.2 with
    | .ok (_, fs') => some fs'
    | .error _ => none
  else none

theorem cacheStep_eq_some {fs fs' : Flexalloc} {x : Env × CacheOp} (h : cacheStep fs x = some fs') :
    CacheLegal fs x.2 ∧ ∃ err, cachePerform x.1 fs x.2 = .ok (err, fs') := by
  unfold cacheStep at h
  split_ifs at h with hl
  refine ⟨hl, ?_⟩
  split at h
  · rename_i err t hp
    exact ⟨err, by rw [hp, Option.some.inj h]⟩
  · cases h

theorem cacheStep_ok {fs fs' : Flexalloc} {x : Env × CacheOp} {err : ℤ} (hl : CacheLegal fs x.2)
    (h : cachePerform x.1 fs x.2 = .ok (err, fs')) : cacheStep fs x = some fs' := by
  rw [cacheStep, if_pos hl, h]

/-! ## The invariant -/

/-- the device holds the buffer, in the blocks for the freelist of slab `s` -/
def OnDisk (fs : Flexalloc) (s : ℕ) (buf : FlistBuf) : Prop :=
  let flistNlb := flaSlabCacheFlistNlb fs.vol buf.flist.len
  ∀ i < flistNlb * fs.geo.lbNbytes, fs.disk (cacheEntryLbSlba fs.vol s flistNlb * fs.geo.lbNbytes + i) = flistBytes buf i

/-- a freelist sized for a slab, with indices that fit an `int` -/
def Sized (v : Volume) (fl : Freelist) : Prop :=
  (∃ objNlb, flaCalcObjsInSlab v objNlb = .ok fl.len) ∧ 0 < fl.len ∧ fl.len ≤ 2 ^ 31

structure Coherent (dev : Dev) (v : Volume) (fs : Flexalloc) : Prop where
  vol : fs.vol = v
  home : fs.dev = dev
  stale : ∀ s < v.geo.nslabs, (fs.cache s).state = .stale ↔ (fs.cache s).freelist = none
  sized : ∀ s < v.geo.nslabs, ∀ buf, (fs.cache s).freelist = some buf → Sized v buf.flist
  clean : ∀ s < v.geo.nslabs, ∀ buf, (fs.cache s).state = .clean → (fs.cache s).freelist = some buf → OnDisk fs s buf

/-- slabs lie one after the other from block `base` on, with no block number that wraps -/
structure Unwrapped (dev : Dev) (v : Volume) (base : ℕ) : Prop where
  noMd : v.hasMd = false
  super : v.super.slabNlb = v.geo.slabNlb
  lb : 0 < v.geo.lbNbytes
  same_lb : dev.lbNbytes = v.geo.lbNbytes
  slabs : v.geo.nslabs * v.geo.slabNlb < 2 ^ 32
  start : base < 2 ^ 62
  off : ∀ s < v.geo.nslabs, flaGeoSlabLbOff v s = base + s * v.geo.slabNlb

theorem slabsLbOff_lt (dev : Dev) (slabNlb p n : ℕ) : flaGeoSlabsLbOff (mkfsGeo dev slabNlb p n) < 2 ^ 34 := by
  have h1 := u32_lt (flaCeilDiv sizeofFlaSuper dev.lbNbytes)
  have h2 := u32_lt (flaCeilDiv (n * sizeofFlaSlabHeader + 12) dev.lbNbytes)
  have h3 : flaGeoPoolSgmtNblocks (flaGeoPoolSgmtCalc (min p n) dev.lbNbytes) < 2 ^ 32 := u32_lt _
  show u32 (flaCeilDiv sizeofFlaSuper dev.lbNbytes) + flaGeoPoolSgmtNblocks (flaGeoPoolSgmtCalc (min p n) dev.lbNbytes) +
    u32 (flaCeilDiv (n * sizeofFlaSlabHeader + 12) dev.lbNbytes) < 2 ^ 34
  omega

/-- the volume of a single device, conventional or zoned -/
def Volume.onDev (dev : Dev) (geo : Geo) : Volume := ⟨geo, flaMkfsSuperInit geo, false, dev.cs⟩

/-- the slabs of an accepted geometry. On a zoned device the first one is moved past the zone the metadata ends in, and
the others with it. -/
theorem unwrapped_of_accepted {dev : Dev} {npools slabNlb : ℕ} {geo : Geo}
    (h : flaMkfsGeoCalc dev false npools slabNlb = .ok (0, geo)) (hwrap : geo.nslabs * geo.slabNlb < 2 ^ 32) :
    ∃ base, Unwrapped dev (.onDev dev geo) base := by
  have hzones : ∀ nzsect, dev.cs = .zns nzsect → slabNlb % nzsect = 0 := fun _ hcs => mkfsGeoCalc_zones hcs h
  obtain ⟨hlb, -, a, p, n, -, -, -, -, -, -, -, rfl⟩ := mkfsGeoCalc_ok h
  have hbase := slabsLbOff_lt dev slabNlb p n
  set geo := mkfsGeo dev slabNlb p n with hgeo
  have hcns : ∀ s < geo.nslabs, flaCsCnsSlabOffset (.onDev dev geo) s (flaGeoSlabsLbOff geo) =
      flaGeoSlabsLbOff geo + s * slabNlb := fun s hs => by
    have hmul := mul_add_le_mul (k := geo.slabNlb) hs
    show flaGeoSlabsLbOff geo + u32 (s * geo.slabNlb) = flaGeoSlabsLbOff geo + s * geo.slabNlb
    rw [u32_of_lt (by omega)]
  cases hcs : dev.cs with
  | cns =>
    refine ⟨flaGeoSlabsLbOff geo, rfl, rfl, hlb, rfl, hwrap, by omega, fun s hs => ?_⟩
    rw [flaGeoSlabLbOff, show (Volume.onDev dev geo).cs = .cns from hcs]
    exact hcns s hs
  | zns nzsect =>
    have hle : flaGeoSlabsLbOff geo % nzsect ≤ flaGeoSlabsLbOff geo := Nat.mod_le _ _
    refine ⟨flaGeoSlabsLbOff geo + flaGeoSlabsLbOff geo % nzsect, rfl, rfl, hlb, rfl, hwrap, by omega, fun s hs => ?_⟩
    have hmod : (flaGeoSlabsLbOff geo + s * slabNlb) % nzsect = flaGeoSlabsLbOff geo % nzsect := by
      obtain ⟨k, hk⟩ := Nat.dvd_of_mod_eq_zero (hzones nzsect hcs)
      rw [hk, show s * (nzsect * k) = nzsect * (s * k) by ring, Nat.add_mul_mod_self_left]
    rw [flaGeoSlabLbOff, show (Volume.onDev dev geo).cs = .zns nzsect from hcs]
    show flaCsZnsSlabOffset (.onDev dev geo) nzsect s (flaGeoSlabsLbOff geo) = _ + s * slabNlb
    rw [flaCsZnsSlabOffset, hcns s hs, hmod]
    split_ifs <;> omega

section Calls

variable {dev : Dev} {v : Volume} {base : ℕ} {fs fs' : Flexalloc} {env : Env} {s : ℕ} {err : ℤ}

theorem flistNlb_pos (hlb : 0 < v.geo.lbNbytes) (n : ℕ) : 0 < flaSlabCacheFlistNlb v n := by
  show 0 < flaCeilDiv (flaFlistSize n) v.geo.lbNbytes
  unfold flaCeilDiv flaFlistSize
  exact Nat.div_pos (by omega) hlb

theorem Unwrapped.place (hg : Unwrapped dev v base) (hs : s < v.geo.nslabs) {nlb : ℕ} (hle : nlb ≤ v.geo.slabNlb) :
    cacheEntryLbSlba v s nlb + nlb = base + s * v.geo.slabNlb + v.geo.slabNlb := by
  have hmul := mul_add_le_mul (k := v.geo.slabNlb) hs
  have hslabs := hg.slabs
  have hstart := hg.start
  have hoff := hg.off s hs
  unfold cacheEntryLbSlba
  rw [if_neg (by rw [hg.noMd]; exact Bool.false_ne_true), hg.super, hoff, sub64_of_le (by omega) (by omega)]
  omega

theorem calcObjs_room (hg : Unwrapped dev v base) (hs : s < v.geo.nslabs) {objNlb n : ℕ}
    (hcalc : flaCalcObjsInSlab v objNlb = .ok n) (hn : 0 < n) : flaSlabCacheFlistNlb v n ≤ v.geo.slabNlb := by
  have hmul := mul_add_le_mul (k := v.geo.slabNlb) hs
  have hslabs := hg.slabs
  have hroom := (calcObjs_spec hg.noMd (by omega) hcalc).2 hn
  omega

theorem Sized.room (hg : Unwrapped dev v base) (hs : s < v.geo.nslabs) {fl : Freelist} (hfl : Sized v fl) :
    flaSlabCacheFlistNlb v fl.len ≤ v.geo.slabNlb := by
  obtain ⟨⟨objNlb, hcalc⟩, hpos, -⟩ := hfl
  exact calcObjs_room hg hs hcalc hpos

theorem flistNlb_room (hlb : 0 < v.geo.lbNbytes) (n : ℕ) :
    flaFlistSize n ≤ flaSlabCacheFlistNlb v n * v.geo.lbNbytes := by
  rw [mul_comm]
  exact le_ceilDiv_mul hlb _

/-- byte `i` lies in the blocks of slab `s` -/
def SlabByte (v : Volume) (base s i : ℕ) : Prop :=
  (base + s * v.geo.slabNlb) * v.geo.lbNbytes ≤ i ∧ i < (base + s * v.geo.slabNlb + v.geo.slabNlb) * v.geo.lbNbytes

theorem SlabByte.unique {s t i : ℕ} (hs : SlabByte v base s i) (ht : SlabByte v base t i) : s = t := by
  have hle : ∀ {a b : ℕ}, a < b → (base + a * v.geo.slabNlb + v.geo.slabNlb) * v.geo.lbNbytes ≤
      (base + b * v.geo.slabNlb) * v.geo.lbNbytes := fun hab => by
    have hmul := mul_add_le_mul (k := v.geo.slabNlb) hab
    exact Nat.mul_le_mul_right _ (by omega)
  obtain ⟨hlo, hhi⟩ := hs
  obtain ⟨hlo', hhi'⟩ := ht
  rcases Nat.lt_trichotomy s t with hlt | heq | hgt
  · have h := hle hlt
    omega
  · exact heq
  · have h := hle hgt
    omega

theorem Unwrapped.slabByte (hg : Unwrapped dev v base) (hs : s < v.geo.nslabs) {nlb : ℕ} (hle : nlb ≤ v.geo.slabNlb)
    {i : ℕ} (hi : i < nlb * v.geo.lbNbytes) : SlabByte v base s (cacheEntryLbSlba v s nlb * v.geo.lbNbytes + i) := by
  have hend := hg.place hs hle
  generalize cacheEntryLbSlba v s nlb = slba at *
  have hbytes : (slba + nlb) * v.geo.lbNbytes = slba * v.geo.lbNbytes + nlb * v.geo.lbNbytes := Nat.add_mul _ _ _
  have hstart := Nat.mul_le_mul_right v.geo.lbNbytes (show base + s * v.geo.slabNlb ≤ slba by omega)
  rw [hend] at hbytes
  exact ⟨by omega, by omega⟩

theorem OnDisk.congr (hg : Unwrapped dev v base) (hvol : fs.vol = v) (hvol' : fs'.vol = v) (hs : s < v.geo.nslabs)
    {buf : FlistBuf} (hle : flaSlabCacheFlistNlb v buf.flist.len ≤ v.geo.slabNlb) (h : OnDisk fs s buf)
    (hsame : ∀ i, SlabByte v base s i → fs'.disk i = fs.disk i) : OnDisk fs' s buf := by
  unfold OnDisk at h ⊢
  simp only [Flexalloc.geo, hvol, hvol'] at h ⊢
  intro i hi
  rw [← h i hi]
  exact hsame _ (hg.slabByte hs hle hi)

theorem OnDisk.of_copy (hvol : fs.vol = v) {buf : FlistBuf} :
    let nlb := flaSlabCacheFlistNlb v buf.flist.len
    let off := cacheEntryLbSlba v s nlb * v.geo.lbNbytes
    OnDisk { fs with disk := copyBytes fs.disk off (flistBytes buf) 0 (nlb * v.geo.lbNbytes) } s buf := by
  intro nlb off
  unfold OnDisk
  simp only [Flexalloc.geo, hvol]
  intro i hi
  have hi' : i < nlb * v.geo.lbNbytes := hi
  show copyBytes _ off _ _ _ (off + i) = _
  rw [copyBytes_of_mem (Nat.le_add_right _ _) (Nat.add_lt_add_left hi' _), Nat.zero_add, Nat.add_sub_cancel_left]

theorem Coherent.setElem (hc : Coherent dev v fs) {e : CacheElem} (hstale : e.state = .stale ↔ e.freelist = none)
    (hsized : ∀ buf, e.freelist = some buf → Sized v buf.flist)
    (hclean : ∀ buf, e.state = .clean → e.freelist = some buf → OnDisk fs s buf) : Coherent dev v (fs.setElem s e) := by
  have hcache : ∀ t, (fs.setElem s e).cache t = if t = s then e else fs.cache t := fun t => by
    by_cases h : t = s
    · rw [if_pos h, h]; exact update_self ..
    · rw [if_neg h]; exact update_of_ne h ..
  refine ⟨hc.vol, hc.home, fun t ht => ?_, fun t ht buf hb => ?_, fun t ht buf hst hb => ?_⟩
  · rw [hcache]
    split_ifs
    · exact hstale
    · exact hc.stale t ht
  · rw [hcache] at hb
    split_ifs at hb
    · exact hsized buf hb
    · exact hc.sized t ht buf hb
  · rw [hcache] at hst hb
    split_ifs at hst hb with h
    · rw [h]; exact hclean buf hst hb
    · exact hc.clean t ht buf hst hb

theorem Coherent.buffer (hc : Coherent dev v fs) (hs : s < v.geo.nslabs) (hst : (fs.cache s).state ≠ .stale) :
    ∃ buf, (fs.cache s).freelist = some buf ∧ Sized v buf.flist := by
  obtain ⟨buf, hbuf⟩ := Option.ne_none_iff_exists'.1 fun hnone => hst ((hc.stale s hs).2 hnone)
  exact ⟨buf, hbuf, hc.sized s hs buf hbuf⟩

/-- the blocks of each freelist in the cache fit the slab -/
structure FlistsFit (dev : Dev) (v : Volume) (fs : Flexalloc) : Prop where
  vol : fs.vol = v
  home : fs.dev = dev
  room : ∀ s < v.geo.nslabs, ∀ buf, (fs.cache s).freelist = some buf →
    flaSlabCacheFlistNlb v buf.flist.len ≤ v.geo.slabNlb

theorem Coherent.flistsFit (hg : Unwrapped dev v base) (hc : Coherent dev v fs) : FlistsFit dev v fs :=
  ⟨hc.vol, hc.home, fun s hs buf hbuf => (hc.sized s hs buf hbuf).room hg hs⟩

theorem FlistsFit.mdHome (hg : Unwrapped dev v base) (hc : FlistsFit dev v fs) : fs.mdHome = dev := by
  rw [Flexalloc.mdHome, hc.vol, hg.noMd, hc.home]
  exact if_neg Bool.false_ne_true

theorem FlistsFit.mdBytes (hg : Unwrapped dev v base) (hc : FlistsFit dev v fs) : fs.mdBytes = fs.disk := by
  rw [Flexalloc.mdBytes, hc.vol, hg.noMd]
  exact if_neg Bool.false_ne_true

theorem FlistsFit.setMdBytes (hg : Unwrapped dev v base) (hc : FlistsFit dev v fs) (disk : Bytes) :
    fs.setMdBytes disk = { fs with disk := disk } := by
  rw [Flexalloc.setMdBytes, if_neg (by rw [hc.vol, hg.noMd]; exact Bool.false_ne_true)]

/-- a dirty element is written to the blocks of its freelist, or not at all -/
theorem elemFlush_dirty (hg : Unwrapped dev v base) (hc : FlistsFit dev v fs) (hst : (fs.cache s).state = .dirty)
    {buf : FlistBuf} (hbuf : (fs.cache s).freelist = some buf) {range : LbaRange}
    (hrange : env.rangeFromSlbaNaddrs dev (cacheEntryLbSlba v s
      (flaSlabCacheFlistNlb v buf.flist.len)) (flaSlabCacheFlistNlb v buf.flist.len) = range) :
    flaSlabCacheElemFlush env fs s = if ¬ range.isValid then .ok (1, fs)
      else (flaXneSyncSeqWXneio env dev false range (flistBytes buf) fs.disk) >>= fun r =>
        if r.1 ≠ 0 then .ok (r.1, { fs with disk := r.2 })
        else .ok (0, ({ fs with disk := r.2 } : Flexalloc).setElem s ⟨.clean, some buf⟩) := by
  have hrange' : env.rangeFromSlbaNaddrs fs.mdHome (cacheEntryLbSlba fs.vol s
      (flaSlabCacheFlistNlb fs.vol (flaFlistLen buf.flist))) (flaSlabCacheFlistNlb fs.vol (flaFlistLen buf.flist)) =
        range := by
    rw [hc.mdHome hg, hc.vol]
    exact hrange
  rw [flaSlabCacheElemFlush, if_neg (by rw [hst]; simp), hbuf]
  dsimp only
  rw [hrange', hc.mdHome hg, hc.mdBytes hg]
  cases flaXneSyncSeqWXneio env dev false range (flistBytes buf) fs.disk with
  | error f => rfl
  | ok r =>
    obtain ⟨err, disk⟩ := r
    dsimp only
    rw [hc.setMdBytes hg, ok_bind]

/-- the blocks of a freelist of `n` entries at the end of slab `s` -/
def flistBlocks (v : Volume) (s n : ℕ) : LbaRange :=
  let nlb := flaSlabCacheFlistNlb v n
  ⟨cacheEntryLbSlba v s nlb, cacheEntryLbSlba v s nlb + nlb - 1, true⟩

theorem Unwrapped.blocks (hg : Unwrapped dev v base) (hs : s < v.geo.nslabs) {n : ℕ}
    (hle : flaSlabCacheFlistNlb v n ≤ v.geo.slabNlb) :
    (flistBlocks v s n).slba ≤ (flistBlocks v s n).elba ∧ (flistBlocks v s n).elba < 2 ^ 63 ∧
      (flistBlocks v s n).elba + 1 - (flistBlocks v s n).slba = flaSlabCacheFlistNlb v n := by
  have hend := hg.place hs hle
  have hpos := flistNlb_pos hg.lb n
  have hbase := hg.start
  have hwrap := hg.slabs
  have hmul := mul_add_le_mul (k := v.geo.slabNlb) hs
  unfold flistBlocks
  dsimp only
  omega

/-- byte `i` lies in the blocks of a freelist of `n` entries at the end of slab `s` -/
def FlistByte (v : Volume) (s n i : ℕ) : Prop :=
  (flistBlocks v s n).slba * v.geo.lbNbytes ≤ i ∧ i < ((flistBlocks v s n).elba + 1) * v.geo.lbNbytes

theorem FlistByte.slabByte (hg : Unwrapped dev v base) (hs : s < v.geo.nslabs) {n i : ℕ}
    (hle : flaSlabCacheFlistNlb v n ≤ v.geo.slabNlb) (h : FlistByte v s n i) : SlabByte v base s i := by
  obtain ⟨hblocks, -, hlen⟩ := hg.blocks hs hle
  have hplace := hg.place hs hle
  have hstart : (flistBlocks v s n).slba = cacheEntryLbSlba v s (flaSlabCacheFlistNlb v n) := rfl
  have hend : (flistBlocks v s n).elba + 1 = base + s * v.geo.slabNlb + v.geo.slabNlb := by omega
  have hbytes := Nat.mul_le_mul_right v.geo.lbNbytes (show base + s * v.geo.slabNlb ≤ (flistBlocks v s n).slba by omega)
  obtain ⟨hlo, hhi⟩ := h
  exact ⟨hbytes.trans hlo, hend ▸ hhi⟩

theorem Unwrapped.write_frame (hg : Unwrapped dev v base) (hs : s < v.geo.nslabs) {n : ℕ}
    (hle : flaSlabCacheFlistNlb v n ≤ v.geo.slabNlb) {bytes disk disk' : Bytes}
    (h : flaXneSyncSeqWXneio env dev false (flistBlocks v s n) bytes disk = .ok (err, disk')) {i : ℕ}
    (hi : ¬ FlistByte v s n i) : disk' i = disk i := by
  refine seqW_frame (hg.blocks hs hle).2.1 h ?_
  rw [hg.same_lb]
  unfold FlistByte at hi
  omega

theorem elemFlush_cases (hg : Unwrapped dev v base) (hc : FlistsFit dev v fs) (hx : env.RangesExact dev)
    (h : flaSlabCacheElemFlush env fs s = .ok (err, fs')) :
    (fs' = fs ∧ (err = 0 → (fs.cache s).state ≠ .dirty)) ∨
      ∃ buf disk, (fs.cache s).state = .dirty ∧ (fs.cache s).freelist = some buf ∧
        flaXneSyncSeqWXneio env dev false (flistBlocks v s buf.flist.len) (flistBytes buf) fs.disk = .ok (err, disk) ∧
        fs' = if err = 0 then ({ fs with disk := disk } : Flexalloc).setElem s ⟨.clean, some buf⟩
          else { fs with disk := disk } := by
  by_cases hst : (fs.cache s).state = .dirty
  swap
  · rw [flaSlabCacheElemFlush, if_pos hst] at h
    cases h
    exact .inl ⟨rfl, fun _ => hst⟩
  cases hbuf : (fs.cache s).freelist with
  | none =>
    rw [flaSlabCacheElemFlush, if_neg (by rw [hst]; simp), hbuf] at h
    cases h
  | some buf =>
    have hpos := flistNlb_pos hg.lb buf.flist.len
    rw [elemFlush_dirty hg hc hst hbuf rfl] at h
    by_cases hvalid : (env.rangeFromSlbaNaddrs dev (cacheEntryLbSlba v s (flaSlabCacheFlistNlb v buf.flist.len))
      (flaSlabCacheFlistNlb v buf.flist.len)).isValid
    swap
    · rw [if_pos hvalid] at h
      cases h
      exact .inl ⟨rfl, fun h => absurd h (by decide)⟩
    rw [if_neg (by simp [hvalid]), hx _ _ hpos hvalid] at h
    obtain ⟨⟨err₁, disk⟩, hwrite, h⟩ := bind_eq_ok h
    refine .inr ⟨buf, disk, hst, rfl, ?_⟩
    dsimp only at h
    split_ifs at h with herr
    · cases h
      exact ⟨hwrite, (if_neg herr).symm⟩
    · cases h
      exact ⟨not_ne_iff.1 herr ▸ hwrite, (if_pos rfl).symm⟩

/-- byte `i` lies in the blocks of the freelist of a dirty element -/
def DirtyByte (fs : Flexalloc) (s i : ℕ) : Prop :=
  ∃ buf, (fs.cache s).state = .dirty ∧ (fs.cache s).freelist = some buf ∧ FlistByte fs.vol s buf.flist.len i

theorem elemFlush_frame (hg : Unwrapped dev v base) (hc : FlistsFit dev v fs) (hx : env.RangesExact dev)
    (hs : s < v.geo.nslabs) (h : flaSlabCacheElemFlush env fs s = .ok (err, fs')) {i : ℕ} (hi : ¬ DirtyByte fs s i) :
    fs'.disk i = fs.disk i := by
  rcases elemFlush_cases hg hc hx h with ⟨rfl, -⟩ | ⟨buf, disk, hst, hbuf, hwrite, rfl⟩
  · rfl
  · have hdisk : disk i = fs.disk i := hg.write_frame hs (hc.room s hs buf hbuf) hwrite fun hbyte =>
      hi ⟨buf, hst, hbuf, hc.vol ▸ hbyte⟩
    split_ifs
    · exact hdisk
    · exact hdisk

theorem OnDisk.written (hg : Unwrapped dev v base) (hvol : fs.vol = v) (hs : s < v.geo.nslabs) {buf : FlistBuf}
    (hle : flaSlabCacheFlistNlb v buf.flist.len ≤ v.geo.slabNlb) {disk : Bytes}
    (h : flaXneSyncSeqWXneio env dev false (flistBlocks v s buf.flist.len) (flistBytes buf) fs.disk = .ok (0, disk)) :
    OnDisk { fs with disk := disk } s buf := by
  obtain ⟨hblocks, h63, hlen⟩ := hg.blocks hs hle
  have hmdts : 0 < flaXneCalcMdtsNaddrs dev := seqW_mdts hblocks h63 h
  rw [seqW_spec hmdts h63 h, hg.same_lb, hlen]
  exact OnDisk.of_copy hvol

/-- **Flushing an element** writes to its own slab only; when it fails the element is as before. -/
theorem elemFlush_coherent (hg : Unwrapped dev v base) (hc : Coherent dev v fs) (hx : env.RangesExact dev)
    (hs : s < v.geo.nslabs) (h : flaSlabCacheElemFlush env fs s = .ok (err, fs')) :
    Coherent dev v fs' ∧ (∀ t ≠ s, fs'.cache t = fs.cache t) ∧ (err ≠ 0 → fs'.cache s = fs.cache s) ∧
      (err = 0 → (fs'.cache s).state ≠ .dirty ∧ (fs'.cache s).freelist = (fs.cache s).freelist) := by
  rcases elemFlush_cases hg (hc.flistsFit hg) hx h with ⟨rfl, hst⟩ | ⟨buf, disk, hst, hbuf, hwrite, rfl⟩
  · exact ⟨hc, fun _ _ => rfl, fun _ => rfl, fun herr => ⟨hst herr, rfl⟩⟩
  have hfl := hc.sized s hs buf hbuf
  have hdisk : Coherent dev v { fs with disk := disk } := by
    refine ⟨hc.vol, hc.home, hc.stale, hc.sized, fun t ht buf' hclean hb => ?_⟩
    have hts : t ≠ s := by
      rintro rfl
      have hclean' : (fs.cache t).state = .clean := hclean
      rw [hst] at hclean'
      cases hclean'
    have hvol : ({ fs with disk := disk } : Flexalloc).vol = v := hc.vol
    exact (hc.clean t ht buf' hclean hb).congr hg hc.vol hvol ht ((hc.sized t ht buf' hb).room hg ht) fun i hi =>
      hg.write_frame hs (hfl.room hg hs) hwrite fun hi' => hts (hi.unique (hi'.slabByte hg hs (hfl.room hg hs)))
  by_cases herr : err = 0
  swap
  · rw [if_neg herr]
    exact ⟨hdisk, fun _ _ => rfl, fun _ => rfl, fun h => absurd h herr⟩
  subst herr
  rw [if_pos rfl]
  refine ⟨hdisk.setElem (by simp) (fun b hb => ?_) (fun b _ hb => ?_), fun t ht => update_of_ne ht .., fun h => absurd rfl h,
    fun _ => ?_⟩
  · simp only [Option.some.injEq] at hb
    rw [← hb]
    exact hfl
  · simp only [Option.some.injEq] at hb
    subst hb
    exact OnDisk.written hg hc.vol hs (hfl.room hg hs) hwrite
  · have hself : (({ fs with disk := disk } : Flexalloc).setElem s ⟨.clean, some buf⟩).cache s = ⟨.clean, some buf⟩ :=
      update_self ..
    rw [hself, hbuf]
    exact ⟨by simp, rfl⟩

/-- a loaded element is the blocks it was read from; a load that fails changes nothing -/
theorem elemLoad_cases (hg : Unwrapped dev v base) (hc : FlistsFit dev v fs) (hx : env.RangesExact dev)
    (hs : s < v.geo.nslabs) {n : ℕ} (hle : flaSlabCacheFlistNlb v n ≤ v.geo.slabNlb)
    (h : flaSlabCacheElemLoad env fs s n = .ok (err, fs')) :
    (err ≠ 0 ∧ fs' = fs) ∨ ∃ buf, err = 0 ∧ (fs.cache s).state = .stale ∧ buf.flist.len = n ∧ OnDisk fs s buf ∧
      fs' = fs.setElem s ⟨.clean, some buf⟩ := by
  rcases elemLoad_inv h with ⟨rfl, hmd⟩ | ⟨herr, hst, -, hvalid, b, hread, hlen, rfl⟩
  · refine Or.inl ⟨fun h0 => ?_, rfl⟩
    have := (hmd h0).1
    rw [hc.vol, hg.noMd] at this
    cases this
  refine Or.inr ⟨_, herr, hst, rfl, ?_, rfl⟩
  have hpos : 0 < flaSlabCacheFlistNlb v n := flistNlb_pos hg.lb n
  obtain ⟨hblocks, h63, hnum⟩ := hg.blocks hs hle
  rw [flistLbas, hc.mdHome hg, hc.vol] at hvalid hread
  rw [hc.mdBytes hg, hx _ _ hpos hvalid, ← flistBlocks] at hread
  have hb := seqR_spec (seqR_mdts hblocks h63 hread) h63 hread
  rw [hnum, hg.same_lb] at hb
  unfold OnDisk
  rw [flistBytes_flistOfBytes hlen]
  simp only [Flexalloc.geo, hc.vol]
  intro i hi
  have hi' : i < flaSlabCacheFlistNlb v n * v.geo.lbNbytes := hi
  rw [hb, copyBytes_of_mem (Nat.zero_le _) (by omega), Nat.sub_zero]
  rfl

theorem elemLoad_onDisk (hg : Unwrapped dev v base) (hc : FlistsFit dev v fs) (hs : s < v.geo.nslabs) {buf : FlistBuf}
    (hle : flaSlabCacheFlistNlb v buf.flist.len ≤ v.geo.slabNlb) (hlen : buf.flist.len < 2 ^ 32)
    (hdisk : OnDisk fs s buf) (hst : (fs.cache s).state = .stale) (hbuf : env.bufAlloc)
    (hmdts : 0 < flaXneCalcMdtsNaddrs dev) (hread : ∀ b, env.nvmRead b = 0)
    (hrange : ∀ slba naddrs, env.rangeFromSlbaNaddrs dev slba naddrs = ⟨slba, slba + naddrs - 1, true⟩) :
    ∃ b, flaSlabCacheElemLoad env fs s buf.flist.len = .ok (0, fs.setElem s ⟨.clean, some ⟨buf.flist, b⟩⟩) := by
  have hsize : flaFlistSize buf.flist.len ≤ flaSlabCacheFlistNlb v buf.flist.len * v.geo.lbNbytes := flistNlb_room hg.lb _
  obtain ⟨hblocks, h63, hnum⟩ := hg.blocks hs hle
  unfold OnDisk at hdisk
  simp only [Flexalloc.geo, hc.vol] at hdisk
  rw [flaSlabCacheElemLoad, if_neg (by simp [hst]), if_neg (by simp [hbuf])]
  dsimp only
  rw [if_neg (by rw [hc.vol, hg.noMd]; simp), hc.mdHome hg, hc.mdBytes hg, hc.vol, hrange, if_neg (by simp), ← flistBlocks]
  obtain ⟨b, hb⟩ : ∃ b, flaXneSyncSeqRXneio env dev (flistBlocks v s buf.flist.len) fs.disk env.junk = .ok (0, b) :=
    seqR_ok hmdts h63 hblocks hread _ _
  have hspec := seqR_spec hmdts h63 hb
  rw [hnum, hg.same_lb] at hspec
  have hbytes : ∀ i, i < flaFlistSize buf.flist.len → b i = flistBytes buf i := fun i hi => by
    rw [hspec, copyBytes_of_mem (Nat.zero_le _) (by omega), Nat.sub_zero]
    exact hdisk i (by omega)
  rw [hb]
  dsimp only
  rw [if_neg (by simp), if_neg (by rw [flistBytes_len hlen hbytes]; simp), flistOfBytes_flistBytes hbytes]
  exact ⟨b, rfl⟩

theorem Coherent.setDirty (hc : Coherent dev v fs) {buf : FlistBuf} (hfl : Sized v buf.flist) :
    Coherent dev v (fs.setElem s ⟨.dirty, some buf⟩) := by
  refine hc.setElem (by simp) (fun b hb => ?_) (fun b hst _ => ?_)
  · rw [← Option.some.inj hb]
    exact hfl
  · cases hst

/-- the index taken from a freelist that is sized fits an `int`, whatever its padding bits -/
theorem Sized.take_lt {fl fl' : Freelist} (hfl : Sized v fl) {k : ℕ} (h : takeEntry fl = some (k, fl')) :
    k < 2 ^ 31 := by
  obtain ⟨-, -, hle⟩ := hfl
  have hpad := u32Elems_mul fl.len
  have hk := takeEntry_lt_words h
  omega

theorem objAlloc_coherent (hc : Coherent dev v fs) (hs : s < v.geo.nslabs) {obj : Option Obj}
    (h : flaSlabCacheObjAlloc fs s 1 = .ok (err, obj, fs')) : Coherent dev v fs' := by
  by_cases hst : (fs.cache s).state = .stale
  · rw [flaSlabCacheObjAlloc, if_pos hst] at h
    cases h
    exact hc
  obtain ⟨buf, hbuf, hfl⟩ := hc.buffer hs hst
  cases htake : takeEntry buf.flist with
  | none =>
    rw [objAlloc_none hst hbuf htake] at h
    cases h
    exact hc
  | some r =>
    obtain ⟨k, fl⟩ := r
    rw [objAlloc_spec hst hbuf htake (hfl.take_lt htake)] at h
    cases h
    refine hc.setDirty ?_
    show Sized v fl
    unfold Sized
    rw [(takeEntry_some htake).2.2.1]
    exact hfl

theorem objFree_coherent (hc : Coherent dev v fs) {obj : Obj} (hs : obj.slabId < v.geo.nslabs) (hin : EntryIn fs obj)
    (h : flaSlabCacheObjFree fs obj 1 = .ok (err, fs')) : Coherent dev v fs' := by
  by_cases hst : (fs.cache obj.slabId).state = .stale
  · rw [flaSlabCacheObjFree, if_pos hst] at h
    cases h
    exact hc
  obtain ⟨buf, hbuf, hfl⟩ := hc.buffer hs hst
  rw [EntryIn, hbuf] at hin
  have hle := hfl.2.2
  obtain ⟨fl, hfree, hlen, -⟩ := objFree_spec hst hbuf hin (by omega)
  rw [hfree] at h
  cases h
  refine hc.setDirty ?_
  show Sized v fl
  unfold Sized
  rw [hlen]
  exact hfl

/-- the flush loop from `slabId` on: an element it passed is not dirty, unless it counted an error -/
theorem flushLoop_coherent (hg : Unwrapped dev v base) (hx : env.RangesExact dev) (n : ℕ) :
    ∀ (slabId : ℕ) (cnt : ℤ) (fs : Flexalloc), slabId + n = v.geo.nslabs → Coherent dev v fs → 0 ≤ cnt →
      (cnt = 0 → ∀ t < slabId, (fs.cache t).state ≠ .dirty) → slabCacheFlushLoop env n slabId cnt fs = .ok (err, fs') →
      Coherent dev v fs' ∧ (∀ t, (fs'.cache t).freelist = (fs.cache t).freelist) ∧
        (err = 0 → ∀ t < v.geo.nslabs, (fs'.cache t).state ≠ .dirty) := by
  induction n with
  | zero =>
    intro slabId cnt fs hsum hc hcnt hpast h
    cases h
    obtain rfl : slabId = v.geo.nslabs := by omega
    exact ⟨hc, fun _ => rfl, hpast⟩
  | succ n ih =>
    intro slabId cnt fs hsum hc hcnt hpast h
    unfold slabCacheFlushLoop at h
    cases hflush : flaSlabCacheElemFlush env fs slabId with
    | error f =>
      rw [hflush] at h
      cases h
    | ok r =>
      obtain ⟨ret, fs₁⟩ := r
      rw [hflush] at h
      obtain ⟨hc₁, hframe, hfail, hdone⟩ := elemFlush_coherent hg hc hx (by omega) hflush
      have hkept : ∀ t, (fs₁.cache t).freelist = (fs.cache t).freelist := fun t => by
        by_cases hts : t = slabId
        · rw [hts]
          by_cases hret : ret = 0
          · exact (hdone hret).2
          · rw [hfail hret]
        · rw [hframe t hts]
      obtain ⟨hc', hkept', hclean⟩ := ih _ _ fs₁ (by omega) hc₁ (by split_ifs <;> omega) (fun hcnt' t ht => by
        split_ifs at hcnt' with hret
        · omega
        · by_cases hts : t = slabId
          · rw [hts]
            exact (hdone (not_ne_iff.1 hret)).1
          · rw [hframe t hts]
            exact hpast hcnt' t (by omega)) h
      exact ⟨hc', fun t => (hkept' t).trans (hkept t), hclean⟩

theorem OnDisk.flist_eq (hlb : 0 < fs.geo.lbNbytes) {buf buf' : FlistBuf} (h : OnDisk fs s buf) (h' : OnDisk fs s buf')
    (hlen : buf'.flist.len = buf.flist.len) : buf'.flist = buf.flist := by
  have hsize : flaFlistSize buf.flist.len ≤ flaSlabCacheFlistNlb fs.vol buf.flist.len * fs.geo.lbNbytes :=
    flistNlb_room hlb _
  have hbytes : ∀ i, i < flaFlistSize buf.flist.len → flistBytes buf' i = flistBytes buf i := fun i hi => by
    have h1 := h i (by omega)
    have h2 := h' i (by rw [hlen]; omega)
    rw [hlen] at h2
    rw [← h1, ← h2]
  have hflist : flistOfBytes (flistBytes buf') buf.flist.len = buf.flist := flistOfBytes_flistBytes hbytes
  rw [← hflist, ← hlen, flistOfBytes_flistBytes fun _ _ => rfl]

end Calls

/-! ## Runs -/

/-- the freelists a call asks for have at most 2^31 entries -/
def Narrow (v : Volume) : CacheOp → Prop
  | .elemInit _ objNlb => ∀ n, flaCalcObjsInSlab v objNlb = .ok n → n ≤ 2 ^ 31
  | .elemLoad _ objNlb => ∀ n, flaCalcObjsInSlab v objNlb = .ok n → n ≤ 2 ^ 31
  | _ => True

/-- **One call on the cache.** -/
theorem cacheStep_coherent {dev : Dev} {v : Volume} {base : ℕ} {fs fs' : Flexalloc} {x : Env × CacheOp}
    (hg : Unwrapped dev v base) (hc : Coherent dev v fs) (hx : x.1.RangesExact dev) (hnarrow : Narrow v x.2)
    (h : cacheStep fs x = some fs') : Coherent dev v fs' := by
  obtain ⟨env, op⟩ := x
  obtain ⟨hl, err, hp⟩ := cacheStep_eq_some h
  have hslabs : fs.nslabs = v.geo.nslabs := by rw [Flexalloc.nslabs, hc.vol]
  cases op with
  | elemInit s objNlb =>
    obtain ⟨hs, hfits⟩ : s < fs.nslabs ∧ FitsSlab fs.vol objNlb := hl
    obtain ⟨n, hcalc, hn⟩ := fitsSlab_iff.1 hfits
    rw [cachePerform, hcalc, ok_bind] at hp
    have hpair := Except.ok.inj hp
    rw [hc.vol] at hcalc
    have hfl : Sized v (flaFlistInit n) := ⟨⟨objNlb, hcalc⟩, hn, hnarrow n hcalc⟩
    unfold flaSlabCacheElemInit at hpair
    by_cases hst : (fs.cache s).state ≠ .stale
    · rw [if_pos hst] at hpair
      cases hpair
      exact hc
    rw [if_neg hst] at hpair
    by_cases hbuf : ¬ env.bufAlloc
    · rw [if_pos hbuf] at hpair
      cases hpair
      exact hc
    rw [if_neg hbuf] at hpair
    cases hpair
    exact hc.setDirty hfl
  | elemLoad s objNlb =>
    obtain ⟨hs, hfits⟩ : s < fs.nslabs ∧ FitsSlab fs.vol objNlb := hl
    obtain ⟨n, hcalc, hn⟩ := fitsSlab_iff.1 hfits
    rw [cachePerform, hcalc, ok_bind] at hp
    rw [hc.vol] at hcalc
    have hroom := calcObjs_room hg (hslabs ▸ hs) hcalc hn
    rcases elemLoad_cases hg (hc.flistsFit hg) hx (hslabs ▸ hs) hroom hp with ⟨-, rfl⟩ | ⟨buf, -, -, hlen, hdisk, rfl⟩
    · exact hc
    · refine hc.setElem (by simp) (fun b hb => ?_) (fun b _ hb => ?_)
      · rw [← Option.some.inj hb, Sized, hlen]
        exact ⟨⟨objNlb, hcalc⟩, hn, hnarrow n hcalc⟩
      · rw [← Option.some.inj hb]
        exact hdisk
  | objAlloc s =>
    obtain ⟨⟨err₁, obj, fs₁⟩, halloc, hp⟩ := bind_eq_ok hp
    cases hp
    exact objAlloc_coherent hc (hslabs ▸ hl) halloc
  | objFree obj => exact objFree_coherent hc (hslabs ▸ hl.1) hl.2 hp
  | elemFlush s => exact (elemFlush_coherent hg hc hx (hslabs ▸ hl) hp).1
  | elemDrop s =>
    cases hp
    exact hc.setElem (by simp) (fun b hb => by cases hb) (fun b _ hb => by cases hb)
  | flush =>
    rw [cachePerform, flaSlabCacheFlush, hslabs] at hp
    exact (flushLoop_coherent hg hx _ 0 0 fs (by omega) hc le_rfl (fun _ t ht => by omega) hp).1

/-- a system on one device whose cache was just set up -/
structure CacheFresh (dev : Dev) (geo : Geo) (fs : Flexalloc) : Prop where
  vol : fs.vol = .onDev dev geo
  home : fs.dev = dev
  stale : ∀ s < geo.nslabs, fs.cache s = ⟨.stale, none⟩

theorem CacheFresh.coherent {dev : Dev} {geo : Geo} {fs : Flexalloc} (h : CacheFresh dev geo fs) :
    Coherent dev (.onDev dev geo) fs := by
  refine ⟨h.vol, h.home, fun s hs => ?_, fun s hs buf hbuf => ?_, fun s hs buf hst _ => ?_⟩
  · rw [h.stale s hs]
    simp
  · rw [h.stale s hs] at hbuf
    cases hbuf
  · rw [h.stale s hs] at hst
    cases hst

/-- what the users of the cache rely on -/
structure CacheSound (fs : Flexalloc) : Prop where
  /-- an element is stale if and only if it has no buffer -/
  stale : ∀ s < fs.nslabs, (fs.cache s).state = .stale ↔ (fs.cache s).freelist = none
  /-- the buffer of a clean element is what the device holds -/
  clean : ∀ s < fs.nslabs, (fs.cache s).state = .clean → ∃ buf, (fs.cache s).freelist = some buf ∧ OnDisk fs s buf
  /-- a flush that returns 0 leaves no dirty element, and what is dropped then can be loaded again -/
  flushed : ∀ env fs', env.RangesExact fs.dev → flaSlabCacheFlush env fs = .ok (0, fs') → ∀ s < fs.nslabs,
    (fs'.cache s).state ≠ .dirty ∧ (fs'.cache s).freelist = (fs.cache s).freelist ∧
      ∀ buf, (fs'.cache s).freelist = some buf → ∀ env' fs'', env'.RangesExact fs.dev →
        flaSlabCacheElemLoad env' (flaSlabCacheElemDrop fs' s) s buf.flist.len = .ok (0, fs'') →
          ∃ buf', fs''.cache s = ⟨.clean, some buf'⟩ ∧ buf'.flist = buf.flist
  /-- an element whose flush fails stays dirty, with its buffer -/
  failed : ∀ env s fs' err, env.RangesExact fs.dev → s < fs.nslabs → flaSlabCacheElemFlush env fs s = .ok (err, fs') →
    err ≠ 0 → (fs.cache s).state = .dirty ∧ fs'.cache s = fs.cache s

theorem Coherent.sound {dev : Dev} {v : Volume} {base : ℕ} {fs : Flexalloc} (hg : Unwrapped dev v base)
    (hc : Coherent dev v fs) : CacheSound fs := by
  have hslabs : fs.nslabs = v.geo.nslabs := by rw [Flexalloc.nslabs, hc.vol]
  constructor
  · rw [hslabs]
    exact hc.stale
  · intro s hs hst
    obtain ⟨buf, hbuf, -⟩ := hc.buffer (hslabs ▸ hs) (by rw [hst]; simp)
    exact ⟨buf, hbuf, hc.clean s (hslabs ▸ hs) buf hst hbuf⟩
  · intro env fs' hx hflush s hs
    rw [hc.home] at hx ⊢
    rw [hslabs] at hs
    rw [flaSlabCacheFlush, hslabs] at hflush
    obtain ⟨hc', hkept, hdone⟩ :=
      flushLoop_coherent hg hx _ 0 0 fs (by omega) hc le_rfl (fun _ t ht => by omega) hflush
    refine ⟨hdone rfl s hs, hkept s, fun buf hbuf env' fs'' hx' hload => ?_⟩
    have hst : (fs'.cache s).state = .clean := by
      cases hstate : (fs'.cache s).state with
      | stale =>
        rw [(hc'.stale s hs).1 hstate] at hbuf
        cases hbuf
      | dirty => exact absurd hstate (hdone rfl s hs)
      | clean => rfl
    have hdisk := hc'.clean s hs buf hst hbuf
    obtain ⟨⟨objNlb, hcalc⟩, hpos, -⟩ := hc'.sized s hs buf hbuf
    have hdrop : Coherent dev v (flaSlabCacheElemDrop fs' s) :=
      hc'.setElem (by simp) (fun b hb => by cases hb) (fun b _ hb => by cases hb)
    have hroom := calcObjs_room hg hs hcalc hpos
    rcases elemLoad_cases hg (hdrop.flistsFit hg) hx' hs hroom hload with ⟨hne, -⟩ | ⟨buf', -, -, hlen, hdisk', rfl⟩
    · exact absurd rfl hne
    · refine ⟨buf', update_self .., OnDisk.flist_eq ?_ hdisk hdisk' hlen⟩
      rw [Flexalloc.geo, hc'.vol]
      exact hg.lb
  · intro env s fs' err hx hs hflush herr
    rw [hc.home] at hx
    refine ⟨?_, (elemFlush_coherent hg hc hx (hslabs ▸ hs) hflush).2.2.1 herr⟩
    by_contra hst
    rw [flaSlabCacheElemFlush, if_pos hst] at hflush
    cases hflush
    exact herr rfl

/-- **The cache is coherent with the device.** From a cache just set up on a single device, in every run of its calls in
which no freelist has more than 2^31 entries, whatever commands fail. -/
theorem cache_coherent {dev : Dev} {npools slabNlb : ℕ} {geo : Geo} {fs fs' : Flexalloc} {calls : List (Env × CacheOp)}
    (hgeo : flaMkfsGeoCalc dev false npools slabNlb = .ok (0, geo)) (hwrap : geo.nslabs * geo.slabNlb < 2 ^ 32)
    (hfresh : CacheFresh dev geo fs) (hranges : ∀ x ∈ calls, x.1.RangesExact dev)
    (hnarrow : ∀ x ∈ calls, Narrow (.onDev dev geo) x.2) (h : run cacheStep fs calls = some fs') : CacheSound fs' := by
  obtain ⟨base, hg⟩ := unwrapped_of_accepted hgeo hwrap
  have hall : ∀ x ∈ calls, x.1.RangesExact dev ∧ Narrow (.onDev dev geo) x.2 := fun x hx => ⟨hranges x hx, hnarrow x hx⟩
  exact (run_inv_visited (Q := fun _ => True) (R := fun x => x.1.RangesExact dev ∧ Narrow (.onDev dev geo) x.2)
    (fun _ _ _ hc _ hx hstep => cacheStep_coherent hg hc hx.1 hx.2 hstep) hfresh.coherent hall (fun _ _ _ _ => trivial) h).sound hg

/-- an element of a small device: initialised, changed, flushed, dropped and loaded again -/
theorem cache_coherent_small : ∃ fs', run cacheStep (flaMkfs smallDev smallGeo fun _ => 0)
    ([.elemInit 0 1, .objAlloc 0, .flush, .elemDrop 0, .elemLoad 0 1].map (Env.reliable, ·)) = some fs' ∧
      (fs'.cache 0).state = .clean ∧ CacheSound fs' := by
  obtain ⟨fs', hrun, hclean⟩ := Option.map_eq_some_iff.1 (show (run cacheStep (flaMkfs smallDev smallGeo fun _ => 0)
    ([.elemInit 0 1, .objAlloc 0, .flush, .elemDrop 0, .elemLoad 0 1].map (Env.reliable, ·))).map
      (fun fs' => decide ((fs'.cache 0).state = .clean)) = some true by decide +kernel)
  have hcalc : flaCalcObjsInSlab (.onDev smallDev smallGeo) 1 = .ok 7 := by decide +kernel
  have hnarrow : ∀ n, flaCalcObjsInSlab (.onDev smallDev smallGeo) 1 = .ok n → n ≤ 2 ^ 31 := fun n hn => by
    rw [hcalc] at hn
    cases hn
    decide
  refine ⟨fs', hrun, of_decide_eq_true hclean, cache_coherent smallGeo_formatted.accepted
    (by decide +kernel) ⟨rfl, rfl, fun _ _ => rfl⟩ (fun x hx => ?_) (fun x hx => ?_) hrun⟩
  · obtain ⟨op, -, rfl⟩ := List.mem_map.1 hx
    exact reliable_rangesExact _
  · simp only [List.map_cons, List.map_nil, List.mem_cons, List.not_mem_nil, or_false] at hx
    rcases hx with rfl | rfl | rfl | rfl | rfl
    · exact hnarrow
    · exact trivial
    · exact trivial
    · exact trivial
    · exact hnarrow

/-! ## Freelists of more than 2^31 entries -/

/-- one slab for 2^31 + 1 objects of one block -/
def wideSlabNlb : ℕ := 2 ^ 31 + 1 + 524289

def wideDev : Dev := ⟨(wideSlabNlb + 16) * 512, 512, 2 ^ 17, .cns⟩

def wideGeo : Geo := mkfsGeo wideDev wideSlabNlb 1 1

theorem wideGeo_accepted : flaMkfsGeoCalc wideDev false 1 wideSlabNlb = .ok (0, wideGeo) := by decide +kernel

/-- a freelist of `32 * m + 1` entries that are all taken but the last, when its last word is 1 -/
def lastWord (m : ℕ) (last : BitVec 32) : Freelist :=
  ⟨32 * m + 1, List.replicate m 0 ++ [last], by
    rw [List.length_append, List.length_replicate, List.length_singleton, flaFreelistU32Elems, flaCeilDiv]
    omega⟩

theorem entryAllocLoop_zeros (m i : ℕ) : entryAllocLoop (List.replicate m 0 ++ [1]) i =
    some (32 * (i + m), List.replicate m 0 ++ [0]) := by
  induction m generalizing i with
  | zero =>
    rw [Nat.add_zero, mul_comm]
    rfl
  | succ m ih =>
    rw [List.replicate_succ, List.cons_append, entryAllocLoop, if_pos rfl, ih, Option.map_some, Nat.add_assoc i 1 m,
      Nat.add_comm 1 m]
    rfl

theorem takeEntry_lastWord (m : ℕ) : takeEntry (lastWord m 1) = some (32 * m, lastWord m 0) := by
  refine takeEntry_eq_some ?_ rfl
  show entryAllocLoop (List.replicate m 0 ++ [1]) 0 = some (32 * m, List.replicate m 0 ++ [0])
  rw [entryAllocLoop_zeros, Nat.zero_add]

theorem lastWord_ne (m : ℕ) : lastWord m 0 ≠ lastWord m 1 := fun h => by
  have hwords : List.replicate m (0 : BitVec 32) ++ [0] = List.replicate m 0 ++ [1] := congrArg Freelist.words h
  have := List.append_cancel_left hwords
  simp at this

theorem wide_calc : flaCalcObjsInSlab (.onDev wideDev wideGeo) 1 = .ok (32 * 2 ^ 26 + 1) := by
  have hnlb : ∀ n, flaSlabCacheFlistNlb (.onDev wideDev wideGeo) n = flaCeilDiv (4 * (1 + flaCeilDiv n 32)) 512 :=
    fun _ => rfl
  rw [flaCalcObjsInSlab, if_neg (by decide), if_neg (by decide), Nat.div_one]
  refine congrArg Except.ok (Nat.findGreatest_eq_iff.2 ⟨by decide +kernel, fun _ => ?_, fun n hlt hle => ?_⟩)
  · rw [hnlb]
    decide +kernel
  · have hle' : n ≤ wideSlabNlb := hle
    have hslab : wideSlabNlb = 2 ^ 31 + 1 + 524289 := rfl
    show ¬ flaSlabCacheFlistNlb (.onDev wideDev wideGeo) n ≤ sub32 wideSlabNlb (u32 (n * 1))
    rw [hnlb, Nat.mul_one, u32_of_lt (by omega), sub32_of_le hle' (by rw [hslab]; decide)]
    unfold flaCeilDiv
    omega

/-- In a freelist of `32 * m + 1` entries, more than 2^31, of which only the last is free, that one is taken from the
buffer of an element that stays clean. -/
theorem late_entry_lost {dev : Dev} {npools slabNlb m : ℕ} {geo : Geo}
    (hgeo : flaMkfsGeoCalc dev false npools slabNlb = .ok (0, geo)) (hwrap : geo.nslabs * geo.slabNlb < 2 ^ 32)
    (hmdts : 0 < flaXneCalcMdtsNaddrs dev) (hcalc : flaCalcObjsInSlab (.onDev dev geo) 1 = .ok (32 * m + 1))
    (hm : 2 ^ 31 ≤ 32 * m) (hm' : 32 * m + 1 < 2 ^ 32) : ∃ fs fs', CacheFresh dev geo fs ∧
      run cacheStep fs [(.reliable, .elemLoad 0 1), (.reliable, .objAlloc 0)] = some fs' ∧ ¬ CacheSound fs' := by
  obtain ⟨base, hg⟩ := unwrapped_of_accepted hgeo hwrap
  obtain ⟨-, -, _, _, n, -, -, hn, -, -, -, -, hgeo'⟩ := mkfsGeoCalc_ok hgeo
  have hs : 0 < geo.nslabs := by rw [hgeo']; exact hn
  set buf : FlistBuf := ⟨lastWord m 1, fun _ => 0⟩ with hbuf
  set off := cacheEntryLbSlba (.onDev dev geo) 0 (flaSlabCacheFlistNlb (.onDev dev geo) (32 * m + 1)) * geo.lbNbytes
    with hoff
  set fs := flaMkfs dev geo fun i => flistBytes buf (i - off) with hfs
  have hfresh : CacheFresh dev geo fs := ⟨rfl, rfl, fun _ _ => rfl⟩
  have hdisk : OnDisk fs 0 buf := fun i _ => by
    show flistBytes buf (off + i - off) = flistBytes buf i
    rw [Nat.add_sub_cancel_left]
  have hfits : FitsSlab fs.vol 1 := fitsSlab_iff.2 ⟨_, hcalc, by omega⟩
  have hread : ∀ b, Env.reliable.nvmRead b = 0 := fun _ => rfl
  have hle : flaSlabCacheFlistNlb (.onDev dev geo) buf.flist.len ≤ geo.slabNlb :=
    calcObjs_room hg hs hcalc (Nat.succ_pos (32 * m))
  have hlen : buf.flist.len < 2 ^ 32 := hm'
  have hstale : (fs.cache 0).state = .stale := rfl
  obtain ⟨b, hload⟩ := elemLoad_onDisk hg (hfresh.coherent.flistsFit hg) hs hle hlen hdisk hstale rfl hmdts
    hread fun _ _ => rfl
  set fs₁ := fs.setElem 0 ⟨.clean, some ⟨lastWord m 1, b⟩⟩ with hfs₁
  have hself : fs₁.cache 0 = ⟨.clean, some ⟨lastWord m 1, b⟩⟩ := fs.setElem_self ..
  have hst₁ : (fs₁.cache 0).state ≠ .stale := by rw [hself]; simp
  have hbuf₁ : (fs₁.cache 0).freelist = some ⟨lastWord m 1, b⟩ := by rw [hself]
  have halloc := objAlloc_wide hst₁ hbuf₁ (takeEntry_lastWord m) hm (by omega)
  have hload' : cachePerform .reliable fs (.elemLoad 0 1) = .ok (0, fs₁) := by
    rw [cachePerform, show flaCalcObjsInSlab fs.vol 1 = .ok buf.flist.len from hcalc, ok_bind]
    exact hload
  have halloc' : cachePerform .reliable fs₁ (.objAlloc 0) =
      .ok (1, fs₁.setElem 0 ⟨.clean, some ⟨lastWord m 0, b⟩⟩) := by
    rw [cachePerform, halloc, ok_bind, hself]
  have hl : CacheLegal fs (.elemLoad 0 1) := ⟨hs, hfits⟩
  have hl' : CacheLegal fs₁ (.objAlloc 0) := hs
  refine ⟨fs, fs₁.setElem 0 ⟨.clean, some ⟨lastWord m 0, b⟩⟩, hfresh, ?_, fun hsound => ?_⟩
  · rw [run, cacheStep_ok hl hload', Option.bind_some, run, cacheStep_ok hl' halloc']
    rfl
  · obtain ⟨buf', hbuf', hon⟩ := hsound.clean 0 hs (by rw [fs₁.setElem_self])
    rw [fs₁.setElem_self] at hbuf'
    cases hbuf'
    -- the device still holds the freelist in which the entry is free
    exact lastWord_ne m (OnDisk.flist_eq hg.lb hdisk hon rfl)

/-- A slab of 2^31 + 1 objects whose freelist on the device has only entry 2^31 free: it is loaded, the entry is taken,
and the element is clean although the device holds another freelist. -/
theorem wide_entry_loses_write : ∃ geo fs fs', flaMkfsGeoCalc wideDev false 1 wideSlabNlb = .ok (0, geo) ∧
    geo.nslabs * geo.slabNlb < 2 ^ 32 ∧ CacheFresh wideDev geo fs ∧
      run cacheStep fs [(.reliable, .elemLoad 0 1), (.reliable, .objAlloc 0)] = some fs' ∧
        Env.reliable.RangesExact wideDev ∧ ¬ CacheSound fs' := by
  have hwrap : wideGeo.nslabs * wideGeo.slabNlb < 2 ^ 32 := by decide +kernel
  obtain ⟨fs, fs', hfresh, hrun, hlost⟩ := late_entry_lost wideGeo_accepted hwrap (by decide +kernel) wide_calc
    (by decide) (by decide)
  exact ⟨wideGeo, fs, fs', wideGeo_accepted, hwrap, hfresh, hrun, reliable_rangesExact _, hlost⟩

end FlexAlloc
