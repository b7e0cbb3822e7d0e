/-
The system as a store: what is written to an object is what is read from it, through everything else its clients do.

`Store` adds to the system what is known of the bytes of each live object: those that were written since the object was
created, by writes that returned 0. A write that fails leaves the bytes it was for unknown.

Clients create pools and objects, destroy objects, sync, and write to objects they hold, aligned or not. Allocations and
commands may fail at any call.

- `Mixed.object_byte`: no byte of a live object is one of a freelist or of the metadata, so no sync writes it.
- `StoreInv.step`: each call keeps the invariant.
- `object_store`: in every state reached, reads return what is known.
-/
import FlexAlloc.Core.Cells
import FlexAlloc.Crash
import FlexAlloc.Overlap
import FlexAlloc.TornWrites

namespace FlexAlloc

open FlexAlloc.Core Function

/-! ## The store -/

structure Store where
  sys : Sys
  known : Contents (Obj × ℕ) UInt8

inductive StoreOp where
  | call (op : Op)
  | sync
  | write (ndx : ℕ) (obj : Obj) (buf : Bytes) (offset len : ℕ)
  | unalignedWrite (ndx : ℕ) (obj : Obj) (buf : Bytes) (offset len : ℕ)

/-- what is known of the bytes that a write was for -/
def written (buf : Bytes) (err : ℤ) : ℕ → Option UInt8 := fun i => if err = 0 then some (buf i) else none

/-- the system after a write to an object, and what is known then -/
def Store.wrote (s : Store) (ndx : ℕ) (obj : Obj) (buf : Bytes) (offset len : ℕ) (r : ℤ × Bytes) : Store :=
  ⟨⟨{ s.sys.fs with disk := r.2 }, s.sys.live⟩, s.known.put (obj, ndx) offset len (written buf r.1)⟩

def storeStep (async : StrpXfer) (s : Store) (x : Env × StoreOp) : Option Store :=
  match x.2 with
  | .call op => (step s.sys (x.1, op)).map fun sys => ⟨sys, s.known.restrict (· ∈ sys.live)⟩
  | .sync => (flaBaseSync x.1 s.sys.fs).toOption.map fun r => ⟨⟨r.2, s.sys.live⟩, s.known⟩
  | .write ndx obj buf offset len =>
    (flaObjectWrite x.1 async s.sys.fs ndx obj buf offset len).toOption.map (s.wrote ndx obj buf offset len)
  | .unalignedWrite ndx obj buf offset len =>
    (flaObjectUnalignedWrite x.1 s.sys.fs ndx obj buf offset len).toOption.map (s.wrote ndx obj buf offset len)

/-- a part of a live object, of at least a byte -/
structure InObject (s : Sys) (ndx : ℕ) (obj : Obj) (offset len : ℕ) : Prop where
  live : (obj, ndx) ∈ s.live
  pos : 0 < len
  inside : offset + len ≤ (s.fs.pools.entries ndx).objNlb * s.fs.geo.lbNbytes

structure BlocksOf (s : Sys) (ndx : ℕ) (obj : Obj) (offset len : ℕ) : Prop extends InObject s ndx obj offset len where
  offset_dvd : s.fs.geo.lbNbytes ∣ offset
  len_dvd : s.fs.geo.lbNbytes ∣ len

instance (s : Sys) (ndx : ℕ) (obj : Obj) (offset len : ℕ) : Decidable (InObject s ndx obj offset len) :=
  decidable_of_iff ((obj, ndx) ∈ s.live ∧ 0 < len ∧ offset + len ≤ (s.fs.pools.entries ndx).objNlb * s.fs.geo.lbNbytes)
    ⟨fun h => ⟨h.1, h.2.1, h.2.2⟩, fun h => ⟨h.live, h.pos, h.inside⟩⟩

instance (s : Sys) (ndx : ℕ) (obj : Obj) (offset len : ℕ) : Decidable (BlocksOf s ndx obj offset len) :=
  decidable_of_iff (InObject s ndx obj offset len ∧ s.fs.geo.lbNbytes ∣ offset ∧ s.fs.geo.lbNbytes ∣ len)
    ⟨fun h => ⟨h.1, h.2.1, h.2.2⟩, fun h => ⟨h.toInObject, h.offset_dvd, h.len_dvd⟩⟩

/-- what a client asks for: new objects go to slabs laid out for their pool, and writes are to objects it holds -/
def StoreLegal (s : Store) (x : Env × StoreOp) : Prop :=
  match x.2 with
  | .call op => Suited s.sys op
  | .sync => True
  | .write ndx obj _ offset len => BlocksOf s.sys ndx obj offset len
  | .unalignedWrite ndx obj _ offset len => InObject s.sys ndx obj offset len

instance (s : Store) : (x : Env × StoreOp) → Decidable (StoreLegal s x)
  | (_, .call op) => inferInstanceAs (Decidable (Suited s.sys op))
  | (_, .sync) => isTrue trivial
  | (_, .write ndx obj _ offset len) => inferInstanceAs (Decidable (BlocksOf s.sys ndx obj offset len))
  | (_, .unalignedWrite ndx obj _ offset len) => inferInstanceAs (Decidable (InObject s.sys ndx obj offset len))

/-- the bytes of each object, with the size of its own pool -/
def Sys.cells (s : Sys) : Cells (Obj × ℕ) where
  start o := flaObjectSlba s.fs.vol (s.fs.pools.entries o.2).objNlb o.1 * s.fs.geo.lbNbytes
  size o := (s.fs.pools.entries o.2).objNlb * s.fs.geo.lbNbytes

/-! ## Calls -/

/-- the calls on pools and objects are calls of the base functions, and none of them is a sync -/
theorem perform_call {env : Env} {s t : Sys} {op : Op} {err : ℤ} (h : perform env s op = .ok (err, t)) :
    ∃ c res, c ≠ .sync ∧ baseCall env s.fs c = .ok (res, t.fs) := by
  cases op with
  | poolCreate arg =>
    obtain ⟨⟨err₁, handle, fs⟩, hrun, h⟩ := bind_eq_ok h
    cases h
    refine ⟨.poolCreate arg, .ofPool err handle, Call.noConfusion, ?_⟩
    rw [baseCall, hrun, ok_bind]
  | poolDestroy handle =>
    obtain ⟨⟨err₁, fs⟩, hrun, h⟩ := bind_eq_ok h
    cases h
    refine ⟨.poolDestroy handle, .of err .done, Call.noConfusion, ?_⟩
    rw [baseCall, hrun, ok_bind]
  | objectCreate ndx =>
    obtain ⟨⟨err₁, obj, fs⟩, hrun, h⟩ := bind_eq_ok h
    cases h
    refine ⟨.objectCreate ⟨0, ndx⟩, .ofObj err obj, Call.noConfusion, ?_⟩
    rw [baseCall, hrun, ok_bind]
  | objectDestroy ndx obj =>
    obtain ⟨⟨err₁, fs⟩, hrun, h⟩ := bind_eq_ok h
    cases h
    refine ⟨.objectDestroy ⟨0, ndx⟩ obj, .of err .done, Call.noConfusion, ?_⟩
    rw [baseCall, hrun, ok_bind]

/-- every freelist of a pool and in the cache fits its slab -/
structure FlistsRoom (v : Volume) (fs : Flexalloc) : Prop where
  nobj : ∀ i, Room v (fs.pools.entries i).slabNobj
  cached : ∀ s buf, (fs.cache s).freelist = some buf → Room v buf.flist.len

section Calls

variable {dev : Dev} {geo : Geo} {base : ℕ} {v : Volume} {fs fs' : Flexalloc} {env : Env} {err : ℤ}

/-- **Each call** keeps the volume and the room for freelists. -/
theorem FlistsRoom.effects {P : ℕ → Prop} (hcalc : ∀ objNlb n, flaCalcObjsInSlab v objNlb = .ok n → Room v n)
    (hv : OnVol dev dev false geo fs) (hgeo : (Volume.formatted dev false geo) = v) (h : FlistsRoom v fs)
    (he : Effects P fs fs') : OnVol dev dev false geo fs' ∧ FlistsRoom v fs' := by
  refine he.inv (I := fun fs => OnVol dev dev false geo fs ∧ FlistsRoom v fs) (fun a b hab hi => ?_) ⟨hv, h⟩
  have hvol : a.vol = v := hi.1.vol.trans hgeo
  have hcalc' : ∀ objNlb n, flaCalcObjsInSlab a.vol objNlb = .ok n → Room v n := by
    rw [hvol]
    exact hcalc
  exact ⟨hab.onVol hi.1, hab.nobj hcalc' hi.2.nobj, hab.cached hcalc' hi.2.nobj hi.2.cached⟩

theorem flush_frame (hg : Unwrapped dev v base) (hx : env.RangesExact dev) (hc : FlistsFit dev v fs)
    (hpos : 0 < flaGeoNblocks v.geo) (hbase : flaGeoNblocks v.geo ≤ base) (h : flaFlush env fs = .ok (err, fs')) {s i : ℕ}
    (hi : SlabByte v base s i) (hd : ¬ DirtyByte fs s i) : fs'.disk i = fs.disk i := by
  obtain ⟨⟨err₁, fs₁⟩, hcache, h⟩ := bind_eq_ok h
  have hc₁ : FlistsFit dev v fs₁ := hc.flushed (cacheFlushLoop_flushed _ _ hcache)
  have hloop : fs₁.disk i = fs.disk i := by
    have hn : fs.nslabs = v.geo.nslabs := by rw [Flexalloc.nslabs, hc.vol]
    rw [flaSlabCacheFlush, hn] at hcache
    refine flushLoop_frame hg hx v.geo.nslabs (Nat.zero_add _) hc hcache fun t ht hdt => hd ?_
    obtain ⟨buf, hst, hbuf, hbyte⟩ := hdt
    have hbyte' : FlistByte v t buf.flist.len i := hc.vol ▸ hbyte
    obtain rfl := hi.unique (hbyte'.slabByte hg ht (hc.room t ht buf hbuf))
    exact ⟨buf, hst, hbuf, hbyte⟩
  dsimp only at h
  split_ifs at h with herr
  · cases h
    exact hloop
  · exact (flushMd_frame hg hx hc₁ hpos hbase h hi).trans hloop

end Calls

/-! ## Objects and slabs -/

section Mixed

variable {dev : Dev} {geo : Geo} {s : Sys} {F : List ℕ} {A : Set ℕ} {fs' : Flexalloc}

theorem Flushed.dir {fs : Flexalloc} (hf : Flushed fs fs') (hd : Dir fs) : Dir fs' := by
  obtain ⟨n, hpools⟩ := hf.pools
  have hlive : ∀ i, fs'.PoolLive i ↔ fs.PoolLive i := fun i => by
    rw [Flexalloc.PoolLive, Flexalloc.PoolLive, hpools]
  refine ⟨?_, ?_, fun i hi => ?_, fun i hi => ?_, fun i hi => ?_, ?_⟩
  · rw [Flexalloc.npools, hf.vol, hpools]
    exact hd.len
  · rw [hpools]
    exact hd.ok
  · rw [hpools]
    exact hd.used i ((hlive i).1 hi)
  all_goals
    simp only [hpools] at *
  · exact hd.fnc i hi
  · exact hd.unused i hi
  · exact hd.vals

theorem Mixed.flushed (hm : Mixed geo s F A) (hf : Flushed s.fs fs') : Mixed geo ⟨fs', s.live⟩ F A := by
  obtain ⟨n, hpools⟩ := hf.pools
  have hent : fs'.pools.entries = s.fs.pools.entries := by rw [hpools]
  have hlive : ∀ i, fs'.PoolLive i ↔ s.fs.PoolLive i := fun i => by
    rw [Flexalloc.PoolLive, Flexalloc.PoolLive, hpools]
  refine ⟨hf.vol.trans hm.vol, hf.dir hm.dir, fun i hi => (hlive 0).2 (hm.first i ((hlive i).1 hi)), ?_, ?_, hm.nodupF,
    hm.free, ?_, ?_, fun x => ?_, fun x hx => ?_, hm.nodup, fun o p hop => ?_, ?_⟩
  · simp only [hent, hf.vol]
    exact hm.nobj
  · simp only [hf.slabs]
    exact hm.queue
  · simp only [hf.slabs]
    exact hm.closed
  · simp only [hent]
    exact hm.heads
  · simp only [Flexalloc.header, hf.slabs]
    exact hm.pool x
  · obtain ⟨hlt, hst, hbuf⟩ := hm.used x hx
    simp only [hf.flist]
    exact ⟨hlt, fun h => hst ((hf.stale x).1 h), hbuf⟩
  · obtain ⟨hp, hrest⟩ := hm.live o p hop
    simp only [hent, hf.flist]
    exact ⟨(hlive p).2 hp, hrest⟩
  · simp only [hent]
    exact hm.same

theorem Mixed.setDisk (hm : Mixed geo s F A) (disk : Bytes) : Mixed geo ⟨{ s.fs with disk := disk }, s.live⟩ F A :=
  ⟨hm.vol, ⟨hm.dir.len, hm.dir.ok, hm.dir.used, hm.dir.fnc, hm.dir.unused, hm.dir.vals⟩, hm.first, hm.nobj, hm.queue,
    hm.nodupF, hm.free, hm.closed, hm.heads, hm.pool, hm.used, hm.nodup, hm.live, hm.same⟩

theorem Mixed.npools_le (hm : Mixed geo s F A) (hg : VolOk (.single geo)) : s.fs.npools ≤ 2 ^ 31 := by
  rw [Flexalloc.npools, hm.vol]
  exact (hg.npools_le.trans hg.nslabs_le).trans (by decide)

/-- **Each call** leaves the size of the objects of a pool as it is. -/
theorem Mixed.objNlb (hm : Mixed geo s F A) (hn : s.fs.npools ≤ 2 ^ 31) {env : Env} {op : Op} {err : ℤ} {t : Sys}
    (hstay : PoolsStay op) (h : FlexAlloc.perform env s op = .ok (err, t)) {p : ℕ} (hp : s.fs.PoolLive p) :
    (t.fs.pools.entries p).objNlb = (s.fs.pools.entries p).objNlb := by
  cases op with
  | poolCreate arg =>
    obtain ⟨⟨err₁, handle, fs⟩, hrun, h⟩ := bind_eq_ok h
    cases h
    obtain ⟨-, -, ⟨hent, -⟩ | ⟨-, k, e, hc⟩⟩ := poolCreate_cases hm.dir hn hrun
    · simp only [hent]
    · have hpk : p ≠ k := by
        rintro rfl
        exact hc.fresh hp
      simp only [hc.entries, update_of_ne hpk]
  | poolDestroy handle => exact hstay.elim
  | objectCreate ndx =>
    obtain ⟨⟨err₁, obj, fs⟩, hrun, h⟩ := bind_eq_ok h
    cases h
    exact objNlb_of_rest ((objectCreate_steady hrun).rest p)
  | objectDestroy ndx obj =>
    obtain ⟨⟨err₁, fs⟩, hrun, h⟩ := bind_eq_ok h
    cases h
    exact objNlb_of_rest ((objectDestroy_steady hrun).rest p)

end Mixed

/-! ## Objects and bytes -/

/-- a formatted conventional device that its slabs fit -/
structure Medium (dev : Dev) (npools slabNlb : ℕ) (geo : Geo) : Prop where
  formatted : Formatted dev npools slabNlb geo
  fits : geo.Fits
  nlb : geo.nlb < 2 ^ 32
  lb : 512 ≤ dev.lbNbytes ∧ dev.lbNbytes < 2 ^ 32
  nslabs : geo.nslabs ≤ flaLinkedListNull

section Medium

variable {dev : Dev} {npools slabNlb : ℕ} {geo : Geo} (hd : Medium dev npools slabNlb geo)

include hd

theorem Medium.of_dev : geo.lbNbytes = dev.lbNbytes ∧ geo.nlb = dev.tbytes / dev.lbNbytes := by
  obtain ⟨-, -, a, p, n, -, -, -, -, -, -, -, rfl⟩ := mkfsGeoCalc_ok hd.formatted.accepted
  exact ⟨rfl, rfl⟩

theorem Medium.wrap : geo.nslabs * geo.slabNlb < 2 ^ 32 := by
  have hfits : geo.mdBlocks + geo.nslabs * geo.slabNlb ≤ geo.nlb := hd.fits
  have hnlb := hd.nlb
  omega

theorem Medium.single : Volume.formatted dev false geo = .single geo := by
  unfold Volume.formatted Volume.single
  rw [hd.formatted.cns]

theorem Medium.unwrapped : ∃ base, Unwrapped dev (.single geo) base ∧ flaGeoNblocks geo ≤ base ∧
    base = flaGeoSlabsLbOff geo := by
  obtain ⟨base, hg⟩ := unwrapped_of_accepted hd.formatted.accepted hd.wrap
  have hvol : Volume.onDev dev geo = .single geo := hd.single
  rw [hvol] at hg
  have hbase : base = flaGeoSlabsLbOff geo := by
    have hoff := hg.off 0 hd.formatted.bounds.1
    rw [flaGeoSlabLbOff_single, Nat.zero_mul, Nat.zero_mul] at hoff
    exact hoff.symm
  exact ⟨base, hg, hbase ▸ u32_le _, hbase⟩

theorem Medium.nblocks_pos : 0 < flaGeoNblocks geo := by
  have hmd : 0 < geo.mdNlb := by
    obtain ⟨-, -, a, p, n, -, -, -, -, -, -, -, rfl⟩ := mkfsGeoCalc_ok hd.formatted.accepted
    have hlb := hd.lb
    have hone : flaCeilDiv sizeofFlaSuper dev.lbNbytes = 1 := by
      unfold flaCeilDiv sizeofFlaSuper
      exact Nat.div_eq_of_lt_le (by omega) (by omega)
    show 0 < u32 (flaCeilDiv sizeofFlaSuper dev.lbNbytes)
    rw [hone]
    decide
  rw [flaGeoNblocks_eq hd.fits hd.nlb]
  unfold Geo.mdBlocks
  omega

theorem Medium.room_zero : Room (.single geo) 0 := by
  have hlb : 512 ≤ geo.lbNbytes := hd.of_dev.1 ▸ hd.lb.1
  obtain ⟨-, -, -, -, hslab, hpos, -⟩ := hd.formatted.bounds
  have hone : flaSlabCacheFlistNlb (.single geo) 0 ≤ 1 := by
    show flaCeilDiv (flaFlistSize 0) geo.lbNbytes ≤ 1
    unfold flaCeilDiv flaFlistSize flaFreelistU32Elems flaCeilDiv
    exact Nat.lt_succ_iff.1 ((Nat.div_lt_iff_lt_mul (by omega)).2 (by omega))
  exact hone.trans (hslab.symm ▸ hpos)

theorem Medium.room {objNlb n : ℕ} (h : flaCalcObjsInSlab (.single geo) objNlb = .ok n) : Room (.single geo) n := by
  obtain ⟨base, hg, -⟩ := hd.unwrapped
  rcases Nat.eq_zero_or_pos n with rfl | hpos
  · exact hd.room_zero
  · exact calcObjs_room hg hd.formatted.bounds.1 h hpos

end Medium

section Objects

variable {dev : Dev} {npools slabNlb base : ℕ} {geo : Geo} {s : Sys} {F : List ℕ} {A : Set ℕ} {o : Obj} {p : ℕ}

/-- a live pool reads and writes its objects, whatever slab they are in -/
theorem Mixed.served (hm : Mixed geo s F A) (hd : Medium dev npools slabNlb geo) (hdev : s.fs.dev = dev)
    (hp : s.fs.PoolLive p) : Served geo s.fs fun _ => p := by
  obtain ⟨hlb, hnlb⟩ := hd.of_dev
  have hused := hm.dir.used p hp
  have hlb512 := hd.lb.1
  refine ⟨hm.vol, by rw [hdev, hlb], by omega, hlb.symm ▸ hd.lb.2, by rw [hdev, hlb, hnlb], hd.nlb, hd.fits,
    fun _ _ => ((poolLive_iff hm.dir.len p).1 hp).1, fun _ _ => hm.dir.fnc p hused, fun _ _ => ⟨?_, ?_⟩⟩
  · rw [← hm.vol]
    exact hm.nobj p hused
  · exact Nat.pos_of_ne_zero hused

theorem Mixed.valid (hm : Mixed geo s F A) (hop : (o, p) ∈ s.live) : ValidObj geo s.fs (fun _ => p) o := by
  obtain ⟨-, hx, hlt, -⟩ := hm.live o p hop
  exact ⟨(hm.used _ hx).1, hlt⟩

theorem Mixed.place (hm : Mixed geo s F A) (hd : Medium dev npools slabNlb geo) (hop : (o, p) ∈ s.live) :
    0 < (s.fs.pools.entries p).objNlb ∧
      flaObjectSlba (.single geo) (s.fs.pools.entries p).objNlb o =
        flaGeoSlabsLbOff geo + o.slabId * geo.slabNlb + o.entryNdx * (s.fs.pools.entries p).objNlb ∧
      flaObjectElba (.single geo) (s.fs.pools.entries p).objNlb o =
        flaObjectSlba (.single geo) (s.fs.pools.entries p).objNlb o + (s.fs.pools.entries p).objNlb ∧
      o.entryNdx * (s.fs.pools.entries p).objNlb + (s.fs.pools.entries p).objNlb +
        flaSlabCacheFlistNlb (.single geo) (s.fs.pools.entries p).slabNobj ≤ geo.slabNlb := by
  obtain ⟨hp, hx, hlt, -⟩ := hm.live o p hop
  have hcalc := hm.nobj p (hm.dir.used p hp)
  rw [hm.vol] at hcalc
  obtain ⟨hslba, helba, hroom⟩ := obj_slot hd.wrap hcalc (hm.used _ hx).1 hlt
  refine ⟨Nat.pos_of_ne_zero fun h0 => ?_, hslba, ?_, hroom⟩
  · rw [flaCalcObjsInSlab, if_pos h0] at hcalc
    cases hcalc
  · rw [hslba, helba]

/-- **No byte of a live object** is one of the metadata or of a freelist that a sync would write. -/
theorem Mixed.object_byte (hm : Mixed geo s F A) (hd : Medium dev npools slabNlb geo)
    (hg : Unwrapped dev (.single geo) (flaGeoSlabsLbOff geo)) (hop : (o, p) ∈ s.live) {i : ℕ}
    (hi : i < s.cells.size (o, p)) :
    SlabByte (.single geo) (flaGeoSlabsLbOff geo) o.slabId (s.cells.start (o, p) + i) ∧
      ¬ DirtyByte s.fs o.slabId (s.cells.start (o, p) + i) := by
  obtain ⟨hp, hx, hlt, hbuf⟩ := hm.live o p hop
  obtain ⟨hpos, hslba, -, hroom⟩ := hm.place hd hop
  have hgeo : s.fs.geo = geo := by rw [Flexalloc.geo, hm.vol]; rfl
  have hstart : s.cells.start (o, p) = (flaGeoSlabsLbOff geo + o.slabId * geo.slabNlb +
      o.entryNdx * (s.fs.pools.entries p).objNlb) * geo.lbNbytes := by
    show flaObjectSlba s.fs.vol (s.fs.pools.entries p).objNlb o * s.fs.geo.lbNbytes = _
    rw [hm.vol, hslba, hgeo]
  have hsize : s.cells.size (o, p) = (s.fs.pools.entries p).objNlb * geo.lbNbytes := by
    show (s.fs.pools.entries p).objNlb * s.fs.geo.lbNbytes = _
    rw [hgeo]
  rw [hsize] at hi
  -- the object ends before the freelist, and the freelist where the slab ends
  have hlo := Nat.mul_le_mul_right geo.lbNbytes (Nat.le_add_right (flaGeoSlabsLbOff geo + o.slabId * geo.slabNlb)
    (o.entryNdx * (s.fs.pools.entries p).objNlb))
  have hend := Nat.mul_le_mul_right geo.lbNbytes (show flaGeoSlabsLbOff geo + o.slabId * geo.slabNlb +
    o.entryNdx * (s.fs.pools.entries p).objNlb + (s.fs.pools.entries p).objNlb +
      flaSlabCacheFlistNlb (.single geo) (s.fs.pools.entries p).slabNobj ≤
        flaGeoSlabsLbOff geo + o.slabId * geo.slabNlb + geo.slabNlb by omega)
  have hobj : s.cells.start (o, p) + i < (flaGeoSlabsLbOff geo + o.slabId * geo.slabNlb +
      o.entryNdx * (s.fs.pools.entries p).objNlb + (s.fs.pools.entries p).objNlb) * geo.lbNbytes := by
    rw [hstart, Nat.add_mul _ (s.fs.pools.entries p).objNlb]
    omega
  refine ⟨⟨?_, ?_⟩, ?_⟩
  · rw [hstart]
    exact hlo.trans (Nat.le_add_right _ _)
  · rw [Nat.add_mul _ (flaSlabCacheFlistNlb _ _)] at hend
    exact hobj.trans_le ((Nat.le_add_right _ _).trans hend)
  · rintro ⟨buf, -, hb, hbyte⟩
    rw [hm.vol, (hbuf buf hb).1] at hbyte
    have hle : flaSlabCacheFlistNlb (.single geo) (s.fs.pools.entries p).slabNobj ≤ geo.slabNlb := by omega
    have hplace : cacheEntryLbSlba (.single geo) o.slabId
        (flaSlabCacheFlistNlb (.single geo) (s.fs.pools.entries p).slabNobj) +
          flaSlabCacheFlistNlb (.single geo) (s.fs.pools.entries p).slabNobj =
            flaGeoSlabsLbOff geo + o.slabId * geo.slabNlb + geo.slabNlb := hg.place (hm.used _ hx).1 hle
    have hafter := Nat.mul_le_mul_right geo.lbNbytes (show flaGeoSlabsLbOff geo + o.slabId * geo.slabNlb +
      o.entryNdx * (s.fs.pools.entries p).objNlb + (s.fs.pools.entries p).objNlb ≤
        cacheEntryLbSlba (.single geo) o.slabId
          (flaSlabCacheFlistNlb (.single geo) (s.fs.pools.entries p).slabNobj) by omega)
    exact absurd (hobj.trans_le hafter) (Nat.not_lt.2 hbyte.1)

theorem Mixed.apart (hm : Mixed geo s F A) (hd : Medium dev npools slabNlb geo) {a b : Obj × ℕ} (ha : a ∈ s.live)
    (hb : b ∈ s.live) (hab : a ≠ b) : s.cells.Apart a b := by
  have hsymm : Std.Symm fun a b => Disjoint (s.range a) (s.range b) := ⟨fun _ _ h => h.symm⟩
  have hpairs : s.live.Pairwise fun a b => Disjoint (s.range a) (s.range b) := hm.noOverlap hd.wrap
  have hdisj : Disjoint (s.range a) (s.range b) := hpairs.forall ha hb hab
  obtain ⟨hpa, -, hea, -⟩ := hm.place hd ha
  obtain ⟨hpb, -, heb, -⟩ := hm.place hd hb
  unfold Sys.range objRange at hdisj
  rw [hm.vol, Set.Ico_disjoint_Ico, hea, heb] at hdisj
  unfold Cells.Apart Sys.cells
  dsimp only
  rw [hm.vol, ← Nat.add_mul, ← Nat.add_mul]
  have hcase : flaObjectSlba (.single geo) (s.fs.pools.entries a.2).objNlb a.1 + (s.fs.pools.entries a.2).objNlb ≤
      flaObjectSlba (.single geo) (s.fs.pools.entries b.2).objNlb b.1 ∨
        flaObjectSlba (.single geo) (s.fs.pools.entries b.2).objNlb b.1 + (s.fs.pools.entries b.2).objNlb ≤
          flaObjectSlba (.single geo) (s.fs.pools.entries a.2).objNlb a.1 := by omega
  exact hcase.imp (Nat.mul_le_mul_right _) (Nat.mul_le_mul_right _)

end Objects

/-! ## Runs -/

/-- the invariant: what is known of the live objects is on the device -/
structure StoreInv (dev : Dev) (geo : Geo) (s : Store) : Prop where
  vol : OnVol dev dev false geo s.sys.fs
  mixed : ∃ F A, Mixed geo s.sys F A
  roomy : FlistsRoom (.single geo) s.sys.fs
  holds : Stores s.sys.cells (· ∈ s.sys.live) s.sys.fs.disk s.known

/-- what xNVMe says of the ranges that it builds -/
def Env.Exact (env : Env) (dev : Dev) : Prop := env.RangesOk dev ∧ env.RangesExact dev

def Store.init (dev : Dev) (geo : Geo) (disk : Bytes) : Store := ⟨.init dev geo disk, fun _ _ => none⟩

section Runs

variable {dev : Dev} {npools slabNlb : ℕ} {geo : Geo} {s t : Store} {async : StrpXfer} {env : Env}

theorem Medium.mounted (hd : Medium dev npools slabNlb geo) (disk : Bytes) :
    Mounted dev dev false npools slabNlb geo (flaMkfs dev geo disk) := hd.formatted.mounted disk

/-- **At the start** nothing is known. -/
theorem Medium.storeInv (hd : Medium dev npools slabNlb geo) (disk : Bytes) : StoreInv dev geo (.init dev geo disk) := by
  refine ⟨(hd.mounted disk).onVol, ⟨_, _, mkfs_mixed hd.formatted hd.nslabs disk⟩,
    ⟨fun _ => hd.room_zero, fun _ _ h => ?_⟩, stores_nothing _ _ _⟩
  cases h

theorem StoreInv.wrote (hd : Medium dev npools slabNlb geo) (h : StoreInv dev geo s) {ndx : ℕ} {obj : Obj} {buf : Bytes}
    {offset len : ℕ} (hin : InObject s.sys ndx obj offset len) {r : ℤ × Bytes}
    (htorn : TornWrite s.sys.fs.disk (s.sys.cells.start (obj, ndx) + offset) buf len r.1 r.2) :
    StoreInv dev geo (s.wrote ndx obj buf offset len r) := by
  obtain ⟨F, A, hm⟩ := h.mixed
  refine ⟨h.vol.setDisk r.2, ⟨F, A, hm.setDisk r.2⟩, ⟨h.roomy.nobj, h.roomy.cached⟩, ?_⟩
  refine h.holds.put hin.live hin.inside (fun a ha hne => hm.apart hd ha hin.live hne) (fun i hi v hv => ?_)
    htorn.outside
  unfold written at hv
  split_ifs at hv with herr
  rw [← Option.some.inj hv]
  exact htorn.done herr i hi

theorem BlocksOf.aligned {s : Sys} {p : ℕ} {o : Obj} {offset len : ℕ} (h : BlocksOf s p o offset len)
    (hgeo : s.fs.geo = geo) : Aligned geo (s.fs.pools.entries p).objNlb offset len := by
  subst hgeo
  exact ⟨h.offset_dvd, h.len_dvd, h.pos, h.inside⟩

theorem StoreInv.write_torn (hd : Medium dev npools slabNlb geo) (h : StoreInv dev geo s) {ndx : ℕ} {obj : Obj}
    {buf : Bytes} {offset len : ℕ} (hin : BlocksOf s.sys ndx obj offset len) (hx : env.Exact dev) {r : ℤ × Bytes}
    (hrun : (flaObjectWrite env async s.sys.fs ndx obj buf offset len).toOption = some r) :
    TornWrite s.sys.fs.disk (s.sys.cells.start (obj, ndx) + offset) buf len r.1 r.2 := by
  obtain ⟨F, A, hm⟩ := h.mixed
  have hgeo : s.sys.fs.geo = geo := h.vol.geo_eq
  have hdev : s.sys.fs.dev = dev := h.vol.devs.1
  have hserved := hm.served hd hdev (hm.live obj ndx hin.live).1
  have htorn := hserved.write_torn (hdev.symm ▸ hx.1) (hm.valid hin.live) (hin.aligned hgeo) (toOption_eq_some hrun)
  unfold Sys.cells
  dsimp only
  rw [hgeo, hm.vol]
  exact htorn

theorem StoreInv.unalignedWrite_torn (hd : Medium dev npools slabNlb geo) (h : StoreInv dev geo s) {ndx : ℕ} {obj : Obj}
    {buf : Bytes} {offset len : ℕ} (hin : InObject s.sys ndx obj offset len) (hx : env.Exact dev) {r : ℤ × Bytes}
    (hrun : (flaObjectUnalignedWrite env s.sys.fs ndx obj buf offset len).toOption = some r) :
    TornWrite s.sys.fs.disk (s.sys.cells.start (obj, ndx) + offset) buf len r.1 r.2 := by
  obtain ⟨F, A, hm⟩ := h.mixed
  have hgeo : s.sys.fs.geo = geo := h.vol.geo_eq
  have hdev : s.sys.fs.dev = dev := h.vol.devs.1
  have hserved := hm.served hd hdev (hm.live obj ndx hin.live).1
  have hsize := hin.inside
  rw [hgeo] at hsize
  obtain ⟨-, -, helba, -⟩ := hm.place hd hin.live
  have hh := hserved.handle (hm.valid hin.live)
  unfold Flexalloc.objNlbOf at hh
  rw [helba] at hh
  have hfit : offset + len ≤ (flaObjectSlba (.single geo) (s.sys.fs.pools.entries ndx).objNlb obj +
      (s.sys.fs.pools.entries ndx).objNlb - flaObjectSlba (.single geo) (s.sys.fs.pools.entries ndx).objNlb obj) *
        s.sys.fs.dev.lbNbytes := by
    rw [Nat.add_sub_cancel_left, hserved.lb]
    exact hsize
  have htorn := hh.unalignedWrite_torn (hdev.symm ▸ hx.1) hin.pos hfit (toOption_eq_some hrun)
  unfold Sys.cells
  dsimp only
  rw [hgeo, hm.vol, ← hserved.lb]
  exact htorn

/-- **Each call keeps the invariant.** -/
theorem StoreInv.step (hd : Medium dev npools slabNlb geo) (h : StoreInv dev geo s) {x : Env × StoreOp}
    (hlegal : StoreLegal s x) (hx : x.1.Exact dev) (hstep : storeStep async s x = some t) : StoreInv dev geo t := by
  obtain ⟨env, op⟩ := x
  obtain ⟨F, A, hm⟩ := h.mixed
  have hg := hd.formatted.volOk hd.nslabs
  have hgeo : s.sys.fs.geo = geo := h.vol.geo_eq
  have hdev : s.sys.fs.dev = dev := h.vol.devs.1
  cases op with
  | call op =>
    obtain ⟨sys, hop, rfl⟩ := Option.map_eq_some_iff.1 hstep
    obtain ⟨hallowed, err, hperf⟩ := step_eq_some hop
    obtain ⟨F', A', hm'⟩ := hm.perform hg hlegal hallowed hperf
    obtain ⟨c, res, hc, hcall⟩ := perform_call hperf
    obtain ⟨hvol, hroomy⟩ := h.roomy.effects (fun _ _ => hd.room) h.vol hd.single
      (baseCall_effects (linksIn_true s.sys.fs) hcall)
    refine ⟨hvol, ⟨F', A', hm'⟩, hroomy, ?_⟩
    dsimp only
    rw [(baseCall_disks hc hcall).1]
    refine h.holds.restrict fun o ho _ => ?_
    have hnlb := hm.objNlb (hm.npools_le hg) hlegal.1 hperf (hm.live o.1 o.2 ho).1
    unfold Sys.cells
    dsimp only
    rw [hnlb, hvol.geo_eq, hgeo, hm'.vol, hm.vol]
    exact ⟨rfl, rfl⟩
  | sync =>
    obtain ⟨⟨err, fs'⟩, hsync, rfl⟩ := Option.map_eq_some_iff.1 hstep
    have hflush : flaFlush env s.sys.fs = .ok (err, fs') := toOption_eq_some hsync
    have hfl := flush_flushed hflush
    have hcall : baseCall env s.sys.fs .sync = .ok (.of err .done, fs') := by
      rw [baseCall, flaBaseSync, hflush, ok_bind]
    obtain ⟨hvol, hroomy⟩ := h.roomy.effects (fun _ _ => hd.room) h.vol hd.single
      (baseCall_effects (linksIn_true s.sys.fs) hcall)
    refine ⟨hvol, ⟨F, A, hm.flushed hfl⟩, hroomy, ?_⟩
    obtain ⟨base, hg', hbase, rfl⟩ := hd.unwrapped
    have hfit : FlistsFit dev (.single geo) s.sys.fs := ⟨hm.vol, hdev, fun x _ buf hb => h.roomy.cached x buf hb⟩
    have hcells : (⟨fs', s.sys.live⟩ : Sys).cells = s.sys.cells := by
      obtain ⟨n, hpools⟩ := hfl.pools
      unfold Sys.cells Flexalloc.geo
      rw [hpools, hfl.vol]
    rw [hcells]
    refine h.holds.frame fun o ho i hi => ?_
    obtain ⟨hslab, hclean⟩ := hm.object_byte hd hg' (o := o.1) (p := o.2) ho hi
    exact flush_frame hg' hx.2 hfit hd.nblocks_pos hbase hflush hslab hclean
  | write ndx obj buf offset len =>
    obtain ⟨r, hrun, rfl⟩ := Option.map_eq_some_iff.1 hstep
    have hin : BlocksOf s.sys ndx obj offset len := hlegal
    exact h.wrote hd hin.toInObject (h.write_torn hd hin hx hrun)
  | unalignedWrite ndx obj buf offset len =>
    obtain ⟨r, hrun, rfl⟩ := Option.map_eq_some_iff.1 hstep
    exact h.wrote hd hlegal (h.unalignedWrite_torn hd hlegal hx hrun)

/-- **A read** that returns 0 returns what is known of the bytes of the object. -/
theorem Served.read_known {fs : Flexalloc} {p : ℕ} {o : Obj} {offset len : ℕ} (h : Served geo fs fun _ => p)
    (hr : env.RangesOk fs.dev) (hv : ValidObj geo fs (fun _ => p) o)
    (ha : Aligned geo (fs.pools.entries p).objNlb offset len) {known : ℕ → Option UInt8}
    (hk : ∀ i v, known i = some v → fs.disk (objStart geo fs (fun _ => p) o + i) = v) {out out' : Bytes}
    (hrun : flaObjectRead env async fs p o out offset len = .ok (0, out')) {i : ℕ} (hi : i < len) {v : UInt8}
    (hval : known (offset + i) = some v) : out' i = v := by
  obtain ⟨range, hle, h63, hstart, -, hbytes, hread⟩ := h.read hr hv ha async
  have hseq : flaXneSyncSeqRXneio env fs.dev range fs.disk out = .ok (0, out') := (hread fs.disk out).symm.trans hrun
  rw [seqR_spec (seqR_mdts hle h63 hseq) h63 hseq, hstart, hbytes, copyBytes_of_mem (Nat.zero_le i) (by omega),
    Nat.sub_zero, Nat.add_assoc]
  exact hk _ v hval

/-- **A read** whose commands succeed returns 0. -/
theorem Served.read_works {fs : Flexalloc} {p : ℕ} {o : Obj} {offset len : ℕ} (h : Served geo fs fun _ => p)
    (hr : env.RangesOk fs.dev) (hv : ValidObj geo fs (fun _ => p) o)
    (ha : Aligned geo (fs.pools.entries p).objNlb offset len) (hok : ∀ b, env.nvmRead b = 0)
    (hmdts : 0 < flaXneCalcMdtsNaddrs fs.dev) (out : Bytes) :
    ∃ out', flaObjectRead env async fs p o out offset len = .ok (0, out') := by
  obtain ⟨range, hle, h63, -, -, -, hread⟩ := h.read hr hv ha async
  obtain ⟨out', hout⟩ := seqR_ok hmdts h63 hle hok fs.disk out
  exact ⟨out', (hread fs.disk out).trans hout⟩

/-- what clients can rely on -/
structure Serves (dev : Dev) (async : StrpXfer) (s : Store) : Prop where
  /-- nothing is known but of bytes of live objects -/
  inside : ∀ o p i v, s.known (o, p) i = some v →
    (o, p) ∈ s.sys.live ∧ i < (s.sys.fs.pools.entries p).objNlb * s.sys.fs.geo.lbNbytes
  /-- a read that returns 0 returns what is known -/
  read : ∀ o p offset len, BlocksOf s.sys p o offset len → ∀ env : Env, env.RangesOk dev → ∀ out out',
    flaObjectRead env async s.sys.fs p o out offset len = .ok (0, out') →
      ∀ i < len, ∀ v, s.known (o, p) (offset + i) = some v → out' i = v
  /-- a read whose commands succeed returns 0 -/
  works : ∀ o p offset len, BlocksOf s.sys p o offset len → ∀ env : Env, env.RangesOk dev → (∀ b, env.nvmRead b = 0) →
    0 < flaXneCalcMdtsNaddrs dev → ∀ out, ∃ out', flaObjectRead env async s.sys.fs p o out offset len = .ok (0, out')

theorem StoreInv.serves (hd : Medium dev npools slabNlb geo) (h : StoreInv dev geo s) : Serves dev async s := by
  obtain ⟨F, A, hm⟩ := h.mixed
  have hgeo : s.sys.fs.geo = geo := h.vol.geo_eq
  have hdev : s.sys.fs.dev = dev := h.vol.devs.1
  refine ⟨fun o p i v hv => h.holds.inside (o, p) i v hv, fun o p offset len hb env hr out out' hrun i hi v hv => ?_,
    fun o p offset len hb env hr hok hmdts out => ?_⟩
  · have hserved := hm.served hd hdev (hm.live o p hb.live).1
    have hcell : objStart geo s.sys.fs (fun _ => p) o = s.sys.cells.start (o, p) := by
      unfold Sys.cells
      dsimp only
      rw [hgeo, hm.vol]
      rfl
    have hk : ∀ j w, s.known (o, p) j = some w → s.sys.fs.disk (objStart geo s.sys.fs (fun _ => p) o + j) = w := by
      rw [hcell]
      exact h.holds.same (o, p)
    exact hserved.read_known (hdev.symm ▸ hr) (hm.valid hb.live) (hb.aligned hgeo) hk hrun hi hv
  · exact (hm.served hd hdev (hm.live o p hb.live).1).read_works (hdev.symm ▸ hr) (hm.valid hb.live) (hb.aligned hgeo) hok
      (hdev.symm ▸ hmdts) out

/-- **Every run keeps the invariant.** -/
theorem Medium.reached (hd : Medium dev npools slabNlb geo) (disk : Bytes) {calls : List (Env × StoreOp)}
    (henv : ∀ x ∈ calls, x.1.Exact dev) (hlegal : along StoreLegal (storeStep async) (.init dev geo disk) calls)
    (hrun : run (storeStep async) (.init dev geo disk) calls = some s) : StoreInv dev geo s :=
  run_inv_along (fun _ _ _ h hx hr hstep => h.step hd hx hr hstep) (hd.storeInv disk) henv hlegal hrun

/-- **The store.** In every state reached each live object reads as what was last written to it, whatever else was
created, destroyed, written and synced since, and whatever failed. -/
theorem object_store (hd : Medium dev npools slabNlb geo) (disk : Bytes) {calls : List (Env × StoreOp)}
    (henv : ∀ x ∈ calls, x.1.Exact dev) (hlegal : along StoreLegal (storeStep async) (.init dev geo disk) calls)
    (hrun : run (storeStep async) (.init dev geo disk) calls = some s) : Serves dev async s := by
  exact (hd.reached disk henv hlegal hrun).serves hd

/-- two objects, of which the first is written and written over in part while the other comes and the system is synced -/
def storeCalls : List (Env × StoreOp) :=
  [.call (.poolCreate (smallArg 97 1)), .call (.objectCreate 0), .write 0 ⟨0, 0⟩ (fun _ => 1) 0 512, .sync,
    .call (.objectCreate 0), .write 0 ⟨0, 1⟩ (fun _ => 3) 0 512, .unalignedWrite 0 ⟨0, 0⟩ (fun _ => 2) 3 5,
    .call (.objectDestroy 0 ⟨0, 1⟩)].map (Env.reliable, ·)

theorem storeCalls_exact : ∀ x ∈ storeCalls, x.1.Exact smallDev := by
  intro x hx
  obtain ⟨op, -, rfl⟩ := List.mem_map.1 hx
  exact ⟨reliable_rangesOk _, reliable_rangesExact _⟩

theorem small_medium : Medium smallDev 2 8 smallGeo :=
  ⟨smallGeo_formatted, by decide +kernel, by decide +kernel, by decide, by decide +kernel⟩

theorem object_store_small : ∃ s, run (storeStep fun _ _ b => .ok (0, b)) (.init smallDev smallGeo 0) storeCalls = some s ∧
    s.known (⟨0, 0⟩, 0) 2 = some 1 ∧ s.known (⟨0, 0⟩, 0) 3 = some 2 ∧ s.known (⟨0, 1⟩, 0) 0 = none ∧
      Serves smallDev (fun _ _ b => .ok (0, b)) s := by
  obtain ⟨s, hrun, hval⟩ := Option.map_eq_some_iff.1 (show (run (storeStep fun _ _ b => .ok (0, b))
    (.init smallDev smallGeo 0) storeCalls).map (fun s => (s.known (⟨0, 0⟩, 0) 2, s.known (⟨0, 0⟩, 0) 3,
      s.known (⟨0, 1⟩, 0) 0)) = some (some 1, some 2, none) by decide +kernel)
  simp only [Prod.mk.injEq] at hval
  exact ⟨s, hrun, hval.1, hval.2.1, hval.2.2, object_store small_medium 0 storeCalls_exact (by decide +kernel) hrun⟩

end Runs

end FlexAlloc
