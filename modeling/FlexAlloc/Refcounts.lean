/-
Reference counts of slabs, with clients that destroy what they like.

`fla_slab_cache_obj_free` frees an entry whether or not it is reserved, and `fla_base_object_destroy` then takes one off
the count of the slab. The two agree only while no destroy names an entry that is free already.

- `refcounts_count_reserved`: in every run of a system with one pool, and at most 2^31 objects in a slab, whose destroys
  name an entry that is reserved or one that is refused (no such slab, slab not cached, index past the freelist), the
  count of each slab is the number of its reserved entries, and a destroy of anything else is refused with no effect.
- `double_destroy_wraps`: an object is destroyed twice.
-/
import FlexAlloc.FreeSlabs
import FlexAlloc.FreelistRuns

namespace FlexAlloc

open FlexAlloc.Core

/-- the object's entry is reserved -/
def Allocated (fs : Flexalloc) (obj : Obj) : Prop :=
  (fs.cache obj.slabId).state ≠ .stale ∧ ∃ buf ∈ (fs.cache obj.slabId).freelist, obj.entryNdx ∈ buf.flist.reserved

/-- no such slab, a slab that is not cached, or an index past its freelist -/
def Refusable (fs : Flexalloc) (obj : Obj) : Prop :=
  fs.nslabs ≤ obj.slabId ∨ (fs.cache obj.slabId).state = .stale ∨
    ∃ buf ∈ (fs.cache obj.slabId).freelist, buf.flist.len < obj.entryNdx

instance (fs : Flexalloc) (obj : Obj) : Decidable (Allocated fs obj) := inferInstanceAs (Decidable (_ ∧ _))

instance (fs : Flexalloc) (obj : Obj) : Decidable (Refusable fs obj) := inferInstanceAs (Decidable (_ ∨ _ ∨ _))

/-- a call on the objects of pool 0, with any handle -/
inductive ObjOp where
  | create
  | destroy (obj : Obj)
deriving DecidableEq, Repr

def objCall (env : Env) (fs : Flexalloc) : ObjOp → Ret (ℤ × Flexalloc)
  | .create => do
    let (err, _, fs) ← flaBaseObjectCreate env fs 0
    .ok (err, fs)
  | .destroy obj => flaBaseObjectDestroy env fs 0 obj

/-- a call that returns; the index of a handle is a `uint32_t` -/
def ObjOp.Legal : ObjOp → Prop
  | .create => True
  | .destroy obj => obj.entryNdx < 2 ^ 32

instance ObjOp.decidableLegal : (op : ObjOp) → Decidable op.Legal
  | .create => inferInstanceAs (Decidable True)
  | .destroy obj => inferInstanceAs (Decidable (obj.entryNdx < 2 ^ 32))

def objStep (fs : Flexalloc) (x : Env × ObjOp) : Option Flexalloc :=
  if x.2.Legal then (objCall x.1 fs x.2).toOption.map (·.2) else none

theorem objStep_eq_some {fs fs' : Flexalloc} {x : Env × ObjOp} (h : objStep fs x = some fs') :
    x.2.Legal ∧ ∃ err, objCall x.1 fs x.2 = .ok (err, fs') := by
  unfold objStep at h
  split_ifs at h with hlegal
  obtain ⟨⟨err, t⟩, hcall, rfl⟩ := Option.map_eq_some_iff.1 h
  exact ⟨hlegal, err, toOption_eq_some hcall⟩

/-- what keeps the counts right: entries are taken with indices that fit an `int`, and the entries given back are
reserved, or refused -/
def Counted (fs : Flexalloc) : ObjOp → Prop
  | .create => (fs.pools.entries 0).slabNobj ≤ 2 ^ 31
  | .destroy obj => Allocated fs obj ∨ Refusable fs obj

instance (fs : Flexalloc) : (op : ObjOp) → Decidable (Counted fs op)
  | .create => inferInstanceAs (Decidable ((fs.pools.entries 0).slabNobj ≤ 2 ^ 31))
  | .destroy obj => inferInstanceAs (Decidable (Allocated fs obj ∨ Refusable fs obj))

/-! ## One call -/

section Call

variable {v : Volume} {tight sharp : Prop} {s : Sys} {L : Option SlabKind → List ℕ} {x : ℕ} {obj : Obj} {env : Env}

theorem Owned.cached_listed (ho : Owned v tight sharp s L) (hx : (s.fs.cache x).state ≠ .stale) :
    ∃ k, x ∈ L (some k) := by
  by_contra hnone
  exact hx (ho.free x fun k hk => hnone ⟨k, hk⟩)

/-- the objects that exist are the reserved entries -/
theorem Owned.allocated_iff (ho : Owned v tight True s L) : Allocated s.fs obj ↔ (obj, 0) ∈ s.live := by
  constructor
  · rintro ⟨hst, buf, hbuf, hres⟩
    obtain ⟨k, hk⟩ := ho.cached_listed hst
    obtain ⟨buf', hbuf', hlen, -, -, hlive⟩ := (ho.slab k _ hk).flist
    obtain rfl : buf' = buf := Option.some.inj (hbuf'.symm.trans hbuf)
    obtain ⟨hlt, htaken⟩ := mem_reserved.1 hres
    exact hlive trivial obj.entryNdx (hlen ▸ hlt) htaken
  · intro hm
    obtain ⟨-, hlt, k, hk⟩ := ho.live obj 0 hm
    have hs := ho.slab k _ hk
    obtain ⟨buf, hbuf, hlen, -, htaken, -⟩ := hs.flist
    exact ⟨hs.cached, buf, hbuf, mem_reserved.2 ⟨hlen ▸ hlt, htaken _ hlt hm⟩⟩

/-- **The count of a slab** is the number of reserved entries of its freelist. -/
theorem Owned.refcount_eq (hg : VolOk v) (ho : Owned v tight True s L) (hst : (s.fs.cache x).state ≠ .stale)
    {buf : FlistBuf} (hbuf : (s.fs.cache x).freelist = some buf) :
    (s.fs.header x).refcount = flaFlistNumReserved buf.flist := by
  obtain ⟨k, hk⟩ := ho.cached_listed hst
  have hs := ho.slab k x hk
  obtain ⟨buf', hbuf', hlen, hok, htaken, hlive⟩ := hs.flist
  obtain rfl : buf' = buf := Option.some.inj (hbuf'.symm.trans hbuf)
  have hzero : ∀ o p, (o, p) ∈ s.live → p = 0 := fun o p h => (ho.live o p h).1
  have hperm : (liveEntries s.live x).Perm buf'.flist.reserved := by
    rw [List.perm_ext_iff_of_nodup (liveEntries_nodup x ho.nodup hzero) (reserved_nodup _)]
    intro i
    rw [mem_liveEntries hzero, mem_reserved, hlen]
    constructor
    · intro hm
      have hlt := (ho.live _ _ hm).2.1
      exact ⟨hlt, htaken i hlt hm⟩
    · rintro ⟨hlt, hf⟩
      exact hlive trivial i hlt hf
  rw [numReserved_eq hok (hlen ▸ ho.nobj_lt hg), hs.refcount, liveIn_eq_length, hperm.length_eq]

theorem entriesFree_past {fl : Freelist} {ndx : ℕ} (h : fl.len < ndx) (hu : ndx < 2 ^ 32) :
    flaFlistEntriesFree fl ndx 1 = .ok (-1, fl) := by
  simp only [flaFlistEntriesFree, u32_of_lt hu, entryFree_past h]
  rfl

theorem csObjectDestroy_ok {fs : Flexalloc} (hd : Dir fs) (hp : fs.PoolLive 0) (env : Env) (obj : Obj) :
    ∃ err, csObjectDestroy env fs 0 obj = .ok err := by
  unfold csObjectDestroy
  cases fs.vol.cs with
  | cns => exact ⟨0, rfl⟩
  | zns nzsect =>
    dsimp only
    rw [zndManageZonesObjectReset, hd.entryAt hp, ok_bind, hd.fncAt hp, ok_bind]
    exact ⟨_, rfl⟩

/-- **A destroy that is refused** changes nothing. -/
theorem Owned.destroy_refused (hg : VolOk v) (ho : Owned v tight sharp s L) (hp : s.fs.PoolLive 0)
    (hu : obj.entryNdx < 2 ^ 32) (hr : Refusable s.fs obj) (env : Env) :
    ∃ err, flaBaseObjectDestroy env s.fs 0 obj = .ok (err, s.fs) ∧ err ≠ 0 := by
  obtain ⟨e, hcs⟩ := csObjectDestroy_ok ho.dir hp env obj
  unfold flaBaseObjectDestroy
  rw [hcs, ok_bind]
  by_cases he : e ≠ 0
  · rw [if_pos he]
    exact ⟨e, rfl, he⟩
  rw [if_neg he]
  by_cases hlt : s.fs.nslabs ≤ obj.slabId
  · have hck : flaSlabRangeCheckId s.fs.nslabs obj.slabId = true := by
      have hpos := hg.nslabs_pos
      rw [ho.nslabs] at hlt ⊢
      rw [flaSlabRangeCheckId, sub32_of_le (by omega) (nslabs_lt hg.nslabs_le)]
      exact decide_eq_true (by omega)
    rw [hck, if_pos rfl]
    exact ⟨1, rfl, by decide⟩
  have hck : flaSlabRangeCheckId s.fs.nslabs obj.slabId = false := by
    refine rangeCheck_of_lt ?_ (not_le.1 hlt)
    rw [ho.nslabs]
    exact nslabs_lt hg.nslabs_le
  have hbest := bestSlabList_eq (ho.pool obj.slabId) (ho.dir.entryAt hp) (ho.dir.fncAt hp)
  have hone : s.fs.numFlaObjsAt .dflt 0 = .ok 1 := rfl
  rw [hck, if_neg Bool.false_ne_true, hbest, ok_bind, ho.pool, ho.dir.fncAt hp, ok_bind, hone, ok_bind,
    flaSlabCacheObjFree]
  dsimp only
  by_cases hst : (s.fs.cache obj.slabId).state = .stale
  · rw [if_pos hst, ok_bind]
    dsimp only
    rw [if_pos (by decide)]
    exact ⟨flaSlabCacheInvalidState, rfl, by decide⟩
  · obtain ⟨buf, hbuf, hpast⟩ := (hr.resolve_left hlt).resolve_left hst
    have hbuf' : (s.fs.cache obj.slabId).freelist = some buf := hbuf
    have hself : s.fs.setElem obj.slabId ⟨(s.fs.cache obj.slabId).state, some { buf with flist := buf.flist }⟩ = s.fs := by
      have : (⟨(s.fs.cache obj.slabId).state, some buf⟩ : CacheElem) = s.fs.cache obj.slabId := by rw [← hbuf']
      simp [Flexalloc.setElem, this]
    rw [if_neg hst, hbuf']
    dsimp only
    rw [entriesFree_past hpast hu]
    dsimp only
    rw [if_pos (by decide), ok_bind]
    dsimp only
    rw [if_pos (by decide), hself]
    exact ⟨-1, rfl, by decide⟩

/-- **One call** that is counted keeps the counts right. -/
theorem objCall_owned (hg : VolOk v) (ho : Owned v False True s L) (hp : s.fs.PoolLive 0) {op : ObjOp}
    (hlegal : op.Legal) (hcounted : Counted s.fs op) {err : ℤ} {fs' : Flexalloc}
    (h : objCall env s.fs op = .ok (err, fs')) :
    fs'.PoolLive 0 ∧ ∃ live' L', Owned v False True ⟨fs', live'⟩ L' := by
  cases op with
  | create =>
    obtain ⟨err₁, o, fs₁, hrun, hsame, hcase⟩ := objectCreate_owned hg ho hp env
    obtain ⟨⟨err₂, o₂, fs₂⟩, hrun', hres⟩ := bind_eq_ok h
    rw [hrun] at hrun'
    cases hrun'
    cases hres
    refine ⟨(hsame.poolLive 0).2 hp, ?_⟩
    rcases hcase with ⟨-, o', L', -, -, -, ho'⟩ | ⟨-, L', ho', -⟩
    · exact ⟨_, L', ho'⟩
    · exact ⟨_, L', ho'.mono False.elim fun _ => ⟨trivial, hcounted⟩⟩
  | destroy obj =>
    have hrun : flaBaseObjectDestroy env s.fs 0 obj = .ok (err, fs') := h
    rcases hcounted with halloc | hrefused
    · have hm := ho.allocated_iff.1 halloc
      rcases objectDestroy_refused hrun with hcs | ⟨-, rfl⟩
      · obtain ⟨fs₁, L', hrun₁, hsame, ho'⟩ := objectDestroy_owned hg ho hp hm hcs
        rw [hrun₁] at hrun
        cases hrun
        exact ⟨(hsame.poolLive 0).2 hp, _, L', ho'⟩
      · exact ⟨hp, _, L, ho⟩
    · obtain ⟨err₁, hrun₁, -⟩ := ho.destroy_refused hg hp hlegal hrefused env
      rw [hrun₁] at hrun
      cases hrun
      exact ⟨hp, _, L, ho⟩

end Call

/-! ## Runs -/

/-- the counts of all cached slabs are right and cannot wrap, and destroying what is not allocated is refused -/
structure RefcountsOk (fs : Flexalloc) : Prop where
  count : ∀ x buf, (fs.cache x).state ≠ .stale → (fs.cache x).freelist = some buf →
    (fs.header x).refcount = flaFlistNumReserved buf.flist
  noWrap : ∀ obj, Allocated fs obj → 1 ≤ (fs.header obj.slabId).refcount
  refused : ∀ (env : Env) obj, obj.entryNdx < 2 ^ 32 → Counted fs (.destroy obj) → ¬ Allocated fs obj →
    ∃ err, flaBaseObjectDestroy env fs 0 obj = .ok (err, fs) ∧ err ≠ 0

theorem Owned.refcountsOk {v : Volume} {s : Sys} {L : Option SlabKind → List ℕ} (hg : VolOk v)
    (ho : Owned v False True s L) (hp : s.fs.PoolLive 0) : RefcountsOk s.fs where
  count x buf hst hbuf := ho.refcount_eq hg hst hbuf
  noWrap obj halloc := by
    have hm := ho.allocated_iff.1 halloc
    obtain ⟨-, -, k, hk⟩ := ho.live obj 0 hm
    rw [(ho.slab k _ hk).refcount]
    exact List.countP_pos_iff.2 ⟨_, hm, by simp⟩
  refused env obj hu hcounted hnot := ho.destroy_refused hg hp hu (hcounted.resolve_left hnot) env

/-- **Reference counts count reserved entries.** A system has one pool, at most 2^31 - 1 slabs and at most 2^31 objects
in a slab. In every run of creates and destroys with any handles, each destroy naming a reserved entry or one that is
refused, the counts are right in every state reached. Commands and allocations may fail. -/
theorem refcounts_count_reserved {dev mdDev : Dev} {hasMd : Bool} {npools slabNlb : ℕ} {geo : Geo} {fs₀ fs₁ fs : Flexalloc}
    (hm : Mounted dev mdDev hasMd npools slabNlb geo fs₀) (hn : geo.nslabs ≤ flaLinkedListNull) {env₀ : Env}
    {arg : PoolCreateArg} {handle : Option PoolHandle} (hcreate : flaBasePoolCreate env₀ fs₀ arg = .ok (0, handle, fs₁))
    (hpool : fs₁.PoolLive 0) {calls : List (Env × ObjOp)}
    (hrun : run (guard (fun fs x => Counted fs x.2) objStep) fs₁ calls = some fs) : RefcountsOk fs := by
  have hg := volOk_of_accepted hm.accepted hm.slabNlb_lt hn
  have ho₀ := fresh_owned (s := ⟨fs₀, []⟩) hg hm.fresh rfl
  obtain ⟨-, ho₁⟩ := poolCreate_owned hg ho₀ hcreate
  have hinv : fs.PoolLive 0 ∧ ∃ live L, Owned (.formatted dev hasMd geo) False True ⟨fs, live⟩ L := by
    refine run_inv (P := fun fs => fs.PoolLive 0 ∧ ∃ live L, Owned (.formatted dev hasMd geo) False True ⟨fs, live⟩ L)
      (fun fs x fs' hfs hstep => ?_) ⟨hpool, _, _, ho₁.mono False.elim id⟩ hrun
    obtain ⟨hp, live, L, ho⟩ := hfs
    obtain ⟨hcounted, hst⟩ := guard_eq_some hstep
    obtain ⟨hlegal, err, hcall⟩ := objStep_eq_some hst
    exact objCall_owned (s := ⟨fs, live⟩) hg ho hp hlegal hcounted hcall
  obtain ⟨hp, live, L, ho⟩ := hinv
  exact ho.refcountsOk hg hp

/-- two objects are created, the first one is destroyed, and two handles that name no object are refused -/
theorem refcounts_count_reserved_small : ∃ fs₁ fs h, flaBasePoolCreate .reliable (flaMkfs smallDev smallGeo 0)
      (smallArg 97 1) = .ok (0, h, fs₁) ∧
    run (guard (fun fs x => Counted fs x.2) objStep) fs₁ ([.create, .create, .destroy ⟨0, 0⟩, .destroy ⟨0, 100⟩,
      .destroy ⟨3, 0⟩].map (Env.reliable, ·)) = some fs ∧ (fs.header 0).refcount = 1 ∧ RefcountsOk fs := by
  obtain ⟨⟨err, h, fs₁⟩, hrun₁, hval⟩ := Option.map_eq_some_iff.1 (show (flaBasePoolCreate .reliable
      (flaMkfs smallDev smallGeo 0) (smallArg 97 1)).toOption.map (fun r => (r.1, decide (r.2.2.PoolLive 0),
        (run (guard (fun fs x => Counted fs x.2) objStep) r.2.2 ([.create, .create, .destroy ⟨0, 0⟩, .destroy ⟨0, 100⟩,
          .destroy ⟨3, 0⟩].map (Env.reliable, ·))).map fun fs => (fs.header 0).refcount)) =
      some (0, true, some 1) by decide +kernel)
  simp only [Prod.mk.injEq, decide_eq_true_eq] at hval
  obtain ⟨rfl, hlive, hrun⟩ := hval
  obtain ⟨fs, hfs, hcount⟩ := Option.map_eq_some_iff.1 hrun
  have hcreate := toOption_eq_some hrun₁
  exact ⟨fs₁, fs, h, hcreate, hfs, hcount,
    refcounts_count_reserved small_mounted (by decide +kernel) hcreate hlive hfs⟩

/-- An object is created and destroyed twice. Both calls return 0: the count has wrapped, the freelist has no reserved
entry, and the slab is in the list of partly used ones. -/
theorem double_destroy_wraps : ∃ fs₁ fs h buf, flaBasePoolCreate .reliable (flaMkfs smallDev smallGeo 0)
      (smallArg 97 1) = .ok (0, h, fs₁) ∧
    run objStep fs₁ ([.create, .destroy ⟨0, 0⟩, .destroy ⟨0, 0⟩].map (Env.reliable, ·)) = some fs ∧
    (fs.header 0).refcount = 2 ^ 32 - 1 ∧ (fs.pools.entries 0).partialSlabs = 0 ∧
    (fs.cache 0).freelist = some buf ∧ flaFlistNumReserved buf.flist = 0 ∧ ¬ RefcountsOk fs := by
  obtain ⟨⟨err, h, fs₁⟩, hrun₁, hval⟩ := Option.map_eq_some_iff.1 (show (flaBasePoolCreate .reliable
      (flaMkfs smallDev smallGeo 0) (smallArg 97 1)).toOption.map (fun r => (r.1,
        (run objStep r.2.2 ([.create, .destroy ⟨0, 0⟩, .destroy ⟨0, 0⟩].map (Env.reliable, ·))).map fun fs =>
          decide ((fs.header 0).refcount = 2 ^ 32 - 1 ∧ (fs.pools.entries 0).partialSlabs = 0 ∧
            (fs.cache 0).state ≠ .stale ∧ ∃ buf ∈ (fs.cache 0).freelist, flaFlistNumReserved buf.flist = 0))) =
      some (0, some true) by decide +kernel)
  simp only [Prod.mk.injEq] at hval
  obtain ⟨rfl, hrun⟩ := hval
  obtain ⟨fs, hfs, hvals⟩ := Option.map_eq_some_iff.1 hrun
  obtain ⟨hcount, hpart, hst, buf, hbuf, hzero⟩ := of_decide_eq_true hvals
  refine ⟨fs₁, fs, h, buf, toOption_eq_some hrun₁, hfs, hcount, hpart, hbuf, hzero, fun hok => ?_⟩
  have heq := hok.count 0 buf hst hbuf
  rw [hcount, hzero] at heq
  exact absurd heq (by decide)

end FlexAlloc
