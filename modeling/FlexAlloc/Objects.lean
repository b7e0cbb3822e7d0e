/-
Creating, opening and destroying objects (`flexalloc_mm.c`), and the command-set hooks they call (`flexalloc_cs_cns.c`,
`flexalloc_cs_zns.c`).

Which of its pool's lists a slab belongs in is read from the pool named in the slab's header
(`fla_pool_best_slab_list`), not from the pool handle of the call.
-/
import FlexAlloc.Slab

namespace FlexAlloc

/-- `fla_pool_num_fla_objs_default`, `fla_pool_num_fla_objs_strp` -/
def EntryFnc.numFlaObjs : EntryFnc → PoolEntry → ℕ
  | .dflt, _ => 1
  | .strp, e => e.strpNobjs

/-- `fla_pool_num_fla_objs` of entry `ndx`: only the function for striped pools reads the entry -/
def Flexalloc.numFlaObjsAt (fs : Flexalloc) (fnc : EntryFnc) (ndx : ℕ) : Ret ℕ :=
  match fnc with
  | .dflt => .ok 1
  | .strp => do
    let e ← fs.entryAt ndx
    .ok e.strpNobjs

theorem numFlaObjsAt_entry {fs : Flexalloc} {ndx : ℕ} {e : PoolEntry} (fnc : EntryFnc) (h : fs.entryAt ndx = .ok e) :
    fs.numFlaObjsAt fnc ndx = .ok (fnc.numFlaObjs e) := by
  cases fnc with
  | dflt => rfl
  | strp => rw [Flexalloc.numFlaObjsAt, h, ok_bind, EntryFnc.numFlaObjs]

theorem numFlaObjsAt_eq {fs : Flexalloc} {ndx n : ℕ} {fnc : EntryFnc} (h : fs.numFlaObjsAt fnc ndx = .ok n) :
    n = fnc.numFlaObjs (fs.pools.entries ndx) := by
  cases fnc with
  | dflt => exact (Except.ok.inj h).symm
  | strp =>
    obtain ⟨e, he, h⟩ := bind_eq_ok h
    rw [EntryFnc.numFlaObjs, ← entryAt_eq he]
    exact (Except.ok.inj h).symm

/-- `fla_pool_best_slab_list`: the pool and the list -/
def flaPoolBestSlabList (fs : Flexalloc) (slab : ℕ) : Ret (ℕ × SlabKind) :=
  let h := fs.header slab
  match fs.entryAt h.pool, fs.fncAt h.pool with
  | .ok e, .ok fnc =>
    .ok (h.pool,
      if h.refcount = 0 then .empty
      else if e.slabNobj < u32 (h.refcount + fnc.numFlaObjs e) then .full
      else .part)
  | .error f, _ => .error f
  | _, .error f => .error f

/-- `fla_slab_next_available_obj`: the return value, the object, and the system -/
def flaSlabNextAvailableObj (fs : Flexalloc) (slab numObjs : ℕ) : Ret (ℤ × Option Obj × Flexalloc) :=
  if flaSlabRangeCheckId fs.nslabs slab then .ok (1, none, fs)
  else
    match flaSlabCacheObjAlloc fs slab numObjs with
    | .error f => .error f
    | .ok (err, obj, fs) =>
      if err ≠ 0 then .ok (err, obj, fs)
      else
        let h := fs.header slab
        match fs.entryAt h.pool, fs.fncAt h.pool with
        | .ok e, .ok fnc => .ok (0, obj, fs.setHeader slab { h with refcount := u32 (h.refcount + fnc.numFlaObjs e) })
        | .error f, _ => .error f
        | _, .error f => .error f

theorem nextAvailableObj_failed {fs fs₁ : Flexalloc} {slab numObjs : ℕ} {err : ℤ} {obj : Option Obj}
    (hr : flaSlabRangeCheckId fs.nslabs slab = false) (herr : err ≠ 0)
    (halloc : flaSlabCacheObjAlloc fs slab numObjs = .ok (err, obj, fs₁)) :
    flaSlabNextAvailableObj fs slab numObjs = .ok (err, obj, fs₁) := by
  unfold flaSlabNextAvailableObj
  rw [hr, if_neg Bool.false_ne_true, halloc]
  exact if_pos herr

theorem nextAvailableObj_done {fs fs₁ : Flexalloc} {slab numObjs : ℕ} {obj : Option Obj} {e : PoolEntry}
    {fnc : EntryFnc} (hr : flaSlabRangeCheckId fs.nslabs slab = false)
    (hent : fs₁.entryAt (fs₁.header slab).pool = .ok e) (hfnc : fs₁.fncAt (fs₁.header slab).pool = .ok fnc)
    (halloc : flaSlabCacheObjAlloc fs slab numObjs = .ok (0, obj, fs₁)) :
    flaSlabNextAvailableObj fs slab numObjs = .ok (0, obj, fs₁.setHeader slab
      { fs₁.header slab with refcount := u32 ((fs₁.header slab).refcount + fnc.numFlaObjs e) }) := by
  unfold flaSlabNextAvailableObj
  rw [hr, if_neg Bool.false_ne_true, halloc]
  dsimp only
  rw [if_neg (by simp), hent, hfnc]

/-- take the slab out of one list and put it in front of another -/
def moveSlab (fs : Flexalloc) (slab : ℕ) (src dst : ℕ × SlabKind) : ℤ × Flexalloc :=
  let (err, fs) := fs.onList src.1 src.2 fun hd head => flaHdllRemove fs.nslabs hd slab head
  if err ≠ 0 then (err, fs) else fs.onList dst.1 dst.2 fun hd head => flaHdllPrepend fs.nslabs hd slab head

/-- the second half of `fla_base_object_create`: take an entry of `slab` for pool `ndx` -/
def objectCreateIn (env : Env) (fs : Flexalloc) (ndx slab : ℕ) : Ret (ℤ × Option Obj × Flexalloc) :=
  if flaSlabRangeCheckId fs.nslabs slab then .ok (1, none, fs)
  else do
    let (err, fs) ← flaSlabCacheElemLoad env fs slab (fs.pools.entries ndx).slabNobj
    -- a cache entry that is already loaded is not an error
    if err ≠ 0 ∧ err ≠ flaSlabCacheInvalidState then .ok (err, none, fs)
    else
      let fromHead ← flaPoolBestSlabList fs slab
      let fnc ← fs.fncAt (fs.header slab).pool
      let numFlaObjs := fnc.numFlaObjs (fs.pools.entries ndx)
      let (err, obj, fs) ← flaSlabNextAvailableObj fs slab numFlaObjs
      if err ≠ 0 then .ok (err, obj, fs)
      else
        let toHead ← flaPoolBestSlabList fs slab
        if fromHead = toHead then .ok (0, obj, fs)
        else
          let (err, fs) := moveSlab fs slab fromHead toHead
          .ok (err, obj, fs)

section CreateIn

variable {env : Env} {fs fs₁ : Flexalloc} {ndx slab : ℕ} {err : ℤ} {obj : Option Obj} {fnc : EntryFnc}
variable {src dst : ℕ × SlabKind} (hr : flaSlabRangeCheckId fs.nslabs slab = false)
variable (hst : (fs.cache slab).state ≠ .stale) (hsrc : flaPoolBestSlabList fs slab = .ok src)
variable (hfnc : fs.fncAt (fs.header slab).pool = .ok fnc)

include hr hst hsrc hfnc

theorem objectCreateIn_failed (herr : err ≠ 0)
    (hnext : flaSlabNextAvailableObj fs slab (fnc.numFlaObjs (fs.pools.entries ndx)) = .ok (err, obj, fs₁)) :
    objectCreateIn env fs ndx slab = .ok (err, obj, fs₁) := by
  unfold objectCreateIn
  rw [hr, if_neg Bool.false_ne_true, elemLoad_not_stale hst, ok_bind]
  dsimp only
  rw [if_neg fun h => h.2 rfl, hsrc, ok_bind, hfnc, ok_bind, hnext, ok_bind]
  exact if_pos herr

theorem objectCreateIn_done (hdst : flaPoolBestSlabList fs₁ slab = .ok dst)
    (hnext : flaSlabNextAvailableObj fs slab (fnc.numFlaObjs (fs.pools.entries ndx)) = .ok (0, obj, fs₁)) :
    objectCreateIn env fs ndx slab = .ok (if src = dst then (0, obj, fs₁)
      else ((moveSlab fs₁ slab src dst).1, obj, (moveSlab fs₁ slab src dst).2)) := by
  unfold objectCreateIn
  rw [hr, if_neg Bool.false_ne_true, elemLoad_not_stale hst, ok_bind]
  dsimp only
  rw [if_neg fun h => h.2 rfl, hsrc, ok_bind, hfnc, ok_bind, hnext, ok_bind]
  dsimp only
  rw [if_neg (by simp), hdst, ok_bind]
  split_ifs <;> rfl

end CreateIn

/-- `fla_base_object_create`: the return value, the object, and the system -/
def flaBaseObjectCreate (env : Env) (fs : Flexalloc) (ndx : ℕ) : Ret (ℤ × Option Obj × Flexalloc) := do
  let _ ← fs.entryAt ndx
  let (err, slab, fs) ← flaPoolNextAvailableSlab env fs ndx
  if err ≠ 0 then .ok (err, none, fs) else objectCreateIn env fs ndx slab

def flaBaseObjectOpen (env : Env) (fs : Flexalloc) (ndx : ℕ) (obj : Obj) : Ret (ℤ × Flexalloc) :=
  if flaSlabRangeCheckId fs.nslabs obj.slabId then .ok (1, fs)
  else do
    let e ← fs.entryAt ndx
    let (err, fs) ← flaSlabCacheElemLoad env fs obj.slabId e.slabNobj
    .ok (if err = flaSlabCacheInvalidState then 0 else err, fs)

/-- `fla_znd_manage_zones_object_reset`: the errors of all zones or'ed together -/
def zndManageZonesObjectReset (env : Env) (fs : Flexalloc) (nzsect ndx : ℕ) (obj : Obj) : Ret ℤ := do
  let e ← fs.entryAt ndx
  let fnc ← fs.fncAt ndx
  let objSlba := flaObjectSlba fs.vol e.objNlb obj
  .ok ((List.range (fnc.numFlaObjs e)).foldl (fun err i => Int.lor err (env.zndMgmtSend (objSlba + u64 (nzsect * i)))) 0)

/-- the `object_destroy` hook of the command set -/
def csObjectDestroy (env : Env) (fs : Flexalloc) (ndx : ℕ) (obj : Obj) : Ret ℤ :=
  match fs.vol.cs with
  | .cns => .ok 0
  | .zns nzsect => zndManageZonesObjectReset env fs nzsect ndx obj

/-- a slab with `n` objects fewer -/
def Flexalloc.subRefcount (fs : Flexalloc) (slab n : ℕ) : Flexalloc :=
  fs.setHeader slab { fs.header slab with refcount := sub32 (fs.header slab).refcount n }

/-- the end of `fla_base_object_destroy`, once the entries are free: count them off and move the slab -/
def objectFreed (fs : Flexalloc) (slab numFlaObjs : ℕ) (fromHead : ℕ × SlabKind) : Ret (ℤ × Flexalloc) := do
  let toHead ← flaPoolBestSlabList (fs.subRefcount slab numFlaObjs) slab
  .ok (moveSlab (fs.subRefcount slab numFlaObjs) slab fromHead toHead)

def flaBaseObjectDestroy (env : Env) (fs : Flexalloc) (ndx : ℕ) (obj : Obj) : Ret (ℤ × Flexalloc) := do
  let err ← csObjectDestroy env fs ndx obj
  if err ≠ 0 then .ok (err, fs)
  else if flaSlabRangeCheckId fs.nslabs obj.slabId then .ok (1, fs)
  else
    let fromHead ← flaPoolBestSlabList fs obj.slabId
    let fnc ← fs.fncAt (fs.header obj.slabId).pool
    let numFlaObjs ← fs.numFlaObjsAt fnc ndx
    let (err, fs) ← flaSlabCacheObjFree fs obj numFlaObjs
    if err ≠ 0 then .ok (err, fs) else objectFreed fs obj.slabId numFlaObjs fromHead

theorem objectDestroy_done {env : Env} {fs fs₁ : Flexalloc} {ndx : ℕ} {obj : Obj} {fnc : EntryFnc} {e : PoolEntry}
    {src dst : ℕ × SlabKind} (hcs : csObjectDestroy env fs ndx obj = .ok 0)
    (hr : flaSlabRangeCheckId fs.nslabs obj.slabId = false) (hent : fs.entryAt ndx = .ok e)
    (hsrc : flaPoolBestSlabList fs obj.slabId = .ok src) (hfnc : fs.fncAt (fs.header obj.slabId).pool = .ok fnc)
    (hfree : flaSlabCacheObjFree fs obj (fnc.numFlaObjs e) = .ok (0, fs₁))
    (hdst : flaPoolBestSlabList (fs₁.subRefcount obj.slabId (fnc.numFlaObjs e)) obj.slabId = .ok dst) :
    flaBaseObjectDestroy env fs ndx obj =
      .ok (moveSlab (fs₁.subRefcount obj.slabId (fnc.numFlaObjs e)) obj.slabId src dst) := by
  have hfreed : objectFreed fs₁ obj.slabId (fnc.numFlaObjs e) src =
      .ok (moveSlab (fs₁.subRefcount obj.slabId (fnc.numFlaObjs e)) obj.slabId src dst) := by
    rw [objectFreed, hdst, ok_bind]
  unfold flaBaseObjectDestroy
  rw [hcs, ok_bind, if_neg (by simp), hr, if_neg Bool.false_ne_true, hsrc, ok_bind, hfnc, ok_bind,
    numFlaObjsAt_entry fnc hent, ok_bind, hfree, ok_bind]
  dsimp only
  rw [if_neg (by simp), hfreed]

end FlexAlloc
