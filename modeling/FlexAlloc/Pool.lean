/-
`flexalloc_pool.c`: creating, opening and destroying pools, and their root object.

The enumerator `FLA_POOL_ENTRY_STRP` is 0, so the test of a pool's flags for it never holds and every dispatch entry is
set to the functions for pools that are not striped.
-/
import FlexAlloc.Objects

namespace FlexAlloc

open Function

def flaPoolInitializeEntrieFunc (p : Pools) (ndx : ℕ) : Pools :=
  let fnc := if (p.entries ndx).flags &&& flaPoolEntryStrp ≠ 0 then .strp else .dflt
  { p with entrieFuncs := update p.entrieFuncs ndx (some fnc) }

/-- an entry is dispatched to the functions for pools that are not striped, whatever its flags -/
theorem initializeEntrieFunc_eq (p : Pools) (ndx : ℕ) :
    flaPoolInitializeEntrieFunc p ndx = { p with entrieFuncs := update p.entrieFuncs ndx (some .dflt) } := by
  simp [flaPoolInitializeEntrieFunc, flaPoolEntryStrp]

/-- `memcpy` of `n` bytes over the name of an entry, from a buffer that holds a C string and `past` behind its terminator -/
def memcpyName (dst src past : List (BitVec 8)) (n : ℤ) : Ret (List (BitVec 8)) :=
  if n < 0 ∨ (src.length : ℤ) + 1 + past.length < n then .error .outOfBounds
  else .ok ((src ++ 0 :: past).take n.toNat ++ dst.drop n.toNat)

def flaPoolEntryResetDefault (env : Env) (e : PoolEntry) (arg : PoolCreateArg) (slabNobj : ℕ) : Ret PoolEntry := do
  let name ← memcpyName e.name arg.name env.pastName arg.nameLen
  .ok { e with
    name := name
    objNlb := arg.objNlb
    slabNobj := slabNobj
    emptySlabs := flaLinkedListNull
    fullSlabs := flaLinkedListNull
    partialSlabs := flaLinkedListNull
    rootObjHndl := flaRootObjNone }

def flaPoolEntryResetStrp (env : Env) (e : PoolEntry) (arg : PoolCreateArg) (slabNobj : ℕ) : Ret PoolEntry := do
  let e ← flaPoolEntryResetDefault env e arg slabNobj
  .ok { e with strpNobjs := arg.strpNobjs, strpNbytes := arg.strpNbytes }

def EntryFnc.poolEntryReset : EntryFnc → Env → PoolEntry → PoolCreateArg → ℕ → Ret PoolEntry
  | .dflt => flaPoolEntryResetDefault
  | .strp => flaPoolEntryResetStrp

/-- the `check_pool` hook of the command set -/
def csCheckPool (fs : Flexalloc) (objNlb : ℕ) : ℤ :=
  match fs.vol.cs with
  | .cns => 0
  | .zns nzsect => if objNlb ≠ nzsect then 1 else 0

/-- `fla_base_pool_open`: the return value and the handle -/
def flaBasePoolOpen (env : Env) (fs : Flexalloc) (name : List (BitVec 8)) : Ret (ℤ × Option PoolHandle) := do
  match ← htblLookup flaHashing fs.pools.htbl name with
  | none => .ok (-1, none)
  | some i =>
    if ¬ env.malloc then .ok (-eNOMEM, none)
    else .ok (0, some ⟨(fs.pools.htbl.tbl i).h2, (fs.pools.htbl.tbl i).val⟩)

/-- the second half of `fla_base_pool_create`, once pool index `ndx` has been taken: enter the name in the hash table
and reset the entry; when the name cannot be entered the index is given back -/
def poolCreateAt (env : Env) (fs : Flexalloc) (arg : PoolCreateArg) (ndx slabNobj : ℕ) :
    Ret (ℤ × Option PoolHandle × Flexalloc) := do
  let _ ← fs.entryAt ndx
  let fs := { fs with pools := flaPoolInitializeEntrieFunc fs.pools ndx }
  let (err, htbl) ← htblInsert flaHashing fs.pools.htbl arg.name ndx
  if err ≠ 0 then
    let (_, flist) ← flaFlistEntriesFree fs.pools.freelist ndx 1
    .ok (err, none, { fs with pools := { fs.pools with htbl := htbl, freelist := flist } })
  else
    let fs := { fs with pools := { fs.pools with htbl := htbl } }
    let fnc ← fs.fncAt ndx
    let e ← fnc.poolEntryReset env (fs.pools.entries ndx) arg slabNobj
    .ok (0, some ⟨flaHashing.h2 arg.name, ndx⟩, fs.setEntry ndx e)

/-- `fla_base_pool_create`: the return value, the handle, and the system. An open without memory for the handle is taken
for a name that is not there. -/
def flaBasePoolCreate (env : Env) (fs : Flexalloc) (arg : PoolCreateArg) :
    Ret (ℤ × Option PoolHandle × Flexalloc) := do
  match ← flaBasePoolOpen env fs arg.name with
  | (0, some handle) =>
    -- the pool exists
    let e ← fs.entryAt handle.ndx
    if e.objNlb ≠ arg.objNlb then .ok (-eINVAL, none, fs) else .ok (0, some handle, fs)
  | _ =>
    if (flaNameSizePool : ℤ) ≤ arg.nameLen then .ok (1, none, fs)
    else
      let slabNobj ← flaCalcObjsInSlab fs.vol arg.objNlb
      if slabNobj < 1 then .ok (1, none, fs)
      else if csCheckPool fs arg.objNlb ≠ 0 then .ok (csCheckPool fs arg.objNlb, none, fs)
      else if ¬ env.mallocNew then .ok (-eNOMEM, none, fs)
      else
        let (entryNdx, flist) := flaFlistEntriesAlloc fs.pools.freelist 1
        let fs := { fs with pools := { fs.pools with freelist := flist } }
        if entryNdx < 0 then .ok (1, none, fs) else poolCreateAt env fs arg entryNdx.toNat slabNobj

/-- the checks of `fla_base_pool_destroy`: 0 when the handle names the pool at its index -/
def poolDestroyCheck (fs : Flexalloc) (handle : PoolHandle) : Ret ℤ :=
  if fs.npools < handle.ndx then .ok 1
  else do
    let e ← fs.entryAt handle.ndx
    match ← htblLookup flaHashing fs.pools.htbl e.name with
    | none => .ok 1
    | some i =>
      if (fs.pools.htbl.tbl i).h2 ≠ handle.h2 then .ok 1
      else if (fs.pools.htbl.tbl i).val ≠ handle.ndx then .ok 1
      else .ok 0

/-- the end of `fla_base_pool_destroy`, once the slabs are released: give the index back and forget the name -/
def poolForget (fs : Flexalloc) (ndx : ℕ) : Ret (ℤ × Flexalloc) := do
  let (err, flist) ← flaFlistEntriesFree fs.pools.freelist ndx 1
  let fs := { fs with pools := { fs.pools with freelist := flist } }
  if err ≠ 0 then .ok (err, fs)
  else
    let htbl ← htblRemove flaHashing fs.pools.htbl (fs.pools.entries ndx).name
    .ok (0, { fs with pools := { fs.pools with htbl := htbl } })

def flaBasePoolDestroy (fs : Flexalloc) (handle : PoolHandle) : Ret (ℤ × Flexalloc) := do
  let err ← poolDestroyCheck fs handle
  if err ≠ 0 then .ok (err, fs)
  else
    let (err, fs) := flaPoolReleaseAllSlabs fs handle.ndx
    if err ≠ 0 then .ok (err, fs) else poolForget fs handle.ndx

/-- an object handle as the 64-bit value it is stored as -/
def objHndl (obj : Obj) : ℕ := obj.slabId + 2 ^ 32 * obj.entryNdx

/-- `fla_root_object_set_action`: `ROOT_OBJ_SET_FORCE` and `ROOT_OBJ_SET_CLEAR` -/
structure RootObjSetAction where
  force : Bool
  clear : Bool
deriving DecidableEq, Repr

def flaBasePoolSetRootObject (fs : Flexalloc) (ndx : ℕ) (obj : Obj) (act : RootObjSetAction) :
    Ret (ℤ × Flexalloc) := do
  let e ← fs.entryAt ndx
  if e.rootObjHndl ≠ flaRootObjNone ∧ ¬ act.force then .ok (eINVAL, fs)
  else .ok (0, fs.setEntry ndx { e with rootObjHndl := if act.clear then flaRootObjNone else objHndl obj })

/-- `fla_base_pool_get_root_object`: the return value and the handle -/
def flaBasePoolGetRootObject (fs : Flexalloc) (ndx : ℕ) : Ret (ℤ × Option ℕ) := do
  let e ← fs.entryAt ndx
  if e.rootObjHndl = flaRootObjNone then .ok (eINVAL, none) else .ok (0, some e.rootObjHndl)

end FlexAlloc
