/-
The system its clients see: pools and objects created and destroyed through the base functions of the library, in any
order.

`Sys` adds to the state of an open system the objects its clients hold, each with the index of the pool it was created
through. A client is held to what the interface asks of it (`Legal`): it creates objects in pools that exist and
destroys objects that it holds, through the pool that created them. Every call brings its own `Env`, so allocations and
commands may succeed or fail differently from call to call.

`step` takes any legal call that returns; `stepOk` only calls that return 0. A call that faults ends the run.
-/
import FlexAlloc.Pool
import FlexAlloc.Core.Run
import FlexAlloc.Layout

namespace FlexAlloc

open FlexAlloc.Core

/-- pool `ndx` exists: its entry of the pool freelist is taken -/
def Flexalloc.PoolLive (fs : Flexalloc) (ndx : ℕ) : Prop := ndx ∈ fs.pools.freelist.reserved

instance (fs : Flexalloc) (ndx : ℕ) : Decidable (fs.PoolLive ndx) := inferInstanceAs (Decidable (_ ∈ _))

structure Sys where
  fs : Flexalloc
  /-- the live objects, each with the pool it was created through -/
  live : List (Obj × ℕ)

inductive Op where
  | poolCreate (arg : PoolCreateArg)
  | poolDestroy (handle : PoolHandle)
  | objectCreate (ndx : ℕ)
  | objectDestroy (ndx : ℕ) (obj : Obj)
deriving DecidableEq, Repr

/-- what a client may ask for; `obj_nlb` is a `uint32_t` -/
def Legal (s : Sys) : Op → Prop
  | .poolCreate arg => arg.objNlb < 2 ^ 32
  | .poolDestroy _ => True
  | .objectCreate ndx => s.fs.PoolLive ndx
  | .objectDestroy ndx obj => (obj, ndx) ∈ s.live

instance (s : Sys) : (op : Op) → Decidable (Legal s op)
  | .poolCreate arg => inferInstanceAs (Decidable (arg.objNlb < 2 ^ 32))
  | .poolDestroy _ => inferInstanceAs (Decidable True)
  | .objectCreate ndx => inferInstanceAs (Decidable (s.fs.PoolLive ndx))
  | .objectDestroy ndx obj => inferInstanceAs (Decidable ((obj, ndx) ∈ s.live))

/-- a call: its return value and the system after it. The objects of a pool go with the pool. -/
def perform (env : Env) (s : Sys) : Op → Ret (ℤ × Sys)
  | .poolCreate arg => do
    let (err, _, fs) ← flaBasePoolCreate env s.fs arg
    .ok (err, ⟨fs, s.live⟩)
  | .poolDestroy handle => do
    let (err, fs) ← flaBasePoolDestroy s.fs handle
    .ok (err, ⟨fs, if err = 0 then s.live.filter (·.2 ≠ handle.ndx) else s.live⟩)
  | .objectCreate ndx => do
    let (err, obj, fs) ← flaBaseObjectCreate env s.fs ndx
    .ok (err, ⟨fs, if err = 0 then obj.toList.map (·, ndx) ++ s.live else s.live⟩)
  | .objectDestroy ndx obj => do
    let (err, fs) ← flaBaseObjectDestroy env s.fs ndx obj
    .ok (err, ⟨fs, if err = 0 then s.live.erase (obj, ndx) else s.live⟩)

/-- a legal call that returns -/
def step (s : Sys) (x : Env × Op) : Option Sys :=
  if Legal s x.2 then
    match perform x.1 s x.2 with
    | .ok (_, t) => some t
    | .error _ => none
  else none

/-- a legal call that returns 0 -/
def stepOk (s : Sys) (x : Env × Op) : Option Sys :=
  if Legal s x.2 then
    match perform x.1 s x.2 with
    | .ok (err, t) => if err = 0 then some t else none
    | .error _ => none
  else none

theorem step_eq_some {s t : Sys} {x : Env × Op} (h : step s x = some t) :
    Legal s x.2 ∧ ∃ err, perform x.1 s x.2 = .ok (err, t) := by
  unfold step at h
  split_ifs at h with hl
  refine ⟨hl, ?_⟩
  split at h
  · rename_i err t' hp
    exact ⟨err, by rw [hp, Option.some.inj h]⟩
  · cases h

theorem stepOk_eq_some {s t : Sys} {x : Env × Op} (h : stepOk s x = some t) :
    Legal s x.2 ∧ perform x.1 s x.2 = .ok (0, t) := by
  unfold stepOk at h
  split_ifs at h with hl
  refine ⟨hl, ?_⟩
  split at h
  · rename_i err t' hp
    split_ifs at h with herr
    rw [hp, herr, Option.some.inj h]
  · cases h

/-! ## Formatted systems -/

/-- `geo` is what `fla_mkfs_geo_calc` accepts for a conventional device without a metadata device -/
structure Formatted (dev : Dev) (npools slabNlb : ℕ) (geo : Geo) : Prop where
  cns : dev.cs = .cns
  slabNlb_lt : slabNlb < 2 ^ 32
  accepted : flaMkfsGeoCalc dev false npools slabNlb = .ok (0, geo)

def Sys.init (dev : Dev) (geo : Geo) (disk : Bytes) : Sys := ⟨flaMkfs dev geo disk, []⟩

section Formatted

variable {dev : Dev} {npools slabNlb : ℕ} {geo : Geo} (hf : Formatted dev npools slabNlb geo)

include hf

theorem Formatted.bounds : 0 < geo.nslabs ∧ geo.nslabs < 2 ^ 32 ∧ 0 < geo.npools ∧ geo.npools ≤ geo.nslabs ∧
    geo.slabNlb = slabNlb ∧ 0 < slabNlb ∧ 0 < geo.lbNbytes := by
  obtain ⟨hp, hle, hn, hslab, hpos, -, hlb⟩ := accepted_bounds hf.accepted
  exact ⟨hp.trans_le hle, hn, hp, hle, hslab, hpos, hlb⟩

theorem Formatted.npools_eq (h : npools ≠ 0) : geo.npools = npools := by
  obtain ⟨-, -, a, p, n, -, -, -, hle, -, hp, -, rfl⟩ := mkfsGeoCalc_ok hf.accepted
  rw [if_neg h] at hp
  exact (min_eq_left (hp ▸ hle)).trans hp

theorem Formatted.vol (disk : Bytes) : (flaMkfs dev geo disk).vol = .single geo := by
  rw [flaMkfs, Volume.single, hf.cns]

end Formatted

/-! ## Mounted systems -/

/-- what mkfs leaves on a device, conventional or zoned, with or without a metadata device -/
def Volume.formatted (dev : Dev) (hasMd : Bool) (geo : Geo) : Volume := ⟨geo, flaMkfsSuperInit geo, hasMd, dev.cs⟩

/-- a system just formatted and opened; `fla_mkfs` refuses devices of different block sizes -/
structure Mounted (dev mdDev : Dev) (hasMd : Bool) (npools slabNlb : ℕ) (geo : Geo) (fs : Flexalloc) : Prop where
  accepted : flaMkfsGeoCalc dev hasMd npools slabNlb = .ok (0, geo)
  slabNlb_lt : slabNlb < 2 ^ 32
  same_lb : mdDev.lbNbytes = dev.lbNbytes
  fresh : Fresh (.formatted dev hasMd geo) fs
  devs : fs.dev = dev ∧ fs.mdDev = mdDev

theorem Formatted.mounted {dev : Dev} {npools slabNlb : ℕ} {geo : Geo} (hf : Formatted dev npools slabNlb geo) (disk : Bytes) :
    Mounted dev dev false npools slabNlb geo (flaMkfs dev geo disk) :=
  ⟨hf.accepted, hf.slabNlb_lt, rfl, mkfs_fresh dev geo disk, rfl, rfl⟩

/-! ## A small device -/

/-- seven slabs of eight blocks and two pools -/
def smallGeo : Geo := mkfsGeo smallDev 8 2 7

theorem smallGeo_formatted : Formatted smallDev 2 8 smallGeo := ⟨rfl, by decide, by decide +kernel⟩

theorem small_mounted : Mounted smallDev smallDev false 2 8 smallGeo (flaMkfs smallDev smallGeo 0) :=
  smallGeo_formatted.mounted 0

def smallArg (name : BitVec 8) (objNlb : ℕ) : PoolCreateArg := ⟨0, [name], 1, objNlb, 0, 0⟩

/-- calls in which nothing fails -/
def reliably (ops : List Op) : List (Env × Op) := ops.map (Env.reliable, ·)

end FlexAlloc
