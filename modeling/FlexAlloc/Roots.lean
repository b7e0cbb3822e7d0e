/-
The root object of a pool: a register that each client of the pool finds again.

`Ledger` holds beside an open system what was last set in each pool (`roots`), and what that was at the last sync. It says
what a get and a set return, in its own terms, and it is rolled back to the last sync when the power goes.

- `rootsKept_call`: a call that sets no root object leaves those of the pools that are there, and a new pool has none.
- `Ledger.Inv.step`: the system agrees with the ledger, and so do its devices with what was synced.
- `roots_durable`: in every state reached, gets and sets return what the ledger says.
-/
import FlexAlloc.Crash

namespace FlexAlloc

open FlexAlloc.Core Function

/-! ## Root objects -/

/-- the root object that a handle stands for -/
def rootOf (hndl : ℕ) : Option ℕ := if hndl = flaRootObjNone then none else some hndl

/-- what a get returns in a pool with this root object -/
def rootGet : Option ℕ → ℤ × Option ℕ
  | none => (eINVAL, none)
  | some hndl => (0, some hndl)

/-- what a set returns, and the root object after it -/
def rootSet (root : Option ℕ) (obj : Obj) (act : RootObjSetAction) : ℤ × Option ℕ :=
  if root ≠ none ∧ ¬ act.force then (eINVAL, root) else (0, if act.clear then none else rootOf (objHndl obj))

/-- the root object of pool `ndx` -/
def Flexalloc.root (fs : Flexalloc) (ndx : ℕ) : Option ℕ := rootOf (fs.pools.entries ndx).rootObjHndl

section Root

variable {fs fs' : Flexalloc} {ndx p : ℕ}

theorem getRootObject_eq (h : ndx < fs.npools) : flaBasePoolGetRootObject fs ndx = .ok (rootGet (fs.root ndx)) := by
  unfold flaBasePoolGetRootObject Flexalloc.entryAt Flexalloc.root rootOf
  rw [if_pos h, ok_bind]
  split_ifs
  · rfl
  · rfl

theorem rootOf_eq_none {hndl : ℕ} : rootOf hndl = none ↔ hndl = flaRootObjNone := by
  unfold rootOf
  split_ifs with h
  · simp [h]
  · simp [h]

theorem root_setEntry (fs : Flexalloc) (ndx : ℕ) (e : PoolEntry) (p : ℕ) :
    (fs.setEntry ndx e).root p = update fs.root ndx (rootOf e.rootObjHndl) p := by
  show rootOf (update fs.pools.entries ndx e p).rootObjHndl = _
  by_cases hp : p = ndx
  · rw [hp, update_self, update_self]
  · rw [update_of_ne hp, update_of_ne hp]
    rfl

theorem setRootObject_eq (h : ndx < fs.npools) (obj : Obj) (act : RootObjSetAction) :
    ∃ fs', flaBasePoolSetRootObject fs ndx obj act = .ok ((rootSet (fs.root ndx) obj act).1, fs') ∧
      ∀ p, fs'.root p = update fs.root ndx (rootSet (fs.root ndx) obj act).2 p := by
  have hne : (fs.pools.entries ndx).rootObjHndl ≠ flaRootObjNone ↔ fs.root ndx ≠ none := by
    rw [Flexalloc.root, Ne, Ne, rootOf_eq_none]
  unfold flaBasePoolSetRootObject Flexalloc.entryAt rootSet
  rw [if_pos h, ok_bind]
  simp only [hne]
  split_ifs with hrefused hclear
  · refine ⟨fs, rfl, fun p => ?_⟩
    rw [update_eq_self]
  · refine ⟨_, rfl, fun p => ?_⟩
    rw [root_setEntry, rootOf_eq_none.2 rfl]
  · exact ⟨_, rfl, fun p => root_setEntry fs ndx _ p⟩

end Root

/-! ## Calls -/

/-- pools that are there before and after have kept their root object, and new pools have none -/
structure RootsKept (fs fs' : Flexalloc) : Prop where
  kept : ∀ p, fs.PoolLive p → fs'.PoolLive p → fs'.root p = fs.root p
  new : ∀ p, ¬ fs.PoolLive p → fs'.PoolLive p → fs'.root p = none

section Calls

variable {env : Env} {fs fs' : Flexalloc} {err : ℤ} {ndx : ℕ}

theorem RootsKept.of_live (hroot : ∀ p, fs'.root p = fs.root p) (hlive : ∀ p, fs'.PoolLive p → fs.PoolLive p) :
    RootsKept fs fs' := ⟨fun p _ _ => hroot p, fun p hnot hp => absurd (hlive p hp) hnot⟩

theorem root_of_rest {p : ℕ} (h : (fs'.pools.entries p).rest = (fs.pools.entries p).rest) : fs'.root p = fs.root p := by
  show rootOf (fs'.pools.entries p).rest.rootObjHndl = rootOf (fs.pools.entries p).rest.rootObjHndl
  rw [h]

theorem Steady.rootsKept (h : Steady fs fs') : RootsKept fs fs' := by
  refine .of_live (fun p => root_of_rest (h.rest p)) fun p hp => ?_
  rw [Flexalloc.PoolLive, h.flist] at hp
  exact hp

theorem Flushed.rootsKept (h : Flushed fs fs') : RootsKept fs fs' := by
  obtain ⟨n, hp⟩ := h.pools
  refine .of_live (fun p => ?_) fun p hlive => ?_
  · rw [Flexalloc.root, hp]
    rfl
  · rw [Flexalloc.PoolLive, hp] at hlive
    exact hlive

theorem poolEntryReset_root {fnc : EntryFnc} {e e' : PoolEntry} {arg : PoolCreateArg} {n : ℕ}
    (h : fnc.poolEntryReset env e arg n = .ok e') : e'.rootObjHndl = flaRootObjNone := by
  cases fnc with
  | dflt =>
    obtain ⟨name, -, h⟩ := bind_eq_ok h
    cases h
    rfl
  | strp =>
    obtain ⟨e₁, hreset, h⟩ := bind_eq_ok h
    obtain ⟨name, -, hreset⟩ := bind_eq_ok hreset
    cases hreset
    cases h
    rfl

theorem poolCreateAt_rootsKept (h : Registry fs) {arg : PoolCreateArg} {n : ℕ} {handle : Option PoolHandle} {fl : Freelist}
    (htake : takeEntry fs.pools.freelist = some (ndx, fl)) (hndx : ndx < fs.npools)
    (hrun : poolCreateAt env { fs with pools := { fs.pools with freelist := fl } } arg ndx n = .ok (err, handle, fs')) :
    RootsKept fs fs' := by
  obtain ⟨hfree, -, hlen, hrest⟩ := takeEntry_some htake
  have hlive : ∀ p, p ∈ fl.reserved → p ≠ ndx → fs.PoolLive p := fun p hp hne => by
    obtain ⟨hlt, hp⟩ := mem_reserved.1 hp
    rw [hrest, decide_eq_true hne, Bool.and_true] at hp
    exact mem_reserved.2 ⟨hlen ▸ hlt, hp⟩
  have hnot : ¬ fs.PoolLive ndx := fun hp => by
    rw [(mem_reserved.1 hp).2] at hfree
    cases hfree
  have hreg : Registry { fs with pools := { fs.pools with freelist := fl } } :=
    h.setFlist hlen (takeEntry_ok h.ok htake)
  obtain ⟨e, -, hrun⟩ := bind_eq_ok hrun
  obtain ⟨⟨err₁, t⟩, hins, hrun⟩ := bind_eq_ok hrun
  dsimp only at hrun
  split_ifs at hrun
  · -- the index is given back
    obtain ⟨fl', hback, hlen', -, hrest'⟩ := hreg.free hndx
    obtain ⟨r, hback', hrun⟩ := bind_eq_ok hrun
    obtain rfl : (0, fl') = r := Except.ok.inj (hback.symm.trans hback')
    cases hrun
    refine .of_live (fun p => rfl) fun p hp => ?_
    obtain ⟨hlt, hp⟩ := mem_reserved.1 hp
    rw [hrest', Bool.or_eq_false_iff] at hp
    exact hlive p (mem_reserved.2 ⟨hlen' ▸ hlt, hp.1⟩) (of_decide_eq_false hp.2)
  · obtain ⟨fnc, hfnc, hrun⟩ := bind_eq_ok hrun
    obtain ⟨e', hreset, hrun⟩ := bind_eq_ok hrun
    cases hrun
    refine ⟨fun p hp _ => ?_, fun p hp hp' => ?_⟩
    · have hne : p ≠ ndx := fun heq => hnot (heq ▸ hp)
      exact (root_setEntry _ ndx e' p).trans (update_of_ne hne _ _)
    · obtain rfl : p = ndx := by
        by_contra hne
        exact hp (hlive p hp' hne)
      rw [root_setEntry, update_self, poolEntryReset_root hreset]
      rfl

theorem poolCreate_rootsKept (h : Registry fs) {arg : PoolCreateArg} {handle : Option PoolHandle}
    (hrun : flaBasePoolCreate env fs arg = .ok (err, handle, fs')) : RootsKept fs fs' := by
  have hsame : RootsKept fs fs := .of_live (fun _ => rfl) fun _ hp => hp
  obtain ⟨⟨err₁, found⟩, -, hrun⟩ := bind_eq_ok hrun
  split at hrun
  · obtain ⟨e, -, hrun⟩ := bind_eq_ok hrun
    split_ifs at hrun
    all_goals
      cases hrun
      exact hsame
  split at hrun
  · cases hrun
    exact hsame
  obtain ⟨n, -, hrun⟩ := bind_eq_ok hrun
  dsimp only at hrun
  split_ifs at hrun with hnobj hcheck hmalloc hneg
  all_goals try
    cases hrun
    exact hsame
  · rcases h.alloc with ⟨-, halloc⟩ | ⟨k, fl, htake, hk, halloc⟩
    · rw [halloc] at hrun
      cases hrun
      exact hsame
    · rw [halloc] at hneg
      dsimp only at hneg
      omega
  · rcases h.alloc with ⟨-, halloc⟩ | ⟨k, fl, htake, hk, halloc⟩
    · rw [halloc] at hneg
      exact absurd (show (-1 : ℤ) < 0 by decide) hneg
    · rw [halloc, Int.toNat_natCast] at hrun
      exact poolCreateAt_rootsKept h htake hk hrun

theorem poolDestroyCheck_lt {handle : PoolHandle} (h : poolDestroyCheck fs handle = .ok 0) : handle.ndx < fs.npools := by
  by_contra hle
  have hentry : fs.entryAt handle.ndx = .error .outOfBounds := if_neg hle
  unfold poolDestroyCheck at h
  rw [hentry] at h
  split_ifs at h
  · exact absurd (Except.ok.inj h) (by decide)
  · cases h

/-- a pool that is destroyed is gone, or has kept its root object -/
theorem poolDestroy_rootsKept (h : Registry fs) {handle : PoolHandle}
    (hrun : flaBasePoolDestroy fs handle = .ok (err, fs')) : RootsKept fs fs' := by
  refine .of_live (fun p => root_of_rest (poolDestroy_rest hrun p)) fun p hp => ?_
  rcases poolDestroy_cases hrun with ⟨-, -, rfl⟩ | ⟨hcheck, hrel⟩
  · exact hp
  cases hall : flaPoolReleaseAllSlabs fs handle.ndx with
  | mk err₁ fs₁ =>
    have hsteady := releaseAll_steady hall
    have hndx : handle.ndx < fs₁.npools := by
      rw [Flexalloc.npools, hsteady.vol]
      exact poolDestroyCheck_lt hcheck
    rw [Flexalloc.PoolLive, ← hsteady.flist]
    rw [hall] at hrel
    split_ifs at hrel
    · cases hrel
      exact hp
    · obtain ⟨fl, hfree, hlen, -, hrest⟩ := (hsteady.quiet.registry h).free hndx
      rw [poolForget, hfree, ok_bind] at hrel
      dsimp only at hrel
      rw [if_neg (by decide)] at hrel
      obtain ⟨t, -, hrel⟩ := bind_eq_ok hrel
      cases hrel
      obtain ⟨hlt, hp⟩ := mem_reserved.1 hp
      rw [hrest, Bool.or_eq_false_iff] at hp
      exact mem_reserved.2 ⟨hlen ▸ hlt, hp.1⟩

/-- **Calls** that set no root object. -/
theorem rootsKept_call (h : Registry fs) {c : Call} {res : Res} (hc : ∀ pool obj act, c ≠ .poolSetRootObject pool obj act)
    (hrun : baseCall env fs c = .ok (res, fs')) : RootsKept fs fs' := by
  have hsame : RootsKept fs fs := .of_live (fun _ => rfl) fun _ hp => hp
  cases c with
  | sync =>
    obtain ⟨⟨err, fs₁⟩, hsync, hrun⟩ := bind_eq_ok hrun
    cases hrun
    exact (flush_flushed hsync).rootsKept
  | poolOpen name =>
    obtain ⟨r, -, hrun⟩ := bind_eq_ok hrun
    cases hrun
    exact hsame
  | poolCreate arg =>
    obtain ⟨⟨err, handle, fs₁⟩, hcreate, hrun⟩ := bind_eq_ok hrun
    cases hrun
    exact poolCreate_rootsKept h hcreate
  | poolDestroy handle =>
    obtain ⟨⟨err, fs₁⟩, hdestroy, hrun⟩ := bind_eq_ok hrun
    cases hrun
    exact poolDestroy_rootsKept h hdestroy
  | objectOpen pool obj =>
    obtain ⟨⟨err, fs₁⟩, hopen, hrun⟩ := bind_eq_ok hrun
    cases hrun
    exact (objectOpen_steady hopen).rootsKept
  | objectCreate pool =>
    obtain ⟨⟨err, obj, fs₁⟩, hcreate, hrun⟩ := bind_eq_ok hrun
    cases hrun
    exact (objectCreate_steady hcreate).rootsKept
  | objectDestroy pool obj =>
    obtain ⟨⟨err, fs₁⟩, hdestroy, hrun⟩ := bind_eq_ok hrun
    cases hrun
    exact (objectDestroy_steady hdestroy).rootsKept
  | poolSetRootObject pool obj act => exact absurd rfl (hc pool obj act)
  | poolGetRootObject pool =>
    obtain ⟨r, -, hrun⟩ := bind_eq_ok hrun
    cases hrun
    exact hsame

theorem Reopened.poolLive (hr : Reopened fs fs') (p : ℕ) : fs'.PoolLive p ↔ fs.PoolLive p := by
  rw [Flexalloc.PoolLive, Flexalloc.PoolLive, hr.flist]

end Calls

/-! ## The ledger -/

/-- an open system, and what is known of its root objects -/
structure Ledger where
  fs : Flexalloc
  /-- the root object of each pool -/
  roots : ℕ → Option ℕ
  /-- what they were at the last sync, unless one has failed since -/
  synced : Option (ℕ → Option ℕ)

inductive LedgerOp where
  | go (op : SessionOp)
  /-- the power goes, and the devices are opened again -/
  | cut

/-- the root objects after a call that made `fs'` of `fs` -/
def rootsAfter (fs fs' : Flexalloc) (roots : ℕ → Option ℕ) : SessionOp → ℕ → Option ℕ
  | .call (.poolSetRootObject pool obj act) => update roots pool.ndx (rootSet (roots pool.ndx) obj act).2
  | _ => fun p => if fs'.PoolLive p ∧ ¬ fs.PoolLive p then none else roots p

/-- what is synced after a call; a sync that fails may leave the metadata half written -/
def syncedAfter (env : Env) (s : Ledger) : SessionOp → Option (ℕ → Option ℕ)
  | .call .sync => (flaFlush env s.fs).toOption.bind fun r => if r.1 = 0 then some s.roots else none
  | .reopen _ => some s.roots
  | _ => s.synced

def ledgerStep (wiped : Bytes) (async : StrpXfer) (s : Ledger) (x : Env × LedgerOp) : Option Ledger :=
  match x.2 with
  | .go op =>
    (sessionStep wiped async s.fs (x.1, op)).map fun fs => ⟨fs, rootsAfter s.fs fs s.roots op, syncedAfter x.1 s op⟩
  | .cut =>
    s.synced.bind fun roots =>
      ((flaOpen x.1 s.fs.dev s.fs.mdDev s.fs.vol.hasMd s.fs.disk s.fs.mdDisk).toOption.bind (·.2)).map fun fs =>
        ⟨fs, roots, some roots⟩

def Ledger.init (fs : Flexalloc) : Ledger := ⟨fs, fun _ => none, none⟩

/-- what is asked of a step: the block ranges of the metadata are built as they should be, and writes are to objects -/
def LedgerLegal (home : Dev) (wiped : Bytes) (s : Ledger) (x : Env × LedgerOp) : Prop :=
  match x.2 with
  | .go (.call .sync) => x.1.RangesExact home
  | .go (.call (.poolSetRootObject _ obj _)) => obj.Fits
  | .go (.reopen env) => x.1.RangesExact home ∧ env.OffsetsExact home
  | .go op => Between wiped Set.univ s.fs (x.1, op)
  | .cut => x.1.OffsetsExact home

/-- the pools that are there have these root objects -/
structure Agrees (fs : Flexalloc) (roots : ℕ → Option ℕ) : Prop where
  root : ∀ p, fs.PoolLive p → fs.root p = roots p
  lt : ∀ p hndl, roots p = some hndl → hndl < 2 ^ 64

/-- the devices of `fs` hold the metadata of a system whose pools have these root objects -/
inductive HeldRoots (dev mdDev : Dev) (hasMd : Bool) (geo : Geo) (fs : Flexalloc) (roots : ℕ → Option ℕ) : Prop
  | intro (fs₁ : Flexalloc) (vol : OnVol dev mdDev hasMd geo fs₁) (reg : Registry fs₁)
      (len : fs₁.pools.hdrLen = fs₁.pools.htbl.len)
      (held : ∀ i < flaGeoNbytes geo, (if hasMd then fs.mdDisk else fs.disk) i = mdBuffer fs₁ i)
      (agrees : Agrees fs₁ roots)

structure Ledger.Inv (dev mdDev : Dev) (hasMd : Bool) (geo : Geo) (s : Ledger) : Prop where
  vol : OnVol dev mdDev hasMd geo s.fs
  reg : Registry s.fs
  agrees : Agrees s.fs s.roots
  synced : ∀ roots, s.synced = some roots → HeldRoots dev mdDev hasMd geo s.fs roots

section Ledger

variable {dev mdDev : Dev} {hasMd : Bool} {npools slabNlb : ℕ} {geo : Geo} {fs fs' : Flexalloc} {roots : ℕ → Option ℕ}
  {s t : Ledger} {env : Env} {wiped : Bytes} {async : StrpXfer}

theorem RootsKept.agrees (h : RootsKept fs fs') (ha : Agrees fs roots) :
    Agrees fs' fun p => if fs'.PoolLive p ∧ ¬ fs.PoolLive p then none else roots p := by
  refine ⟨fun p hp => ?_, fun p hndl hroot => ?_⟩
  · by_cases hold : fs.PoolLive p
    · rw [if_neg fun hnew => hnew.2 hold, h.kept p hold hp]
      exact ha.root p hold
    · rw [if_pos ⟨hp, hold⟩, h.new p hold hp]
  · split_ifs at hroot
    exact ha.lt p hndl hroot

theorem Flushed.agrees (h : Flushed fs fs') (ha : Agrees fs roots) : Agrees fs' roots := by
  obtain ⟨n, hp⟩ := h.pools
  refine ⟨fun p hlive => ?_, ha.lt⟩
  rw [Flexalloc.PoolLive, hp] at hlive
  rw [Flexalloc.root, hp]
  exact ha.root p hlive

theorem Reopened.agrees (hr : Reopened fs fs') (h : Registry fs) (ha : Agrees fs roots) : Agrees fs' roots := by
  refine ⟨fun p hp => ?_, ha.lt⟩
  have hlive : fs.PoolLive p := (hr.poolLive p).1 hp
  have hlt : p < fs.npools := ((poolLive_iff h.len p).1 hlive).1
  have hroot := ha.root p hlive
  rw [← hroot, Flexalloc.root, hr.entry p hlt]
  refine congrArg rootOf (Nat.mod_eq_of_lt ?_)
  by_cases hnone : (fs.pools.entries p).rootObjHndl = flaRootObjNone
  · rw [hnone]
    decide
  · refine ha.lt p _ (hroot.symm.trans ?_)
    exact if_neg hnone

theorem OnVol.hasMd_eq (hv : OnVol dev mdDev hasMd geo fs) : fs.vol.hasMd = hasMd := by
  rw [hv.vol]
  rfl

/-- the metadata on the devices is not written between two syncs -/
theorem metadata_kept (hl : Laid dev mdDev hasMd npools slabNlb geo) (hcs : hasMd = false → dev.cs = .cns)
    (hv : OnVol dev mdDev hasMd geo fs) {x : Env × SessionOp} (hx : Between wiped Set.univ fs x)
    (hstep : sessionStep wiped async fs x = some fs') {i : ℕ} (hi : i < flaGeoNbytes geo) :
    (if hasMd then fs'.mdDisk else fs'.disk) i = (if hasMd then fs.mdDisk else fs.disk) i := by
  have hstart : DisksKept dev mdDev hasMd geo Set.univ fs fs := ⟨hv, rfl, fun _ _ => rfl, fun _ _ _ => rfl⟩
  have hkept := hstart.step hl hcs hx hstep
  cases hasMd with
  | false => exact hkept.md rfl i hi
  | true => exact congrFun hkept.mdDisk i

theorem HeldRoots.congr (h : HeldRoots dev mdDev hasMd geo fs roots)
    (hsame : ∀ i < flaGeoNbytes geo,
      (if hasMd then fs'.mdDisk else fs'.disk) i = (if hasMd then fs.mdDisk else fs.disk) i) :
    HeldRoots dev mdDev hasMd geo fs' roots := by
  obtain ⟨fs₁, hv, hreg, hlen, hheld, ha⟩ := h
  exact ⟨fs₁, hv, hreg, hlen, fun i hi => (hsame i hi).trans (hheld i hi), ha⟩

/-- **A flush** that returns 0 leaves the root objects on the devices. -/
theorem HeldRoots.flushed (hl : Laid dev mdDev hasMd npools slabNlb geo) (hv : OnVol dev mdDev hasMd geo fs)
    (hreg : Registry fs) (ha : Agrees fs roots) (hr : env.RangesExact (if hasMd then mdDev else dev))
    (hflush : flaFlush env fs = .ok (0, fs')) : HeldRoots dev mdDev hasMd geo fs' roots := by
  have hfl := flush_flushed hflush
  obtain ⟨hheld, hlen⟩ := hl.flushed hv (by rw [hv.mdHome]; exact hr) hflush
  exact ⟨fs', hfl.onVol hv, hfl.quiet.registry hreg, hlen, hheld, hfl.agrees ha⟩

/-- **An open** of devices that hold them finds them. -/
theorem HeldRoots.opened (hl : Laid dev mdDev hasMd npools slabNlb geo) (h : HeldRoots dev mdDev hasMd geo fs roots)
    (hr : env.OffsetsExact (if hasMd then mdDev else dev)) {err : ℤ}
    (hopen : flaOpen env dev mdDev hasMd fs.disk fs.mdDisk = .ok (err, some fs')) :
    Ledger.Inv dev mdDev hasMd geo ⟨fs', roots, some roots⟩ := by
  obtain ⟨fs₁, hv, hreg, hlen, hheld, ha⟩ := h
  obtain ⟨hre, hdisk, hmd⟩ := open_reopened hl hv hlen hr hheld hopen
  have hv' : OnVol dev mdDev hasMd geo fs' :=
    ⟨hre.vol.trans hv.vol, ⟨hre.devs.1.trans hv.devs.1, hre.devs.2.trans hv.devs.2⟩,
      (congrArg Freelist.len hre.flist).trans hv.flist, hre.hdr.trans hv.hdr, hre.tblSize.trans hv.tbl⟩
  refine ⟨hv', hre.registry hreg, hre.agrees hreg ha, fun roots' hroots => ?_⟩
  obtain rfl : roots = roots' := Option.some.inj hroots
  refine ⟨fs₁, hv, hreg, hlen, fun i hi => ?_, ha⟩
  rw [hdisk, hmd]
  exact hheld i hi

theorem sessionStep_rootsKept (hreg : Registry fs) {op : SessionOp}
    (hset : ∀ pool obj act, op ≠ .call (.poolSetRootObject pool obj act)) (hx : Between wiped Set.univ fs (env, op))
    (hstep : sessionStep wiped async fs (env, op) = some fs') : RootsKept fs fs' := by
  cases op with
  | call c =>
    cases c with
    | objectDestroy pool obj =>
      obtain ⟨⟨err, fs₁⟩, hrun, rfl⟩ := Option.map_eq_some_iff.1 hstep
      have hsteady := objectDestroy_steady (toOption_eq_some hrun)
      exact ⟨hsteady.rootsKept.kept, hsteady.rootsKept.new⟩
    | _ =>
      obtain ⟨⟨res, fs₁⟩, hrun, rfl⟩ := Option.map_eq_some_iff.1 hstep
      exact rootsKept_call hreg (fun pool obj act heq => hset pool obj act (congrArg _ heq)) (toOption_eq_some hrun)
  | write ndx obj buf offset len =>
    obtain ⟨r, -, rfl⟩ := Option.map_eq_some_iff.1 hstep
    exact .of_live (fun _ => rfl) fun _ hp => hp
  | unalignedWrite ndx obj buf offset len =>
    obtain ⟨r, -, rfl⟩ := Option.map_eq_some_iff.1 hstep
    exact .of_live (fun _ => rfl) fun _ hp => hp
  | reopen env₂ => exact absurd hx id

theorem Ledger.Inv.between (hl : Laid dev mdDev hasMd npools slabNlb geo) (hcs : hasMd = false → dev.cs = .cns)
    (h : s.Inv dev mdDev hasMd geo) {op : SessionOp} (hexact : ExactRanges (if hasMd then mdDev else dev) (env, op))
    (hx : Between wiped Set.univ s.fs (env, op)) (hstep : sessionStep wiped async s.fs (env, op) = some fs')
    (ha : Agrees fs' roots) : Ledger.Inv dev mdDev hasMd geo ⟨fs', roots, s.synced⟩ := by
  obtain ⟨hv, hreg⟩ := h.reg.step hl h.vol hexact hstep
  exact ⟨hv, hreg, ha, fun r hr => (h.synced r hr).congr fun i hi => metadata_kept hl hcs h.vol hx hstep hi⟩

theorem rootSet_lt {root : Option ℕ} {obj : Obj} {act : RootObjSetAction} (hfits : obj.Fits)
    (hroot : ∀ hndl, root = some hndl → hndl < 2 ^ 64) {hndl : ℕ} (h : (rootSet root obj act).2 = some hndl) :
    hndl < 2 ^ 64 := by
  unfold rootSet rootOf at h
  split_ifs at h
  · exact hroot hndl h
  · cases h
    exact objHndl_lt hfits

theorem Agrees.set (ha : Agrees fs roots) {ndx : ℕ} {obj : Obj} {act : RootObjSetAction} {err : ℤ}
    (hfits : obj.Fits) (hrun : flaBasePoolSetRootObject fs ndx obj act = .ok (err, fs')) :
    Agrees fs' (update roots ndx (rootSet (roots ndx) obj act).2) := by
  have hndx : ndx < fs.npools := by
    by_contra hle
    obtain ⟨e, he, -⟩ := bind_eq_ok hrun
    rw [Flexalloc.entryAt, if_neg hle] at he
    cases he
  obtain ⟨fs₁, hset, hroots⟩ := setRootObject_eq hndx obj act
  obtain ⟨-, rfl⟩ := Prod.mk.inj (Except.ok.inj (hset.symm.trans hrun))
  refine ⟨fun p hp => ?_, fun p hndl hroot => ?_⟩
  · have hlive : fs.PoolLive p := by
      rw [Flexalloc.PoolLive, ← (setRootObject_quiet hrun).flist]
      exact hp
    rw [hroots]
    by_cases heq : p = ndx
    · subst heq
      rw [update_self, update_self, ha.root p hlive]
    · rw [update_of_ne heq, update_of_ne heq, ha.root p hlive]
  · by_cases heq : p = ndx
    · subst heq
      rw [update_self] at hroot
      exact rootSet_lt hfits (ha.lt p) hroot
    · rw [update_of_ne heq] at hroot
      exact ha.lt p hndl hroot

theorem Ledger.Inv.sync (hl : Laid dev mdDev hasMd npools slabNlb geo) (h : s.Inv dev mdDev hasMd geo)
    (hx : env.RangesExact (if hasMd then mdDev else dev)) {err : ℤ} (hflush : flaFlush env s.fs = .ok (err, fs')) :
    Ledger.Inv dev mdDev hasMd geo
      ⟨fs', rootsAfter s.fs fs' s.roots (.call .sync), syncedAfter env s (.call .sync)⟩ := by
  have hfl := flush_flushed hflush
  have ha := hfl.rootsKept.agrees h.agrees
  refine ⟨hfl.onVol h.vol, hfl.quiet.registry h.reg, ha, fun r hr => ?_⟩
  have hsynced : (flaFlush env s.fs).toOption.bind (fun r => if r.1 = 0 then some s.roots else none) = some r := hr
  rw [hflush] at hsynced
  obtain ⟨q, hq, hsynced⟩ := Option.bind_eq_some_iff.1 hsynced
  cases hq
  split_ifs at hsynced with herr
  obtain rfl := Option.some.inj hsynced
  obtain rfl : err = 0 := herr
  exact .flushed hl h.vol h.reg h.agrees hx hflush

theorem Ledger.Inv.reopen (hl : Laid dev mdDev hasMd npools slabNlb geo) (h : s.Inv dev mdDev hasMd geo) {env₂ : Env}
    (hx : env.RangesExact (if hasMd then mdDev else dev)) (hx₂ : env₂.OffsetsExact (if hasMd then mdDev else dev))
    (hstep : sessionStep wiped async s.fs (env, .reopen env₂) = some fs') :
    Ledger.Inv dev mdDev hasMd geo ⟨fs', rootsAfter s.fs fs' s.roots (.reopen env₂), some s.roots⟩ := by
  obtain ⟨fs₁, err, hflush, hopen⟩ := reopen_eq_some hstep
  have hre := (reopen_inv hl h.vol (by rw [h.vol.mdHome]; exact hx) (by rw [h.vol.mdHome]; exact hx₂) hflush hopen).1
  have hmd := h.vol.hasMd_eq
  rw [h.vol.devs.1, h.vol.devs.2, hmd] at hopen
  have hopened := (HeldRoots.flushed hl h.vol h.reg h.agrees hx hflush).opened hl hx₂ hopen
  -- the pools are the same as before
  have hsame : rootsAfter s.fs fs' s.roots (.reopen env₂) = s.roots := by
    funext p
    exact if_neg fun hp => hp.2 ((hre.poolLive p).1 hp.1)
  rw [hsame]
  exact hopened

/-- **Each step.** -/
theorem Ledger.Inv.step (hl : Laid dev mdDev hasMd npools slabNlb geo) (hcs : hasMd = false → dev.cs = .cns)
    (h : s.Inv dev mdDev hasMd geo) {x : Env × LedgerOp} (hx : LedgerLegal (if hasMd then mdDev else dev) wiped s x)
    (hstep : ledgerStep wiped async s x = some t) : t.Inv dev mdDev hasMd geo := by
  obtain ⟨env, op⟩ := x
  cases op with
  | cut =>
    obtain ⟨roots, hsynced, hstep⟩ := Option.bind_eq_some_iff.1 hstep
    obtain ⟨fs', hopen, rfl⟩ := Option.map_eq_some_iff.1 hstep
    obtain ⟨⟨err, r⟩, hrun, hr⟩ := Option.bind_eq_some_iff.1 hopen
    obtain rfl : r = some fs' := hr
    have hopened := toOption_eq_some hrun
    have hmd := h.vol.hasMd_eq
    rw [h.vol.devs.1, h.vol.devs.2, hmd] at hopened
    exact (h.synced roots hsynced).opened hl hx hopened
  | go op =>
    obtain ⟨fs', hop, rfl⟩ := Option.map_eq_some_iff.1 hstep
    -- a step that is no sync and sets no root object
    have hother : (∀ pool obj act, op ≠ .call (.poolSetRootObject pool obj act)) → Between wiped Set.univ s.fs (env, op) →
        ExactRanges (if hasMd then mdDev else dev) (env, op) → Ledger.Inv dev mdDev hasMd geo
          ⟨fs', fun p => if fs'.PoolLive p ∧ ¬ s.fs.PoolLive p then none else s.roots p, s.synced⟩ :=
      fun hset hbetween hexact =>
        h.between hl hcs hexact hbetween hop ((sessionStep_rootsKept h.reg hset hbetween hop).agrees h.agrees)
    cases op with
    | call c =>
      cases c with
      | sync =>
        obtain ⟨⟨res, fs₁⟩, hrun, rfl⟩ := Option.map_eq_some_iff.1 hop
        obtain ⟨⟨err, fs₂⟩, hflush, hrun⟩ := bind_eq_ok (toOption_eq_some hrun)
        cases hrun
        exact h.sync hl hx hflush
      | poolSetRootObject pool obj act =>
        obtain ⟨⟨res, fs₁⟩, hrun, rfl⟩ := Option.map_eq_some_iff.1 hop
        obtain ⟨⟨err, fs₂⟩, hset, hrun⟩ := bind_eq_ok (toOption_eq_some hrun)
        cases hrun
        have hbetween : Between wiped Set.univ s.fs (env, .call (.poolSetRootObject pool obj act)) := Call.noConfusion
        have hexact : ExactRanges (if hasMd then mdDev else dev) (env, .call (.poolSetRootObject pool obj act)) := trivial
        exact h.between hl hcs hexact hbetween hop (h.agrees.set hx hset)
      | _ => exact hother (fun _ _ _ heq => by cases heq) hx trivial
    | reopen env₂ => exact h.reopen hl hx.1 hx.2 hop
    | _ => exact hother (fun _ _ _ heq => by cases heq) hx trivial

/-- what the ledger says of the pools that are there -/
structure Durable (dev mdDev : Dev) (hasMd : Bool) (wiped : Bytes) (async : StrpXfer) (s : Ledger) : Prop where
  /-- a get returns the root object -/
  get : ∀ p, s.fs.PoolLive p → flaBasePoolGetRootObject s.fs p = .ok (rootGet (s.roots p))
  /-- a set is refused exactly when there is one already and it is not forced -/
  set : ∀ p obj act, s.fs.PoolLive p →
    ∃ fs', flaBasePoolSetRootObject s.fs p obj act = .ok ((rootSet (s.roots p) obj act).1, fs')
  /-- devices that pass the checks and do all they are asked can be opened after a cut -/
  works : s.synced ≠ none → flaDevSanityCheck dev (if hasMd then mdDev else dev) = 0 →
    0 < flaXneCalcMdtsNaddrs (if hasMd then mdDev else dev) → ∃ t, ledgerStep wiped async s (.reliable, .cut) = some t

theorem Ledger.Inv.durable (hl : Laid dev mdDev hasMd npools slabNlb geo) (h : s.Inv dev mdDev hasMd geo) :
    Durable dev mdDev hasMd wiped async s := by
  have hlt : ∀ p, s.fs.PoolLive p → p < s.fs.npools := fun p hp => ((poolLive_iff h.reg.len p).1 hp).1
  refine ⟨fun p hp => ?_, fun p obj act hp => ?_, fun hsome hsane hmdts => ?_⟩
  · rw [getRootObject_eq (hlt p hp), h.agrees.root p hp]
  · obtain ⟨fs', hset, -⟩ := setRootObject_eq (hlt p hp) obj act
    rw [h.agrees.root p hp] at hset
    exact ⟨fs', hset⟩
  · obtain ⟨roots, hroots⟩ := Option.ne_none_iff_exists'.1 hsome
    obtain ⟨fs₁, hv, -, -, hheld, -⟩ := h.synced roots hroots
    obtain ⟨fs', hopen⟩ := open_ok hl hv hsane hmdts hheld
    have hmd := h.vol.hasMd_eq
    refine ⟨⟨fs', roots, some roots⟩, ?_⟩
    unfold ledgerStep
    dsimp only
    rw [hroots, h.vol.devs.1, h.vol.devs.2, hmd, hopen]
    rfl

/-- **Root objects** are registers: in every state reached, gets and sets return what the ledger says. A power cut rolls
them back to the last sync, and nothing else does. -/
theorem roots_durable (hm : Mounted dev mdDev hasMd npools slabNlb geo fs) (hlb : 512 ≤ dev.lbNbytes)
    (hbytes : flaGeoNbytes geo < 2 ^ 32) (hcs : hasMd = false → dev.cs = .cns) {xs : List (Env × LedgerOp)}
    (hlegal : along (LedgerLegal (if hasMd then mdDev else dev) wiped) (ledgerStep wiped async) (.init fs) xs)
    (hrun : run (ledgerStep wiped async) (.init fs) xs = some s) : Durable dev mdDev hasMd wiped async s := by
  have hl : Laid dev mdDev hasMd npools slabNlb geo := ⟨hm.accepted, hm.slabNlb_lt, hm.same_lb, hlb, hbytes⟩
  have hreg := hm.registry hl
  have hstart : (Ledger.init fs).Inv dev mdDev hasMd geo := by
    refine ⟨hm.onVol, hreg, ⟨fun p hp => ?_, fun p hndl hroot => by cases hroot⟩, fun r hr => by cases hr⟩
    -- no pool is there
    have hlive : fs.PoolLive p := hp
    obtain ⟨hlt, hused⟩ := mem_reserved.1 hlive
    rw [hm.fresh.pools] at hlt hused
    have hfree := init_isFree geo.npools p
    rw [decide_eq_true (show p < geo.npools from hlt)] at hfree
    exact absurd (hfree.symm.trans hused) (by decide)
  have hinv : s.Inv dev mdDev hasMd geo :=
    run_inv_along (R := fun _ => True) (fun _ _ _ h hx _ hstep => h.step hl hcs hx hstep) hstart (fun _ _ => trivial) hlegal
      hrun
  exact hinv.durable hl

/-- a pool gets a root object, which is synced, and then another; then the power goes -/
def ledgerCalls : List (Env × LedgerOp) :=
  [.go (.call (.poolCreate (smallArg 97 1))), .go (.call (.poolSetRootObject ⟨0, 0⟩ ⟨2, 3⟩ ⟨false, false⟩)),
    .go (.call .sync), .go (.call (.poolSetRootObject ⟨0, 0⟩ ⟨4, 5⟩ ⟨true, false⟩)), .cut].map (Env.reliable, ·)

theorem roots_durable_small : ∃ s, run (ledgerStep 0 fun _ _ b => .ok (0, b)) (.init (flaMkfs smallDev smallGeo 0))
    ledgerCalls = some s ∧ s.fs.PoolLive 0 ∧ s.roots 0 = some (objHndl ⟨2, 3⟩) ∧
      Durable smallDev smallDev false 0 (fun _ _ b => .ok (0, b)) s := by
  obtain ⟨s, hrun, hval⟩ := Option.map_eq_some_iff.1 (show (run (ledgerStep 0 fun _ _ b => .ok (0, b))
    (.init (flaMkfs smallDev smallGeo 0)) ledgerCalls).map (fun s => decide (s.fs.PoolLive 0 ∧
      s.roots 0 = some (objHndl ⟨2, 3⟩))) = some true by decide +kernel)
  obtain ⟨hlive, hroot⟩ := of_decide_eq_true hval
  have hlegal : along (LedgerLegal smallDev 0) (ledgerStep 0 fun _ _ b => .ok (0, b))
      (.init (flaMkfs smallDev smallGeo 0)) ledgerCalls := by
    refine ⟨Call.noConfusion, fun _ _ => ⟨⟨by decide, by decide⟩, fun _ _ => ⟨reliable_rangesExact _, fun _ _ =>
      ⟨⟨by decide, by decide⟩, fun _ _ => ⟨reliable_offsetsExact _, fun _ _ => trivial⟩⟩⟩⟩⟩
  exact ⟨s, hrun, hlive, hroot, roots_durable small_mounted (by decide) (by decide +kernel) (fun _ => rfl) hlegal hrun⟩

end Ledger

end FlexAlloc
