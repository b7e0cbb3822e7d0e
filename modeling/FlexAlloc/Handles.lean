/-
Pool handles whose index is past the pools.

A handle comes from a caller, or from a message of a client, as it is. The calls that take one should refuse an index
at or past `npools` before they touch `pools.entries` or `pools.entrie_funcs` with it. Only `fla_base_pool_destroy` has a
check of the index, and it lets `npools` itself through; where another call returns an error, it is for another reason.
A call that touches an array past its end does not return in the model (`entryAt`, `fncAt`).

- `hdllRemove_zero_iff`, `hdllPrepend_zero_iff`, `moveSlab_zero_iff`: when a slab can change lists.
- `objectDestroy_refused_iff`: when an object destroy with such a handle returns an error.
- `handle_refused_iff`: of the calls that take a handle, which refuse it, in any state whatsoever.
- `handle_not_refused`: the destroy of pool `npools`.
- `Standing.movable`: in a session slabs can always change lists, so that the last reason does not occur.
-/
import FlexAlloc.FailedDestroy
import FlexAlloc.Ownership

namespace FlexAlloc

open FlexAlloc.Core Function

/-! ## When a slab can change lists -/

section Lists

variable {n x head : ℕ} {hd : ℕ → SlabHeader}

theorem hdllPrepend_zero_iff (hd : ℕ → SlabHeader) (head : ℕ) (hx : flaSlabRangeCheckId n x = false) :
    (flaHdllPrepend n hd x head).1 = 0 ↔ Within n head := by
  unfold flaHdllPrepend Within
  by_cases hnull : head = flaLinkedListNull
  · simp [hx, hnull]
  · by_cases hck : flaSlabRangeCheckId n head = true
    · simp [hx, hnull, hck]
    · simp [hx, hnull, hck]

theorem hdllRemoveNext_zero_iff : (hdllRemoveNext n hd x head).1 = 0 ↔ Within n (hd x).next := by
  unfold hdllRemoveNext Within
  by_cases hnull : (hd x).next = flaLinkedListNull
  · simp [hnull]
  · by_cases hck : flaSlabRangeCheckId n (hd x).next = true
    · simp [hnull, hck]
    · simp [hnull, hck]

theorem hdllRemoveNext_head : (hdllRemoveNext n hd x head).2.2 = head := by
  unfold hdllRemoveNext
  split_ifs <;> rfl

theorem hdllRemove_zero_iff (n : ℕ) (hd : ℕ → SlabHeader) (x head : ℕ) :
    (flaHdllRemove n hd x head).1 = 0 ↔ Within n (hd x).prev ∧ Within n (hd x).next := by
  unfold flaHdllRemove
  by_cases hnull : (hd x).prev = flaLinkedListNull
  · simp [hnull, hdllRemoveNext_zero_iff, within_null]
  · by_cases hck : flaSlabRangeCheckId n (hd x).prev = true
    · have hout : ¬ Within n (hd x).prev := by simp [Within, hnull, hck]
      simp [hnull, hck, hout]
    · have hin : Within n (hd x).prev := within_of_check hck
      -- a slab that is its own predecessor keeps its successor
      have hnext : (update hd (hd x).prev { hd (hd x).prev with next := (hd x).next } x).next = (hd x).next := by
        by_cases hx : x = (hd x).prev
        · rw [← hx, update_self]
        · rw [update_of_ne hx]
      simp [hnull, hck, hin, hdllRemoveNext_zero_iff, hnext]

theorem hdllRemove_head (h : (flaHdllRemove n hd x head).1 = 0) :
    (flaHdllRemove n hd x head).2.2 = if (hd x).prev = flaLinkedListNull then (hd x).next else head := by
  unfold flaHdllRemove at h ⊢
  split_ifs at h ⊢ with hnull hck
  · exact hdllRemoveNext_head
  · simp at h
  · exact hdllRemoveNext_head

end Lists

/-- a slab can be taken out of one list of its pool and put in front of another: its links and the head it is to be put
in front of end a list or are slabs -/
structure Movable (fs : Flexalloc) (slab : ℕ) (src dst : SlabKind) : Prop where
  prev : Within fs.nslabs (fs.header slab).prev
  next : Within fs.nslabs (fs.header slab).next
  head : src = dst ∧ (fs.header slab).prev = flaLinkedListNull ∨
    Within fs.nslabs ((fs.pools.entries (fs.header slab).pool).head dst)

section Move

variable {fs : Flexalloc} {slab : ℕ}

/-- the head that a slab just taken out of the list `src` finds in the list `dst` -/
theorem within_head_iff {n prev next head : ℕ} (heads : SlabKind → ℕ) {src : SlabKind} (dst : SlabKind)
    (hnext : Within n next)
    (hhead : head = if prev = flaLinkedListNull then next else heads src) :
    Within n (if dst = src then head else heads dst) ↔ src = dst ∧ prev = flaLinkedListNull ∨ Within n (heads dst) := by
  by_cases hsame : dst = src
  · subst hsame
    by_cases hfirst : prev = flaLinkedListNull
    · simp [hhead, hfirst, hnext]
    · simp [hhead, hfirst]
  · simp [hsame, Ne.symm hsame]

theorem onListPrepend_zero_iff (hs : flaSlabRangeCheckId fs.nslabs slab = false) (pool : ℕ) (dst : SlabKind) :
    (fs.onList pool dst fun hd head => flaHdllPrepend fs.nslabs hd slab head).1 = 0 ↔
      Within fs.nslabs ((fs.pools.entries pool).head dst) := by
  cases hp : flaHdllPrepend fs.nslabs fs.slabs.headers slab ((fs.pools.entries pool).head dst) with
  | mk err r =>
    obtain ⟨hd, head⟩ := r
    have hop : (fs.onList pool dst fun hd head => flaHdllPrepend fs.nslabs hd slab head) = _ :=
      onList_eq fs pool dst _ hp
    have hz := hdllPrepend_zero_iff fs.slabs.headers ((fs.pools.entries pool).head dst) hs
    rw [hp] at hz
    rw [hop]
    exact hz

/-- **A slab changes lists** of its pool exactly when it is movable. -/
theorem moveSlab_zero_iff (hs : flaSlabRangeCheckId fs.nslabs slab = false) (src dst : SlabKind) :
    (moveSlab fs slab ((fs.header slab).pool, src) ((fs.header slab).pool, dst)).1 = 0 ↔ Movable fs slab src dst := by
  generalize hpool : (fs.header slab).pool = pool
  cases hremove : flaHdllRemove fs.nslabs fs.slabs.headers slab ((fs.pools.entries pool).head src) with
  | mk err r =>
    obtain ⟨hd, head⟩ := r
    have hlinks := hdllRemove_zero_iff fs.nslabs fs.slabs.headers slab ((fs.pools.entries pool).head src)
    have hhead : (flaHdllRemove fs.nslabs fs.slabs.headers slab ((fs.pools.entries pool).head src)).1 = 0 → _ :=
      hdllRemove_head
    rw [hremove] at hlinks hhead
    have hop : (fs.onList pool src fun hd head => flaHdllRemove fs.nslabs hd slab head) = _ :=
      onList_eq fs pool src _ hremove
    unfold moveSlab
    dsimp only
    rw [hop]
    dsimp only
    by_cases herr : err = 0
    · have hnext := (hlinks.1 herr).2
      have hent : (fs.withLists pool ((fs.pools.entries pool).setHead src head) hd).pools.entries pool =
          (fs.pools.entries pool).setHead src head := by
        simp [Flexalloc.withLists, Flexalloc.setEntry]
      have hn : (fs.withLists pool ((fs.pools.entries pool).setHead src head) hd).nslabs = fs.nslabs := by
        simp only [Flexalloc.withLists, Flexalloc.setEntry]
      rw [if_neg (not_not.2 herr)]
      refine (onListPrepend_zero_iff (hn.symm ▸ hs) pool dst).trans ?_
      rw [hent, hn, head_setHead]
      have hiff := within_head_iff (fs.pools.entries pool).head dst hnext (hhead herr)
      rw [hiff]
      constructor
      · intro h
        refine ⟨(hlinks.1 herr).1, hnext, ?_⟩
        rw [hpool]
        exact h
      · intro h
        rw [← hpool]
        exact h.head
    · rw [if_pos herr]
      exact ⟨fun h => absurd h herr, fun h => hlinks.2 ⟨h.prev, h.next⟩⟩

theorem movable_recount (c : CacheElem) (r : ℕ) (src dst : SlabKind) :
    Movable (fs.recount slab c r) slab src dst ↔ Movable fs slab src dst := by
  constructor
  · rintro ⟨hprev, hnext, hhead⟩
    rw [recount_header] at hprev hnext hhead
    exact ⟨hprev, hnext, hhead⟩
  · rintro ⟨hprev, hnext, hhead⟩
    constructor
    · rw [recount_header]
      exact hprev
    · rw [recount_header]
      exact hnext
    · rw [recount_header]
      exact hhead

end Move

/-! ## An object destroy -/

section Destroy

variable {env : Env} {fs : Flexalloc} {ndx : ℕ} {obj : Obj}

/-- what a destroy on a conventional device returns an error for, in the order of its checks; before that it calls a
function of the pool that the slab's header names, which must be there -/
inductive DestroyRefused (fs : Flexalloc) (obj : Obj) : Prop where
  | slab (h : flaSlabRangeCheckId fs.nslabs obj.slabId = true)
  | cache (hfnc : fs.fncAt (fs.header obj.slabId).pool = .ok .dflt) (hst : (fs.cache obj.slabId).state = .stale)
  | entry (hfnc : fs.fncAt (fs.header obj.slabId).pool = .ok .dflt) (hst : (fs.cache obj.slabId).state ≠ .stale)
      (buf : FlistBuf) (hbuf : (fs.cache obj.slabId).freelist = some buf) (hpast : buf.flist.len < u32 obj.entryNdx)
  | lists (hfnc : fs.fncAt (fs.header obj.slabId).pool = .ok .dflt) (hst : (fs.cache obj.slabId).state ≠ .stale)
      (buf : FlistBuf) (hbuf : (fs.cache obj.slabId).freelist = some buf)
      (hword : u32 obj.entryNdx ≤ buf.flist.len ∧ u32 obj.entryNdx / 32 < buf.flist.words.length)
      (hmove : ¬ Movable fs obj.slabId
        (kindOf (fs.pools.entries (fs.header obj.slabId).pool).slabNobj (fs.header obj.slabId).refcount)
        (kindOf (fs.pools.entries (fs.header obj.slabId).pool).slabNobj (sub32 (fs.header obj.slabId).refcount 1)))

/-- the call returns, and what it returns is an error -/
def Fails (r : Ret (ℤ × Flexalloc)) : Prop := ∃ err fs', r = .ok (err, fs') ∧ err ≠ 0

theorem fails_error (f : Fault) : ¬ Fails (.error f) := by
  rintro ⟨err, fs', h, -⟩
  cases h

theorem fails_ok (err : ℤ) (fs' : Flexalloc) : Fails (.ok (err, fs')) ↔ err ≠ 0 := by
  constructor
  · rintro ⟨err', fs'', h, hne⟩
    cases h
    exact hne
  · exact fun h => ⟨err, fs', rfl, h⟩

theorem entryAt_past {i : ℕ} (h : fs.npools ≤ i) : fs.entryAt i = .error .outOfBounds := if_neg (Nat.not_lt.2 h)

theorem entryAt_of_fncAt {i : ℕ} {f : EntryFnc} (h : fs.fncAt i = .ok f) : fs.entryAt i = .ok (fs.pools.entries i) := by
  unfold Flexalloc.fncAt at h
  split_ifs at h with hi
  exact if_pos hi

theorem bestSlabList_dflt {slab : ℕ} (h : fs.fncAt (fs.header slab).pool = .ok .dflt) :
    flaPoolBestSlabList fs slab = .ok ((fs.header slab).pool,
      kindOf (fs.pools.entries (fs.header slab).pool).slabNobj (fs.header slab).refcount) := by
  simp only [flaPoolBestSlabList, entryAt_of_fncAt h, h, EntryFnc.numFlaObjs]
  rfl

theorem bestSlabList_ok {slab : ℕ} {f : EntryFnc} (h : fs.fncAt (fs.header slab).pool = .ok f) :
    ∃ r, flaPoolBestSlabList fs slab = .ok r := by
  simp only [flaPoolBestSlabList, entryAt_of_fncAt h, h]
  exact ⟨_, rfl⟩

theorem bestSlabList_error {slab : ℕ} {f : Fault} (h : fs.fncAt (fs.header slab).pool = .error f) :
    ∃ g, flaPoolBestSlabList fs slab = .error g := by
  unfold flaPoolBestSlabList
  dsimp only
  rw [h]
  cases fs.entryAt (fs.header slab).pool with
  | error g => exact ⟨g, rfl⟩
  | ok e => exact ⟨f, rfl⟩

/-- **The end of a destroy** fails when the slab cannot change lists. -/
theorem objectFreed_fails_iff (hck : flaSlabRangeCheckId fs.nslabs obj.slabId = false)
    (hfnc : fs.fncAt (fs.header obj.slabId).pool = .ok .dflt) (c : CacheElem) {src dst : SlabKind}
    (hdst : kindOf (fs.pools.entries (fs.header obj.slabId).pool).slabNobj (sub32 (fs.header obj.slabId).refcount 1) = dst) :
    Fails (objectFreed (fs.setElem obj.slabId c) obj.slabId 1 ((fs.header obj.slabId).pool, src)) ↔
      ¬ Movable fs obj.slabId src dst := by
  have hcount : (fs.setElem obj.slabId c).subRefcount obj.slabId 1 =
      fs.recount obj.slabId c (sub32 (fs.header obj.slabId).refcount 1) := rfl
  have hheader := recount_header fs obj.slabId c (sub32 (fs.header obj.slabId).refcount 1)
  have hbest : flaPoolBestSlabList (fs.recount obj.slabId c (sub32 (fs.header obj.slabId).refcount 1)) obj.slabId = _ :=
    bestSlabList_dflt (by rw [hheader]; exact hfnc)
  rw [hheader] at hbest
  have hpool : ((fs.recount obj.slabId c (sub32 (fs.header obj.slabId).refcount 1)).header obj.slabId).pool =
      (fs.header obj.slabId).pool := by rw [hheader]
  have hmove := @moveSlab_zero_iff (fs.recount obj.slabId c (sub32 (fs.header obj.slabId).refcount 1)) obj.slabId hck
    src dst
  rw [movable_recount, hpool] at hmove
  have hkind : kindOf ((fs.recount obj.slabId c (sub32 (fs.header obj.slabId).refcount 1)).pools.entries
      (fs.header obj.slabId).pool).slabNobj (sub32 (fs.header obj.slabId).refcount 1) = dst := hdst
  dsimp only at hbest
  rw [hkind] at hbest
  unfold objectFreed
  rw [hcount, hbest, ok_bind, fails_ok, ne_eq, hmove]

/-- giving back one entry: it is past the end, or it is in a word of the list, or its word is past the list -/
theorem entriesFree_one_cases (fl : Freelist) (i : ℕ) :
    (fl.len < u32 i ∧ flaFlistEntriesFree fl i 1 = .ok (-1, fl)) ∨
      ((u32 i ≤ fl.len ∧ u32 i / 32 < fl.words.length) ∧ ∃ fl', flaFlistEntriesFree fl i 1 = .ok (0, fl')) ∨
      (¬ fl.len < u32 i ∧ ¬ u32 i / 32 < fl.words.length) ∧ ∃ f, flaFlistEntriesFree fl i 1 = .error f := by
  unfold flaFlistEntriesFree flaFlistEntryFree
  by_cases hpast : fl.len < u32 i
  · rw [if_pos hpast]
    exact Or.inl ⟨hpast, rfl⟩
  · rw [if_neg hpast]
    by_cases hword : u32 i / 32 < fl.words.length
    · rw [if_pos hword]
      exact Or.inr (Or.inl ⟨⟨Nat.not_lt.1 hpast, hword⟩, _, rfl⟩)
    · rw [if_neg hword]
      exact Or.inr (Or.inr ⟨⟨hpast, hword⟩, _, rfl⟩)

theorem objFree_fails_iff (hck : flaSlabRangeCheckId fs.nslabs obj.slabId = false)
    (hfnc : fs.fncAt (fs.header obj.slabId).pool = .ok .dflt) :
    Fails (do
      let (err, fs') ← flaSlabCacheObjFree fs obj 1
      if err ≠ 0 then .ok (err, fs') else objectFreed fs' obj.slabId 1 ((fs.header obj.slabId).pool,
        kindOf (fs.pools.entries (fs.header obj.slabId).pool).slabNobj (fs.header obj.slabId).refcount)) ↔
    DestroyRefused fs obj := by
  unfold flaSlabCacheObjFree
  by_cases hst : (fs.cache obj.slabId).state = .stale
  · rw [if_pos hst, ok_bind]
    dsimp only
    rw [if_pos (by decide), fails_ok]
    exact ⟨fun _ => .cache hfnc hst, fun _ => by decide⟩
  rw [if_neg hst]
  cases hbuf : (fs.cache obj.slabId).freelist with
  | none =>
    refine ⟨fun h => absurd h (fails_error _), fun h => ?_⟩
    cases h with
    | slab h => simp [hck] at h
    | cache _ h => exact absurd h hst
    | entry _ _ buf h _ => cases hbuf.symm.trans h
    | lists _ _ buf h _ _ => cases hbuf.symm.trans h
  | some buf =>
    dsimp only
    rcases entriesFree_one_cases buf.flist obj.entryNdx with ⟨hpast, hfree⟩ | ⟨hword, fl', hfree⟩ | ⟨hnone, f, hfree⟩
    · rw [hfree]
      dsimp only
      rw [if_pos (by decide), ok_bind]
      dsimp only
      rw [if_pos (by decide), fails_ok]
      exact ⟨fun _ => .entry hfnc hst buf hbuf hpast, fun _ => by decide⟩
    · rw [hfree]
      dsimp only
      rw [if_neg (by decide), ok_bind]
      dsimp only
      rw [if_neg (by decide), objectFreed_fails_iff hck hfnc _ rfl]
      refine ⟨fun h => .lists hfnc hst buf hbuf hword h, fun h => ?_⟩
      cases h with
      | slab h => simp [hck] at h
      | cache _ h => exact absurd h hst
      | entry _ _ buf' h hpast =>
        cases hbuf.symm.trans h
        omega
      | lists _ _ _ _ _ hmove => exact hmove
    · rw [hfree]
      refine ⟨fun h => absurd h (fails_error _), fun h => ?_⟩
      cases h with
      | slab h => simp [hck] at h
      | cache _ h => exact absurd h hst
      | entry _ _ buf' h hpast =>
        cases hbuf.symm.trans h
        exact absurd hpast hnone.1
      | lists _ _ buf' h hword _ =>
        cases hbuf.symm.trans h
        exact absurd hword.2 hnone.2

theorem DestroyRefused.fnc (h : DestroyRefused fs obj) (hck : flaSlabRangeCheckId fs.nslabs obj.slabId = false) :
    fs.fncAt (fs.header obj.slabId).pool = .ok .dflt := by
  cases h with
  | slab h => simp [hck] at h
  | cache hfnc _ => exact hfnc
  | entry hfnc _ _ _ _ => exact hfnc
  | lists hfnc _ _ _ _ _ => exact hfnc

/-- **An object destroy** whose pool index is past the pools, on a conventional device. -/
theorem objectDestroy_refused_iff (hcs : fs.vol.cs = .cns) (hout : fs.npools ≤ ndx) :
    Fails (flaBaseObjectDestroy env fs ndx obj) ↔ DestroyRefused fs obj := by
  unfold flaBaseObjectDestroy csObjectDestroy
  rw [hcs]
  dsimp only
  rw [ok_bind, if_neg (by simp)]
  by_cases hck : flaSlabRangeCheckId fs.nslabs obj.slabId = true
  · rw [if_pos hck, fails_ok]
    exact ⟨fun _ => .slab hck, fun _ => by decide⟩
  rw [if_neg hck]
  have hck' : flaSlabRangeCheckId fs.nslabs obj.slabId = false := Bool.not_eq_true _ ▸ hck
  cases hfnc : fs.fncAt (fs.header obj.slabId).pool with
  | error f =>
    obtain ⟨g, hbest⟩ := bestSlabList_error hfnc
    rw [hbest]
    exact ⟨fun h => absurd h (fails_error g), fun h => by cases hfnc.symm.trans (h.fnc hck')⟩
  | ok fnc =>
    cases fnc with
    | strp =>
      have hnum : fs.numFlaObjsAt .strp ndx = .error .outOfBounds := by
        rw [Flexalloc.numFlaObjsAt, entryAt_past hout]
        rfl
      obtain ⟨r, hbest⟩ := bestSlabList_ok hfnc
      rw [hbest, ok_bind, ok_bind, hnum]
      exact ⟨fun h => absurd h (fails_error _), fun h => by cases hfnc.symm.trans (h.fnc hck')⟩
    | dflt =>
      rw [bestSlabList_dflt hfnc, ok_bind, ok_bind]
      exact objFree_fails_iff hck' hfnc

end Destroy

/-! ## The calls that take a handle -/

inductive HandleCall where
  | poolDestroy
  | objectOpen (obj : Obj)
  | objectCreate
  | objectDestroy (obj : Obj)
  | setRootObject (obj : Obj) (act : RootObjSetAction)
  | getRootObject
deriving DecidableEq, Repr

/-- the call with that handle, without what it gives back along with a 0 -/
def HandleCall.perform (env : Env) (fs : Flexalloc) (handle : PoolHandle) : HandleCall → Ret (ℤ × Flexalloc)
  | .poolDestroy => flaBasePoolDestroy fs handle
  | .objectOpen obj => flaBaseObjectOpen env fs handle.ndx obj
  | .objectCreate => do
    let (err, _, fs) ← flaBaseObjectCreate env fs handle.ndx
    .ok (err, fs)
  | .objectDestroy obj => flaBaseObjectDestroy env fs handle.ndx obj
  | .setRootObject obj act => flaBasePoolSetRootObject fs handle.ndx obj act
  | .getRootObject => do
    let (err, _) ← flaBasePoolGetRootObject fs handle.ndx
    .ok (err, fs)

/-- when a call refuses a handle whose index is past the pools -/
def HandleCall.Refuses (fs : Flexalloc) (handle : PoolHandle) : HandleCall → Prop
  | .poolDestroy => handle.ndx ≠ fs.npools
  | .objectOpen obj => flaSlabRangeCheckId fs.nslabs obj.slabId = true
  | .objectDestroy obj => fs.vol.cs = .cns ∧ DestroyRefused fs obj
  | _ => False

section Calls

variable {env : Env} {fs : Flexalloc} {handle : PoolHandle}

theorem poolDestroy_refused_iff (hout : fs.npools ≤ handle.ndx) :
    Fails (flaBasePoolDestroy fs handle) ↔ handle.ndx ≠ fs.npools := by
  unfold flaBasePoolDestroy poolDestroyCheck
  by_cases hlt : fs.npools < handle.ndx
  · rw [if_pos hlt, ok_bind, if_pos (by decide), fails_ok]
    exact ⟨fun _ => by omega, fun _ => by decide⟩
  · rw [if_neg hlt, entryAt_past hout]
    exact ⟨fun h => absurd h (fails_error _), fun h => absurd h (by omega)⟩

theorem objectOpen_refused_iff {obj : Obj} (hout : fs.npools ≤ handle.ndx) :
    Fails (flaBaseObjectOpen env fs handle.ndx obj) ↔ flaSlabRangeCheckId fs.nslabs obj.slabId = true := by
  unfold flaBaseObjectOpen
  by_cases hck : flaSlabRangeCheckId fs.nslabs obj.slabId = true
  · rw [if_pos hck, fails_ok]
    exact ⟨fun _ => hck, fun _ => by decide⟩
  · rw [if_neg hck, entryAt_past hout]
    exact ⟨fun h => absurd h (fails_error _), fun h => absurd h hck⟩

/-- **Handles past the pools.** In any state, a call with such a handle returns an error without touching the pools past
their end exactly when it refuses the handle: a pool destroy unless the index is `npools`, an object open for the slab
id it is given, an object destroy on a conventional device for the object it is given, the other calls never. -/
theorem handle_refused_iff (env : Env) (fs : Flexalloc) (handle : PoolHandle) (hout : fs.npools ≤ handle.ndx)
    (c : HandleCall) : Fails (c.perform env fs handle) ↔ c.Refuses fs handle := by
  cases c with
  | poolDestroy => exact poolDestroy_refused_iff hout
  | objectOpen obj => exact objectOpen_refused_iff hout
  | objectCreate =>
    unfold HandleCall.perform flaBaseObjectCreate
    rw [entryAt_past hout]
    exact iff_of_false (fails_error _) id
  | objectDestroy obj =>
    cases hcs : fs.vol.cs with
    | cns =>
      refine (objectDestroy_refused_iff hcs hout).trans ⟨fun h => ⟨hcs, h⟩, fun h => h.2⟩
    | zns nzsect =>
      -- the zone reset reads the entry of the pool first
      have hreset : flaBaseObjectDestroy env fs handle.ndx obj = .error .outOfBounds := by
        unfold flaBaseObjectDestroy csObjectDestroy
        rw [hcs]
        dsimp only
        unfold zndManageZonesObjectReset
        rw [entryAt_past hout]
        rfl
      have hperform : HandleCall.perform env fs handle (.objectDestroy obj) = .error .outOfBounds := hreset
      rw [hperform]
      exact iff_of_false (fails_error _) fun h => by cases hcs.symm.trans h.1
  | setRootObject obj act =>
    unfold HandleCall.perform flaBasePoolSetRootObject
    rw [entryAt_past hout]
    exact iff_of_false (fails_error _) id
  | getRootObject =>
    unfold HandleCall.perform flaBasePoolGetRootObject
    rw [entryAt_past hout]
    exact iff_of_false (fails_error _) id

/-- two pools, and the destroy of pool 3 -/
theorem handle_refused_three : Fails (HandleCall.poolDestroy.perform .reliable (flaMkfs smallDev smallGeo 0) ⟨0, 3⟩) :=
  (handle_refused_iff .reliable (flaMkfs smallDev smallGeo 0) ⟨0, 3⟩ (by decide +kernel) .poolDestroy).2
    (show 3 ≠ _ by decide +kernel)

/-- **Pool `npools`** is not refused: two pools, and the destroy of pool 2. -/
theorem handle_not_refused : ¬ ∀ (handle : PoolHandle) (c : HandleCall),
    (flaMkfs smallDev smallGeo 0).npools ≤ handle.ndx → Fails (c.perform .reliable (flaMkfs smallDev smallGeo 0) handle) := by
  intro h
  have hrefused := h ⟨0, 2⟩ .poolDestroy (by decide +kernel)
  have hpast : (flaMkfs smallDev smallGeo 0).npools ≤ (⟨0, 2⟩ : PoolHandle).ndx := by decide +kernel
  exact (poolDestroy_refused_iff hpast).1 hrefused (by decide +kernel)

/-- in a session every slab can change lists that was ever acquired, and every one of more than one -/
theorem Standing.movable {dev mdDev : Dev} {hasMd : Bool} {geo : Geo} (h : Standing dev mdDev hasMd geo fs) {slab : ℕ}
    (hacq : ¬ NeverAcquired geo fs slab) (src dst : SlabKind) : Movable fs slab src dst := by
  have hn : fs.nslabs = geo.nslabs := congrArg Geo.nslabs h.vol.geo_eq
  constructor
  · rw [hn]
    exact (h.within_iff slab).2 hacq
  · rw [hn]
    exact h.links.next slab
  · rw [hn]
    exact Or.inr (h.links.heads _ dst)

end Calls

end FlexAlloc
