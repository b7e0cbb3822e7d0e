/-
Acquiring, formatting and releasing slabs (`flexalloc_mm.c`), and emptying a pool's lists (`fla_hdll_remove_all` of
`flexalloc_ll.c` with `fla_release_slab`).

`fla_format_slab` writes 0 into the pool field of every slab it formats, whatever pool acquires it.
-/
import FlexAlloc.SlabCache
import FlexAlloc.SlabList

namespace FlexAlloc

open Function

/-- the lists a pool keeps its slabs in -/
inductive SlabKind where
  | empty
  | full
  | part
deriving DecidableEq, Repr

def PoolEntry.head (e : PoolEntry) : SlabKind → ℕ
  | .empty => e.emptySlabs
  | .full => e.fullSlabs
  | .part => e.partialSlabs

def PoolEntry.setHead (e : PoolEntry) (k : SlabKind) (v : ℕ) : PoolEntry :=
  match k with
  | .empty => { e with emptySlabs := v }
  | .full => { e with fullSlabs := v }
  | .part => { e with partialSlabs := v }

/-- run a list operation on list `k` of pool `ndx` -/
def Flexalloc.onList (fs : Flexalloc) (ndx : ℕ) (k : SlabKind)
    (op : (ℕ → SlabHeader) → ℕ → ℤ × (ℕ → SlabHeader) × ℕ) : ℤ × Flexalloc :=
  let r := op fs.slabs.headers ((fs.pools.entries ndx).head k)
  (r.1, { fs.setEntry ndx ((fs.pools.entries ndx).setHead k r.2.2) with slabs := { fs.slabs with headers := r.2.1 } })

def flaReleaseSlab (fs : Flexalloc) (rSlab : ℕ) : ℤ × Flexalloc :=
  if (fs.header rSlab).refcount ≠ 0 then (1, fs)
  else if flaSlabRangeCheckId fs.nslabs rSlab then (1, fs)
  else
    let fs := flaSlabCacheElemDrop fs rSlab
    let q := flaEdllAddTail fs.nslabs fs.slabs.headers fs.slabs.fslabHead fs.slabs.fslabTail rSlab
    if q.1 ≠ 0 then (q.1, { fs with slabs := ⟨q.2.1, fs.slabs.fslabNum, q.2.2.1, q.2.2.2⟩ })
    else (0, { fs with slabs := ⟨q.2.1, u32 (fs.slabs.fslabNum + 1), q.2.2.1, q.2.2.2⟩ })

def flaFormatSlab (env : Env) (fs : Flexalloc) (slab objNlb : ℕ) : Ret (ℤ × Flexalloc) :=
  match flaCalcObjsInSlab fs.vol objNlb with
  | .error f => .error f
  | .ok objNum =>
    if objNum < 1 then .ok (1, fs)
    else
      let fs := fs.setHeader slab ⟨0, flaLinkedListNull, flaLinkedListNull, 0⟩
      if flaSlabRangeCheckId fs.nslabs slab then .ok (1, fs)
      else .ok (flaSlabCacheElemInit env fs slab objNum)

/-- `fla_acquire_slab`: the return value, the slab, and the system; a slab that cannot be formatted is not put back -/
def flaAcquireSlab (env : Env) (fs : Flexalloc) (objNlb : ℕ) : Ret (ℤ × ℕ × Flexalloc) :=
  if fs.slabs.fslabNum = 0 then .ok (flaErrAllSlabsUsed, flaLinkedListNull, fs)
  else
    let (err, headers, head, tail, slab) :=
      flaEdllRemoveHead fs.nslabs fs.slabs.headers fs.slabs.fslabHead fs.slabs.fslabTail
    let fs := { fs with slabs := ⟨headers, fs.slabs.fslabNum, head, tail⟩ }
    if err ≠ 0 then .ok (err, slab, fs)
    else
      match flaFormatSlab env fs slab objNlb with
      | .error f => .error f
      | .ok (err, fs) =>
        if err ≠ 0 then .ok (err, slab, fs)
        else .ok (0, slab, { fs with slabs := { fs.slabs with fslabNum := sub32 fs.slabs.fslabNum 1 } })

/-- the system with the head of the free queue taken off -/
def Flexalloc.unlinked (fs : Flexalloc) (hd : ℕ → SlabHeader) (head tail : ℕ) : Flexalloc :=
  { fs with slabs := ⟨hd, fs.slabs.fslabNum, head, tail⟩ }

/-- the system with slab `x` taken off the free queue and formatted, its freelist not yet set up -/
def Flexalloc.formatted (fs : Flexalloc) (hd : ℕ → SlabHeader) (head tail x : ℕ) : Flexalloc :=
  { fs with slabs := ⟨update hd x ⟨0, flaLinkedListNull, flaLinkedListNull, 0⟩, fs.slabs.fslabNum, head, tail⟩ }

/-- the system with slab `x` acquired for `n` objects -/
def Flexalloc.acquired (env : Env) (fs : Flexalloc) (hd : ℕ → SlabHeader) (head tail x n : ℕ) : Flexalloc :=
  { (fs.formatted hd head tail x).setElem x ⟨.dirty, some ⟨flaFlistInit n, env.junk⟩⟩ with
    slabs := { (fs.formatted hd head tail x).slabs with fslabNum := sub32 fs.slabs.fslabNum 1 } }

section Acquire

variable {env : Env} {fs : Flexalloc} {hd : ℕ → SlabHeader} {head tail x objNlb n : ℕ}

variable (env hd head tail) in
theorem formatSlab_eq (hck : flaSlabRangeCheckId fs.nslabs x = false) (hcalc : flaCalcObjsInSlab fs.vol objNlb = .ok n) :
    flaFormatSlab env (fs.unlinked hd head tail) x objNlb =
      .ok (if n < 1 then (1, fs.unlinked hd head tail)
        else if (fs.cache x).state ≠ .stale then (flaSlabCacheInvalidState, fs.formatted hd head tail x)
        else if ¬ env.bufAlloc then (-eNOMEM, fs.formatted hd head tail x)
        else (0, (fs.formatted hd head tail x).setElem x ⟨.dirty, some ⟨flaFlistInit n, env.junk⟩⟩)) := by
  have hcalc' : flaCalcObjsInSlab (fs.unlinked hd head tail).vol objNlb = .ok n := hcalc
  have hck' : flaSlabRangeCheckId (fs.formatted hd head tail x).nslabs x = false := hck
  have hfmt : (fs.unlinked hd head tail).setHeader x ⟨0, flaLinkedListNull, flaLinkedListNull, 0⟩ =
      fs.formatted hd head tail x := rfl
  unfold flaFormatSlab
  rw [hcalc']
  dsimp only
  rw [hfmt, hck']
  by_cases hn : n < 1
  · rw [if_pos hn, if_pos hn]
  · rw [if_neg hn, if_neg hn, if_neg Bool.false_ne_true, flaSlabCacheElemInit]
    rfl

/-- **What acquiring can do** once a slab is taken off the free queue: it ends at one of three checks, or succeeds. -/
theorem acquireSlab_eq (hnum : fs.slabs.fslabNum ≠ 0)
    (hrun : flaEdllRemoveHead fs.nslabs fs.slabs.headers fs.slabs.fslabHead fs.slabs.fslabTail = (0, hd, head, tail, x))
    (hck : flaSlabRangeCheckId fs.nslabs x = false) (hcalc : flaCalcObjsInSlab fs.vol objNlb = .ok n) :
    flaAcquireSlab env fs objNlb =
      .ok (if n < 1 then (1, x, fs.unlinked hd head tail)
        else if (fs.cache x).state ≠ .stale then (flaSlabCacheInvalidState, x, fs.formatted hd head tail x)
        else if ¬ env.bufAlloc then (-eNOMEM, x, fs.formatted hd head tail x)
        else (0, x, fs.acquired env hd head tail x n)) := by
  unfold flaAcquireSlab
  rw [if_neg hnum, hrun]
  dsimp only
  rw [if_neg (by simp)]
  have hfmt := formatSlab_eq env hd head tail hck hcalc
  rw [Flexalloc.unlinked] at hfmt
  rw [hfmt]
  dsimp only
  by_cases hn : n < 1
  · rw [if_pos hn, if_pos hn]
    rfl
  by_cases hst : (fs.cache x).state ≠ .stale
  · rw [if_neg hn, if_pos hst, if_neg hn, if_pos hst]
    rfl
  by_cases hbuf : ¬ env.bufAlloc
  · rw [if_neg hn, if_neg hst, if_pos hbuf, if_neg hn, if_neg hst, if_pos hbuf]
    rfl
  · rw [if_neg hn, if_neg hst, if_neg hbuf, if_neg hn, if_neg hst, if_neg hbuf]
    rfl

end Acquire

/-- the end of the acquiring branch of `fla_pool_next_available_slab`: the new slab goes to the empty list of the pool,
or is released again -/
def poolAddEmpty (fs : Flexalloc) (ndx slab : ℕ) : ℤ × ℕ × Flexalloc :=
  let r := fs.onList ndx .empty fun hd head => flaHdllPrepend fs.nslabs hd slab head
  if r.1 ≠ 0 then (r.1, slab, (flaReleaseSlab r.2 slab).2) else (0, slab, r.2)

/-- `fla_pool_next_available_slab`: the return value, the slab, and the system. A list head that is not a slab gives a
null slab pointer, which the caller follows. -/
def flaPoolNextAvailableSlab (env : Env) (fs : Flexalloc) (ndx : ℕ) : Ret (ℤ × ℕ × Flexalloc) :=
  if (fs.pools.entries ndx).partialSlabs = flaLinkedListNull then
    if (fs.pools.entries ndx).emptySlabs = flaLinkedListNull then
      -- acquire a new one
      match flaAcquireSlab env fs (fs.pools.entries ndx).objNlb with
      | .error f => .error f
      | .ok (err, slab, fs) =>
        if err ≠ 0 then .ok (err, slab, fs) else .ok (poolAddEmpty fs ndx slab)
    else if flaSlabRangeCheckId fs.nslabs (fs.pools.entries ndx).emptySlabs then .error .outOfBounds
    else .ok (0, (fs.pools.entries ndx).emptySlabs, fs)
  else if flaSlabRangeCheckId fs.nslabs (fs.pools.entries ndx).partialSlabs then .error .outOfBounds
  else .ok (0, (fs.pools.entries ndx).partialSlabs, fs)

section NextAvailable

variable {env : Env} {fs : Flexalloc} {ndx : ℕ}

theorem nextAvailableSlab_part (h : (fs.pools.entries ndx).partialSlabs ≠ flaLinkedListNull)
    (hck : flaSlabRangeCheckId fs.nslabs (fs.pools.entries ndx).partialSlabs = false) :
    flaPoolNextAvailableSlab env fs ndx = .ok (0, (fs.pools.entries ndx).partialSlabs, fs) := by
  rw [flaPoolNextAvailableSlab, if_neg h, hck, if_neg Bool.false_ne_true]

variable (hpart : (fs.pools.entries ndx).partialSlabs = flaLinkedListNull)

include hpart

theorem nextAvailableSlab_empty (h : (fs.pools.entries ndx).emptySlabs ≠ flaLinkedListNull)
    (hck : flaSlabRangeCheckId fs.nslabs (fs.pools.entries ndx).emptySlabs = false) :
    flaPoolNextAvailableSlab env fs ndx = .ok (0, (fs.pools.entries ndx).emptySlabs, fs) := by
  rw [flaPoolNextAvailableSlab, if_pos hpart, if_neg h, hck, if_neg Bool.false_ne_true]

variable {slab : ℕ} {fs₁ : Flexalloc} (hempty : (fs.pools.entries ndx).emptySlabs = flaLinkedListNull)

include hempty

theorem nextAvailableSlab_failed {err : ℤ} (herr : err ≠ 0)
    (hacq : flaAcquireSlab env fs (fs.pools.entries ndx).objNlb = .ok (err, slab, fs₁)) :
    flaPoolNextAvailableSlab env fs ndx = .ok (err, slab, fs₁) := by
  rw [flaPoolNextAvailableSlab, if_pos hpart, if_pos hempty, hacq]
  dsimp only
  rw [if_pos herr]

theorem nextAvailableSlab_acquired {fs₂ : Flexalloc}
    (hacq : flaAcquireSlab env fs (fs.pools.entries ndx).objNlb = .ok (0, slab, fs₁))
    (hon : (fs₁.onList ndx .empty fun hd head => flaHdllPrepend fs₁.nslabs hd slab head) = (0, fs₂)) :
    flaPoolNextAvailableSlab env fs ndx = .ok (0, slab, fs₂) := by
  have hadd : poolAddEmpty fs₁ ndx slab = (0, slab, fs₂) := by
    rw [poolAddEmpty, hon]
    rfl
  rw [flaPoolNextAvailableSlab, if_pos hpart, if_pos hempty, hacq]
  dsimp only
  rw [if_neg (by simp), hadd]

end NextAvailable

/-- the loop of `fla_hdll_remove_all`: the return value, the head, and the system. The head moves on before the release
is tried. -/
def hdllRemoveAllLoop : ℕ → ℕ → Flexalloc → ℤ × ℕ × Flexalloc
  | 0, head, fs => (if head ≠ flaLinkedListNull then 1 else 0, head, fs)
  | n + 1, head, fs =>
    if head = flaLinkedListNull then (0, head, fs)
    else if flaSlabRangeCheckId fs.nslabs head then (1, head, fs)
    else
      let next := (fs.header head).next
      let (err, fs) := flaReleaseSlab fs head
      if err ≠ 0 then (err, next, fs) else hdllRemoveAllLoop n next fs

/-- `fla_hdll_remove_all` on list `k` of pool `ndx`, with `fla_release_slab` -/
def flaHdllRemoveAll (fs : Flexalloc) (ndx : ℕ) (k : SlabKind) : ℤ × Flexalloc :=
  let (err, head, fs) := hdllRemoveAllLoop fs.nslabs ((fs.pools.entries ndx).head k) fs
  (err, fs.setEntry ndx ((fs.pools.entries ndx).setHead k head))

def flaPoolReleaseAllSlabs (fs : Flexalloc) (ndx : ℕ) : ℤ × Flexalloc :=
  let (err, fs) := flaHdllRemoveAll fs ndx .empty
  if err ≠ 0 then (err, fs)
  else
    let (err, fs) := flaHdllRemoveAll fs ndx .full
    if err ≠ 0 then (err, fs) else flaHdllRemoveAll fs ndx .part

end FlexAlloc
