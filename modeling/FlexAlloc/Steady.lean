/-
What the calls on slabs and objects leave as it is.

Whatever lists the slabs they meet are in, and whatever they return, these calls write to slab headers, to the free queue,
to the cache and to the heads of the lists of pools. `Steady` is what is left: the volume, the pool freelist, the hash
table, the dispatch table, the entries without their heads, and the devices.

- `objectOpen_steady`, `objectCreate_steady`, `objectDestroy_steady`: every call on objects is steady.
- `releaseAll_steady`: so is releasing the slabs of a pool.
- `poolDestroy_rest`: destroying a pool leaves the entries alone, but for their heads.
-/
import FlexAlloc.Chains
import FlexAlloc.Directory

namespace FlexAlloc

open FlexAlloc.Core Function

structure Steady (fs fs' : Flexalloc) : Prop where
  vol : fs'.vol = fs.vol
  flist : fs'.pools.freelist = fs.pools.freelist
  htbl : fs'.pools.htbl = fs.pools.htbl
  funcs : fs'.pools.entrieFuncs = fs.pools.entrieFuncs
  rest : ∀ i, (fs'.pools.entries i).rest = (fs.pools.entries i).rest
  disks : fs'.disk = fs.disk ∧ fs'.mdDisk = fs.mdDisk

theorem Steady.refl (fs : Flexalloc) : Steady fs fs := ⟨rfl, rfl, rfl, rfl, fun _ => rfl, rfl, rfl⟩

theorem Steady.trans {fs fs' fs'' : Flexalloc} (h : Steady fs fs') (h' : Steady fs' fs'') : Steady fs fs'' :=
  ⟨h'.vol.trans h.vol, h'.flist.trans h.flist, h'.htbl.trans h.htbl, h'.funcs.trans h.funcs,
    fun i => (h'.rest i).trans (h.rest i), h'.disks.1.trans h.disks.1, h'.disks.2.trans h.disks.2⟩

/-- headers, the free queue and the cache may change -/
theorem Steady.of_eq {fs fs' : Flexalloc} (hvol : fs'.vol = fs.vol) (hpools : fs'.pools = fs.pools)
    (hdisks : fs'.disk = fs.disk ∧ fs'.mdDisk = fs.mdDisk) : Steady fs fs' := by
  refine ⟨hvol, ?_, ?_, ?_, fun i => ?_, hdisks⟩
  all_goals rw [hpools]

theorem steady_head (fs : Flexalloc) (ndx : ℕ) (k : SlabKind) (head : ℕ) :
    Steady fs (fs.setEntry ndx ((fs.pools.entries ndx).setHead k head)) := by
  refine ⟨rfl, rfl, rfl, rfl, fun i => ?_, rfl, rfl⟩
  show (update fs.pools.entries ndx _ i).rest = _
  by_cases hi : i = ndx
  · rw [hi, update_self, setHead_rest]
  · rw [update_of_ne hi]

/-! ## Slabs -/

section Slabs

variable {env : Env} {fs fs' : Flexalloc} {err : ℤ} {ndx slab : ℕ}

theorem onList_steady {k : SlabKind} {op : (ℕ → SlabHeader) → ℕ → ℤ × (ℕ → SlabHeader) × ℕ}
    (h : fs.onList ndx k op = (err, fs')) : Steady fs fs' := by
  obtain ⟨hd, head, -, rfl⟩ := onList_inv h
  exact (steady_head fs ndx k head).trans (.of_eq rfl rfl ⟨rfl, rfl⟩)

theorem moveSlab_steady {src dst : ℕ × SlabKind} (h : moveSlab fs slab src dst = (err, fs')) : Steady fs fs' := by
  unfold moveSlab at h
  cases hsrc : fs.onList src.1 src.2 fun hd head => flaHdllRemove fs.nslabs hd slab head with
  | mk err₁ fs₁ =>
    rw [hsrc] at h
    dsimp only at h
    split_ifs at h
    · cases h
      exact onList_steady hsrc
    · exact (onList_steady hsrc).trans (onList_steady h)

theorem releaseSlab_steady (h : flaReleaseSlab fs slab = (err, fs')) : Steady fs fs' := by
  have hdrop : Steady fs (flaSlabCacheElemDrop fs slab) := .of_eq rfl rfl ⟨rfl, rfl⟩
  unfold flaReleaseSlab at h
  generalize flaSlabCacheElemDrop fs slab = fs₁ at hdrop h
  split_ifs at h
  · cases h
    exact .refl _
  · cases h
    exact .refl _
  · dsimp only at h
    generalize flaEdllAddTail fs₁.nslabs fs₁.slabs.headers fs₁.slabs.fslabHead fs₁.slabs.fslabTail slab = q at h
    split_ifs at h
    · cases h
      exact hdrop.trans (.of_eq rfl rfl ⟨rfl, rfl⟩)
    · cases h
      exact hdrop.trans (.of_eq rfl rfl ⟨rfl, rfl⟩)

theorem removeAllLoop_steady (n : ℕ) {head head' : ℕ} (h : hdllRemoveAllLoop n head fs = (err, head', fs')) :
    Steady fs fs' := by
  induction n generalizing head fs with
  | zero =>
    cases h
    exact .refl _
  | succ n ih =>
    rw [hdllRemoveAllLoop] at h
    cases hrel : flaReleaseSlab fs head with
    | mk err₁ fs₁ =>
      rw [hrel] at h
      dsimp only at h
      split_ifs at h
      · cases h
        exact .refl _
      · cases h
        exact .refl _
      · cases h
        exact releaseSlab_steady hrel
      · exact (releaseSlab_steady hrel).trans (ih h)

theorem removeAll_steady {k : SlabKind} (h : flaHdllRemoveAll fs ndx k = (err, fs')) : Steady fs fs' := by
  unfold flaHdllRemoveAll at h
  cases hloop : hdllRemoveAllLoop fs.nslabs ((fs.pools.entries ndx).head k) fs with
  | mk err₁ r =>
    obtain ⟨head, fs₁⟩ := r
    rw [hloop] at h
    cases h
    exact (removeAllLoop_steady _ hloop).trans (steady_head ..)

theorem releaseAll_steady (h : flaPoolReleaseAllSlabs fs ndx = (err, fs')) : Steady fs fs' := by
  unfold flaPoolReleaseAllSlabs at h
  cases h1 : flaHdllRemoveAll fs ndx .empty with
  | mk err₁ fs₁ =>
    rw [h1] at h
    cases h2 : flaHdllRemoveAll fs₁ ndx .full with
    | mk err₂ fs₂ =>
      dsimp only at h
      rw [h2] at h
      split_ifs at h
      · cases h
        exact removeAll_steady h1
      · cases h
        exact (removeAll_steady h1).trans (removeAll_steady h2)
      · exact ((removeAll_steady h1).trans (removeAll_steady h2)).trans (removeAll_steady h)

theorem elemInit_steady {n : ℕ} (h : flaSlabCacheElemInit env fs slab n = (err, fs')) : Steady fs fs' := by
  unfold flaSlabCacheElemInit at h
  split_ifs at h
  · cases h
    exact .refl _
  · cases h
    exact .of_eq rfl rfl ⟨rfl, rfl⟩
  · cases h
    exact .refl _

theorem formatSlab_steady {objNlb : ℕ} (h : flaFormatSlab env fs slab objNlb = .ok (err, fs')) : Steady fs fs' := by
  unfold flaFormatSlab at h
  cases hcalc : flaCalcObjsInSlab fs.vol objNlb with
  | error f =>
    rw [hcalc] at h
    cases h
  | ok n =>
    have hfmt : Steady fs (fs.setHeader slab ⟨0, flaLinkedListNull, flaLinkedListNull, 0⟩) := .of_eq rfl rfl ⟨rfl, rfl⟩
    rw [hcalc] at h
    dsimp only at h
    split_ifs at h
    · cases h
      exact .refl _
    · cases h
      exact hfmt
    · exact hfmt.trans (elemInit_steady (Except.ok.inj h))

theorem acquireSlab_steady {objNlb : ℕ} (h : flaAcquireSlab env fs objNlb = .ok (err, slab, fs')) : Steady fs fs' := by
  unfold flaAcquireSlab at h
  split_ifs at h
  · cases h
    exact .refl _
  cases hq : flaEdllRemoveHead fs.nslabs fs.slabs.headers fs.slabs.fslabHead fs.slabs.fslabTail with
  | mk err₁ q =>
    obtain ⟨hd, head, tail, x⟩ := q
    have h1 : Steady fs (fs.unlinked hd head tail) := .of_eq rfl rfl ⟨rfl, rfl⟩
    rw [hq] at h
    dsimp only at h
    rw [← Flexalloc.unlinked] at h
    split_ifs at h
    · cases h
      exact h1
    cases hfmt : flaFormatSlab env (fs.unlinked hd head tail) x objNlb with
    | error f =>
      rw [hfmt] at h
      cases h
    | ok r =>
      obtain ⟨err₂, fs₂⟩ := r
      have h2 : Steady fs fs₂ := h1.trans (formatSlab_steady hfmt)
      rw [hfmt] at h
      dsimp only at h
      split_ifs at h
      · cases h
        exact h2
      · cases h
        exact h2.trans (.of_eq rfl rfl ⟨rfl, rfl⟩)

theorem addEmpty_steady {x : ℕ} (h : poolAddEmpty fs ndx x = (err, slab, fs')) : Steady fs fs' := by
  unfold poolAddEmpty at h
  cases hon : fs.onList ndx .empty fun hd head => flaHdllPrepend fs.nslabs hd x head with
  | mk err₁ fs₁ =>
    rw [hon] at h
    dsimp only at h
    cases hrel : flaReleaseSlab fs₁ x with
    | mk err₂ fs₂ =>
      rw [hrel] at h
      split_ifs at h
      · cases h
        exact (onList_steady hon).trans (releaseSlab_steady hrel)
      · cases h
        exact onList_steady hon

theorem nextAvailableSlab_steady (h : flaPoolNextAvailableSlab env fs ndx = .ok (err, slab, fs')) : Steady fs fs' := by
  unfold flaPoolNextAvailableSlab at h
  split_ifs at h
  · split at h
    · cases h
    · rename_i err₁ x fs₁ hacq
      split_ifs at h
      · cases h
        exact acquireSlab_steady hacq
      · exact (acquireSlab_steady hacq).trans (addEmpty_steady (Except.ok.inj h))
  · cases h
    exact .refl _
  · cases h
    exact .refl _

end Slabs

/-! ## Objects -/

section Objects

variable {env : Env} {fs fs' : Flexalloc} {err : ℤ} {ndx slab : ℕ}

theorem elemLoad_steady {n : ℕ} (h : flaSlabCacheElemLoad env fs slab n = .ok (err, fs')) : Steady fs fs' := by
  obtain ⟨rfl, -⟩ | ⟨-, -, -, -, buf, -, -, rfl⟩ := elemLoad_inv h
  · exact .refl _
  · exact .of_eq rfl rfl ⟨rfl, rfl⟩

theorem objAlloc_steady {n : ℕ} {obj : Option Obj} (h : flaSlabCacheObjAlloc fs slab n = .ok (err, obj, fs')) :
    Steady fs fs' := by
  unfold flaSlabCacheObjAlloc at h
  dsimp only at h
  split_ifs at h
  · cases h
    exact .refl _
  split at h
  · cases h
  · split_ifs at h
    all_goals
      cases h
      exact .of_eq rfl rfl ⟨rfl, rfl⟩

theorem objFree_steady {n : ℕ} {obj : Obj} (h : flaSlabCacheObjFree fs obj n = .ok (err, fs')) : Steady fs fs' := by
  unfold flaSlabCacheObjFree at h
  dsimp only at h
  split_ifs at h
  · cases h
    exact .refl _
  split at h
  · cases h
  · split at h
    · cases h
    · split_ifs at h
      all_goals
        cases h
        exact .of_eq rfl rfl ⟨rfl, rfl⟩

theorem nextAvailableObj_steady {n : ℕ} {obj : Option Obj}
    (h : flaSlabNextAvailableObj fs slab n = .ok (err, obj, fs')) : Steady fs fs' := by
  unfold flaSlabNextAvailableObj at h
  split_ifs at h
  · cases h
    exact .refl _
  split at h
  · cases h
  · rename_i err₁ obj₁ fs₁ halloc
    have hs := objAlloc_steady halloc
    dsimp only at h
    split_ifs at h
    · cases h
      exact hs
    split at h
    · cases h
      exact hs.trans (.of_eq rfl rfl ⟨rfl, rfl⟩)
    · cases h
    · cases h

theorem objectOpen_steady {obj : Obj} (h : flaBaseObjectOpen env fs ndx obj = .ok (err, fs')) : Steady fs fs' := by
  unfold flaBaseObjectOpen at h
  split_ifs at h
  · cases h
    exact .refl _
  obtain ⟨e, -, h⟩ := bind_eq_ok h
  obtain ⟨⟨err₁, fs₁⟩, hload, h⟩ := bind_eq_ok h
  cases h
  exact elemLoad_steady hload

theorem objectCreateIn_steady {obj : Option Obj} (h : objectCreateIn env fs ndx slab = .ok (err, obj, fs')) :
    Steady fs fs' := by
  unfold objectCreateIn at h
  split_ifs at h
  · cases h
    exact .refl _
  obtain ⟨⟨err₁, fs₁⟩, hload, h⟩ := bind_eq_ok h
  have h1 := elemLoad_steady hload
  dsimp only at h
  split_ifs at h
  · cases h
    exact h1
  obtain ⟨src, -, h⟩ := bind_eq_ok h
  obtain ⟨fnc, -, h⟩ := bind_eq_ok h
  obtain ⟨⟨err₂, obj₂, fs₂⟩, hnext, h⟩ := bind_eq_ok h
  have h2 := h1.trans (nextAvailableObj_steady hnext)
  dsimp only at h
  split_ifs at h
  · cases h
    exact h2
  obtain ⟨dst, -, h⟩ := bind_eq_ok h
  split_ifs at h
  · cases h
    exact h2
  · cases hmove : moveSlab fs₂ slab src dst with
    | mk err₃ fs₃ =>
      rw [hmove] at h
      cases h
      exact h2.trans (moveSlab_steady hmove)

theorem objectCreate_steady {obj : Option Obj} (h : flaBaseObjectCreate env fs ndx = .ok (err, obj, fs')) :
    Steady fs fs' := by
  obtain ⟨e, -, h⟩ := bind_eq_ok h
  obtain ⟨⟨err₁, slab, fs₁⟩, hnext, h⟩ := bind_eq_ok h
  dsimp only at h
  split_ifs at h
  · cases h
    exact nextAvailableSlab_steady hnext
  · exact (nextAvailableSlab_steady hnext).trans (objectCreateIn_steady h)

theorem objectDestroy_steady {obj : Obj} (h : flaBaseObjectDestroy env fs ndx obj = .ok (err, fs')) : Steady fs fs' := by
  obtain ⟨err₁, -, h⟩ := bind_eq_ok h
  split_ifs at h
  · cases h
    exact .refl _
  · cases h
    exact .refl _
  obtain ⟨src, -, h⟩ := bind_eq_ok h
  obtain ⟨fnc, -, h⟩ := bind_eq_ok h
  obtain ⟨n, -, h⟩ := bind_eq_ok h
  obtain ⟨⟨err₂, fs₂⟩, hfree, h⟩ := bind_eq_ok h
  dsimp only at h
  split_ifs at h
  · cases h
    exact objFree_steady hfree
  obtain ⟨dst, -, h⟩ := bind_eq_ok h
  have h2 : Steady fs (fs₂.subRefcount obj.slabId n) := (objFree_steady hfree).trans (.of_eq rfl rfl ⟨rfl, rfl⟩)
  exact h2.trans (moveSlab_steady (Except.ok.inj h))

end Objects

/-! ## Pools -/

section Pools

variable {env : Env} {fs fs' : Flexalloc} {err : ℤ} {ndx : ℕ}

/-- creating a pool, or setting its root object, writes to the pools only -/
def PoolsOnly (fs fs' : Flexalloc) : Prop := ∃ p, fs' = { fs with pools := p }

theorem PoolsOnly.cache (h : PoolsOnly fs fs') : fs'.cache = fs.cache := by
  obtain ⟨p, rfl⟩ := h
  rfl

theorem PoolsOnly.disks (h : PoolsOnly fs fs') : fs'.disk = fs.disk ∧ fs'.mdDisk = fs.mdDisk := by
  obtain ⟨p, rfl⟩ := h
  exact ⟨rfl, rfl⟩

theorem poolCreateAt_poolsOnly {arg : PoolCreateArg} {handle : Option PoolHandle} {n : ℕ}
    (h : poolCreateAt env fs arg ndx n = .ok (err, handle, fs')) : PoolsOnly fs fs' := by
  obtain ⟨e, -, h⟩ := bind_eq_ok h
  dsimp only at h
  obtain ⟨⟨err₁, tbl⟩, -, h⟩ := bind_eq_ok h
  split_ifs at h
  · obtain ⟨⟨err₂, fl⟩, -, h⟩ := bind_eq_ok h
    cases h
    exact ⟨_, rfl⟩
  · obtain ⟨fnc, -, h⟩ := bind_eq_ok h
    obtain ⟨e', -, h⟩ := bind_eq_ok h
    cases h
    exact ⟨_, rfl⟩

theorem poolCreate_poolsOnly {arg : PoolCreateArg} {handle : Option PoolHandle}
    (h : flaBasePoolCreate env fs arg = .ok (err, handle, fs')) : PoolsOnly fs fs' := by
  obtain ⟨⟨err₁, found⟩, -, h⟩ := bind_eq_ok h
  split at h
  · obtain ⟨e, -, h⟩ := bind_eq_ok h
    split_ifs at h
    all_goals
      cases h
      exact ⟨_, rfl⟩
  split at h
  · cases h
    exact ⟨_, rfl⟩
  obtain ⟨m, -, h⟩ := bind_eq_ok h
  dsimp only at h
  split_ifs at h
  all_goals try
    cases h
    exact ⟨_, rfl⟩
  -- an index was taken
  obtain ⟨p, rfl⟩ := poolCreateAt_poolsOnly h
  exact ⟨p, rfl⟩

theorem setRootObject_poolsOnly {obj : Obj} {act : RootObjSetAction}
    (h : flaBasePoolSetRootObject fs ndx obj act = .ok (err, fs')) : PoolsOnly fs fs' := by
  obtain ⟨e, -, h⟩ := bind_eq_ok h
  split at h
  · cases h
    exact ⟨_, rfl⟩
  · cases h
    exact ⟨_, rfl⟩

theorem poolForget_poolsOnly (h : poolForget fs ndx = .ok (err, fs')) : PoolsOnly fs fs' := by
  obtain ⟨⟨err₁, fl⟩, -, h⟩ := bind_eq_ok h
  dsimp only at h
  split_ifs at h
  · cases h
    exact ⟨_, rfl⟩
  · obtain ⟨tbl, -, h⟩ := bind_eq_ok h
    cases h
    exact ⟨_, rfl⟩

theorem poolDestroy_disks {handle : PoolHandle} (h : flaBasePoolDestroy fs handle = .ok (err, fs')) :
    fs'.disk = fs.disk ∧ fs'.mdDisk = fs.mdDisk := by
  obtain ⟨err₁, -, h⟩ := bind_eq_ok h
  split_ifs at h
  · cases h
    exact ⟨rfl, rfl⟩
  cases hall : flaPoolReleaseAllSlabs fs handle.ndx with
  | mk err₂ fs₂ =>
    obtain ⟨hdisk, hmd⟩ := (releaseAll_steady hall).disks
    rw [hall] at h
    dsimp only at h
    split_ifs at h
    · cases h
      exact ⟨hdisk, hmd⟩
    · obtain ⟨hdisk', hmd'⟩ := (poolForget_poolsOnly h).disks
      exact ⟨hdisk'.trans hdisk, hmd'.trans hmd⟩

end Pools

/-! ## Destroying a pool -/

theorem poolDestroy_rest {fs fs' : Flexalloc} {err : ℤ} {handle : PoolHandle}
    (h : flaBasePoolDestroy fs handle = .ok (err, fs')) (i : ℕ) :
    (fs'.pools.entries i).rest = (fs.pools.entries i).rest := by
  rcases poolDestroy_cases h with ⟨-, -, rfl⟩ | ⟨-, hrel⟩
  · rfl
  cases hall : flaPoolReleaseAllSlabs fs handle.ndx with
  | mk err₁ fs₁ =>
    have hrest := (releaseAll_steady hall).rest i
    rw [hall] at hrel
    split_ifs at hrel
    · cases hrel
      exact hrest
    · obtain ⟨⟨err₂, fl⟩, -, hrel⟩ := bind_eq_ok hrel
      dsimp only at hrel
      split_ifs at hrel
      · cases hrel
        exact hrest
      · obtain ⟨htbl, -, hrel⟩ := bind_eq_ok hrel
        cases hrel
        exact hrest

end FlexAlloc
