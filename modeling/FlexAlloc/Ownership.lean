/-
The invariant of a system whose objects are all created through the pool at index 0.

`fla_format_slab` marks every slab as belonging to pool 0, so pool 0 is the only pool whose lists the object functions
keep in order. `Owned v tight sharp s L` says that `L` are the free queue and the three lists of pool 0, that free slabs
are not cached, and that each slab of the pool has a cached freelist with its live objects taken, counts them, and is in
the list its count calls for. Other pools may exist, without slabs.

A create that runs out of memory loses a slab, and one whose index does not fit an `int` loses an entry. `tight` is what
holds besides when no slab has been lost: every slab is in a list and the counter is the length of the free queue;
`sharp` what holds when no entry has: only live objects are taken.

- `fresh_owned`, `mkfs_owned`: a formatted system.
- `poolCreate_owned`, `poolDestroy_owned`, `objectCreate_owned`, `objectDestroy_owned`: what each call does to it.
-/
import FlexAlloc.Chains
import FlexAlloc.Directory

namespace FlexAlloc

open FlexAlloc.Core Function

/-- the list for a slab with `r` objects of at most `n`, as `fla_pool_best_slab_list` picks it -/
def kindOf (n r : ℕ) : SlabKind := if r = 0 then .empty else if n < u32 (r + 1) then .full else .part

/-- the head of a list; an entry that was never used has no lists -/
def PoolEntry.listHead (e : PoolEntry) (k : SlabKind) : ℕ := if e.slabNobj = 0 then flaLinkedListNull else e.head k

def liveIn (live : List (Obj × ℕ)) (x : ℕ) : ℕ := live.countP fun o => o.1.slabId = x

/-- slab `x` of pool 0, in the list of kind `k` -/
structure SlabOk (n : ℕ) (live : List (Obj × ℕ)) (sharp : Prop) (x : ℕ) (h : SlabHeader) (c : CacheElem)
    (k : SlabKind) : Prop where
  pool : h.pool = 0
  refcount : h.refcount = liveIn live x
  kind : k = kindOf n h.refcount
  cached : c.state ≠ .stale
  flist : ∃ buf, c.freelist = some buf ∧ buf.flist.len = n ∧ buf.flist.Ok ∧
    (∀ i < n, (⟨x, i⟩, 0) ∈ live → buf.flist.isFree i = false) ∧
    (sharp → ∀ i < n, buf.flist.isFree i = false → (⟨x, i⟩, 0) ∈ live)

structure Owned (v : Volume) (tight sharp : Prop) (s : Sys) (L : Option SlabKind → List ℕ) : Prop where
  vol : s.fs.vol = v
  dir : Dir s.fs
  chains : Chains v.geo.nslabs s.fs.slabs (s.fs.pools.entries 0).listHead L
  others : ∀ i ≠ 0, ∀ k, (s.fs.pools.entries i).listHead k = flaLinkedListNull
  cover : tight → ∀ x < v.geo.nslabs, ∃ q, x ∈ L q
  num : tight → s.fs.slabs.fslabNum = (L none).length
  free : ∀ x, (∀ k, x ∉ L (some k)) → (s.fs.cache x).state = .stale
  pool : ∀ x, (s.fs.header x).pool = 0
  slab : ∀ k, ∀ x ∈ L (some k),
    SlabOk (s.fs.pools.entries 0).slabNobj s.live sharp x (s.fs.header x) (s.fs.cache x) k
  nodup : s.live.Nodup
  live : ∀ o p, (o, p) ∈ s.live →
    p = 0 ∧ o.entryNdx < (s.fs.pools.entries 0).slabNobj ∧ ∃ k, o.slabId ∈ L (some k)
  nobj : ∀ i, (s.fs.pools.entries i).slabNobj ≠ 0 →
    flaCalcObjsInSlab s.fs.vol (s.fs.pools.entries i).objNlb = .ok (s.fs.pools.entries i).slabNobj
  alone : ¬ s.fs.PoolLive 0 → ∀ k, L (some k) = []

/-- what the list code needs of a volume: slab ids below the end mark -/
structure VolOk (v : Volume) : Prop where
  nslabs_pos : 0 < v.geo.nslabs
  nslabs_le : v.geo.nslabs ≤ flaLinkedListNull
  npools_le : v.super.npools ≤ v.geo.nslabs
  slabNlb_lt : v.geo.slabNlb < 2 ^ 32
  super : v.super.npools = v.geo.npools

theorem Formatted.volOk {dev : Dev} {npools slabNlb : ℕ} {geo : Geo} (hf : Formatted dev npools slabNlb geo)
    (hn : geo.nslabs ≤ flaLinkedListNull) : VolOk (.single geo) := by
  obtain ⟨h1, -, -, h4, h5, -, -⟩ := hf.bounds
  exact ⟨h1, hn, h4, h5 ▸ hf.slabNlb_lt, rfl⟩

theorem volOk_of_accepted {dev : Dev} {hasMd : Bool} {npools slabNlb : ℕ} {geo : Geo}
    (h : flaMkfsGeoCalc dev hasMd npools slabNlb = .ok (0, geo)) (hslab : slabNlb < 2 ^ 32)
    (hn : geo.nslabs ≤ flaLinkedListNull) : VolOk (.formatted dev hasMd geo) := by
  obtain ⟨hp, hle, -, hslabNlb, -⟩ := accepted_bounds h
  exact ⟨hp.trans_le hle, hn, hle, hslabNlb.trans_lt hslab, rfl⟩

/-! ## Counting -/

/-- the entries of slab `x` that hold a live object -/
def liveEntries (live : List (Obj × ℕ)) (x : ℕ) : List ℕ := (live.filter fun o => o.1.slabId = x).map fun o => o.1.entryNdx

theorem liveIn_eq_length (live : List (Obj × ℕ)) (x : ℕ) : liveIn live x = (liveEntries live x).length := by
  rw [liveEntries, List.length_map, liveIn, List.countP_eq_length_filter]

theorem mem_liveEntries {live : List (Obj × ℕ)} {x i : ℕ} (hlive : ∀ o p, (o, p) ∈ live → p = 0) :
    i ∈ liveEntries live x ↔ (⟨x, i⟩, 0) ∈ live := by
  simp only [liveEntries, List.mem_map, List.mem_filter, decide_eq_true_eq]
  constructor
  · rintro ⟨⟨⟨s, e⟩, p⟩, ⟨hmem, rfl⟩, rfl⟩
    exact hlive _ p hmem ▸ hmem
  · intro hmem
    exact ⟨_, ⟨hmem, rfl⟩, rfl⟩

theorem liveEntries_nodup {live : List (Obj × ℕ)} (x : ℕ) (hnd : live.Nodup) (hlive : ∀ o p, (o, p) ∈ live → p = 0) :
    (liveEntries live x).Nodup := by
  refine List.Nodup.map_on ?_ (hnd.filter _)
  rintro ⟨⟨s₁, e₁⟩, p₁⟩ h₁ ⟨⟨s₂, e₂⟩, p₂⟩ h₂ he
  simp only [List.mem_filter, decide_eq_true_eq] at h₁ h₂
  have hp₁ := hlive _ _ h₁.1
  have hp₂ := hlive _ _ h₂.1
  simp_all

theorem liveIn_le_of_lt {live : List (Obj × ℕ)} {n x : ℕ} (hnd : live.Nodup)
    (hlive : ∀ o p, (o, p) ∈ live → p = 0 ∧ (o.slabId = x → o.entryNdx < n)) : liveIn live x ≤ n := by
  have hzero : ∀ o p, (o, p) ∈ live → p = 0 := fun o p h => (hlive o p h).1
  rw [liveIn_eq_length]
  refine length_le_of_lt (liveEntries_nodup x hnd hzero) fun e he => ?_
  exact (hlive _ _ ((mem_liveEntries hzero).1 he)).2 rfl

theorem kindOf_eq {n r : ℕ} (hn : n + 1 < 2 ^ 32) (hr : r ≤ n) :
    kindOf n r = if r = 0 then .empty else if r = n then .full else .part := by
  unfold kindOf
  rw [u32_of_lt (show r + 1 < 2 ^ 32 by omega)]
  split_ifs <;> first | rfl | omega

section Inv

variable {v : Volume} {tight sharp : Prop} {s : Sys} {L : Option SlabKind → List ℕ}

theorem Owned.listHead (ho : Owned v tight sharp s L) (hp : s.fs.PoolLive 0) :
    (s.fs.pools.entries 0).listHead = (s.fs.pools.entries 0).head := by
  funext k
  exact if_neg (ho.dir.used 0 hp)

theorem Owned.nslabs (ho : Owned v tight sharp s L) : s.fs.nslabs = v.geo.nslabs := by
  rw [Flexalloc.nslabs, ho.vol]

theorem Owned.npools (ho : Owned v tight sharp s L) : s.fs.npools = v.super.npools := by
  rw [Flexalloc.npools, ho.vol]

theorem Owned.nobj_lt (hg : VolOk v) (ho : Owned v tight sharp s L) : (s.fs.pools.entries 0).slabNobj < 2 ^ 32 := by
  by_cases h0 : (s.fs.pools.entries 0).slabNobj = 0
  · rw [h0]; norm_num
  have hcalc := ho.nobj 0 h0
  rw [ho.vol] at hcalc
  exact (calcObjs_le hcalc).trans_lt hg.slabNlb_lt

theorem Owned.liveIn_le (ho : Owned v tight sharp s L) (x : ℕ) : liveIn s.live x ≤ (s.fs.pools.entries 0).slabNobj :=
  liveIn_le_of_lt ho.nodup fun o p h => ⟨(ho.live o p h).1, fun _ => (ho.live o p h).2.1⟩

end Inv

/-! ## The formatted system -/

theorem mkfsHeaders_pool (n x : ℕ) : (mkfsHeaders n x).pool = 0 := by
  unfold mkfsHeaders
  split_ifs <;> rfl

theorem mkfs_linked {n : ℕ} (hn : n < 2 ^ 32) (k : ℕ) (a : ℕ) (hak : a + k = n) :
    ∃ p, Linked (mkfsHeaders n) p (if k = 0 then flaLinkedListNull else a) (List.range' a k) ∧
      (0 < a → 0 < k → p = a - 1) := by
  induction k generalizing a with
  | zero => exact ⟨0, rfl, fun _ h => absurd h (lt_irrefl 0)⟩
  | succ k ih =>
    obtain ⟨p, hl, hp⟩ := ih (a + 1) (by omega)
    rw [if_neg (by omega), List.range'_succ]
    have hlast : sub32 n 1 = n - 1 := sub32_of_le (by omega) hn
    have hnext : (mkfsHeaders n a).next = if k = 0 then flaLinkedListNull else a + 1 := by
      unfold mkfsHeaders
      rw [hlast]
      by_cases hk : k = 0
      · rw [if_neg (by omega), if_pos (by omega), if_pos hk]
      · rw [if_neg hk]
        by_cases ha : 1 ≤ a
        · rw [if_pos (by omega)]
        · rw [if_neg (by omega), if_neg (by omega), if_pos (by omega)]
          show 1 = a + 1
          omega
    refine ⟨(mkfsHeaders n a).prev, ⟨rfl, rfl, ?_⟩, fun ha _ => ?_⟩
    · show Linked (mkfsHeaders n) a (mkfsHeaders n a).next (List.range' (a + 1) k)
      rw [hnext]
      by_cases hk : k = 0
      · subst hk; exact hl
      · rw [hp (by omega) (by omega)] at hl
        exact hl
    · unfold mkfsHeaders
      rw [hlast]
      by_cases hk : k = 0
      · rw [if_neg (by omega), if_pos (by omega), sub32_of_le (by omega) (by omega)]
        show n - 1 - 1 = a - 1
        omega
      · rw [if_pos (by omega)]

theorem mkfs_queue {geo : Geo} (hpos : 0 < geo.nslabs) (hn : geo.nslabs ≤ flaLinkedListNull) :
    Queue (flaMkfsSlabSgmtInit geo).headers (flaMkfsSlabSgmtInit geo).fslabHead (flaMkfsSlabSgmtInit geo).fslabTail
      (List.range geo.nslabs) := by
  have hn32 := nslabs_lt hn
  constructor
  · obtain ⟨p, hl, -⟩ := mkfs_linked hn32 geo.nslabs 0 (by omega)
    rw [if_neg (Nat.pos_iff_ne_zero.1 hpos), ← List.range_eq_range'] at hl
    exact ⟨p, hl⟩
  · show sub32 geo.nslabs 1 = lastOr flaLinkedListNull (List.range geo.nslabs)
    rw [sub32_of_le (by omega) hn32, show geo.nslabs = (geo.nslabs - 1) + 1 by omega, List.range_succ, lastOr_snoc]
    omega

/-- the slabs of `l` free, and none in a list -/
def freeOnly (l : List ℕ) : Option SlabKind → List ℕ
  | none => l
  | some _ => []

theorem Queue.chains {nslabs : ℕ} {sl : Slabs} {heads : SlabKind → ℕ} {l : List ℕ}
    (hq : Queue sl.headers sl.fslabHead sl.fslabTail l) (hlt : ∀ x ∈ l, x < nslabs) (hnd : l.Nodup)
    (hh : ∀ k, heads k = flaLinkedListNull) : Chains nslabs sl heads (freeOnly l) := by
  refine ⟨⟨fun q x hx => ?_, fun q => ?_, fun q q' x hx hx' => ?_⟩, hq, fun k => hh k⟩
  · cases q with
    | none => exact hlt x hx
    | some k => cases hx
  · cases q with
    | none => exact hnd
    | some k => exact List.nodup_nil
  · cases q with
    | none => cases q' with
      | none => rfl
      | some k => cases hx'
    | some k => cases hx

def allFree (nslabs : ℕ) : Option SlabKind → List ℕ
  | none => List.range nslabs
  | some _ => []

theorem mkfs_chains {v : Volume} (hg : VolOk v) (heads : SlabKind → ℕ) (hh : ∀ k, heads k = flaLinkedListNull) :
    Chains v.geo.nslabs (flaMkfsSlabSgmtInit v.geo) heads (allFree v.geo.nslabs) :=
  (mkfs_queue hg.nslabs_pos hg.nslabs_le).chains (fun _ hx => List.mem_range.1 hx) List.nodup_range hh

theorem fresh_owned {v : Volume} {s : Sys} (hg : VolOk v) (hfresh : Fresh v s.fs) (hlive : s.live = []) :
    Owned v True True s (allFree v.geo.nslabs) where
  vol := hfresh.vol
  dir := hfresh.dir hg.super
  chains := by
    rw [hfresh.slabs, hfresh.pools]
    exact mkfs_chains hg _ fun _ => rfl
  others i _ k := by
    rw [hfresh.pools]
    rfl
  cover _ x hx := ⟨none, List.mem_range.2 hx⟩
  num _ := by
    rw [hfresh.slabs]
    exact (List.length_range).symm
  free x _ := by rw [hfresh.cache]
  pool x := by
    rw [Flexalloc.header, hfresh.slabs]
    exact mkfsHeaders_pool v.geo.nslabs x
  slab k x hx := by cases hx
  nodup := by
    rw [hlive]
    exact List.nodup_nil
  live o p h := by
    rw [hlive] at h
    cases h
  nobj i h := by
    rw [hfresh.pools] at h
    exact absurd rfl h
  alone _ _ := rfl

theorem mkfs_owned {dev : Dev} {npools slabNlb : ℕ} {geo : Geo} (hf : Formatted dev npools slabNlb geo)
    (hn : geo.nslabs ≤ flaLinkedListNull) (disk : Bytes) :
    Owned (.single geo) True True (.init dev geo disk) (allFree geo.nslabs) :=
  fresh_owned (hf.volOk hn) (hf.vol disk ▸ mkfs_fresh dev geo disk) rfl

/-! ## Frames -/

theorem SlabOk.congr {n x : ℕ} {live live' : List (Obj × ℕ)} {tight tight' : Prop} {h h' : SlabHeader} {c : CacheElem}
    {k : SlabKind} (ho : SlabOk n live tight x h c k) (hpool : h'.pool = h.pool) (hr : h'.refcount = h.refcount)
    (ht : tight' → tight) (hcount : liveIn live' x = liveIn live x)
    (hmem : ∀ i, (⟨x, i⟩, 0) ∈ live' ↔ (⟨x, i⟩, 0) ∈ live) : SlabOk n live' tight' x h' c k := by
  obtain ⟨buf, hbuf, hlen, hok, htaken, hlive⟩ := ho.flist
  exact ⟨hpool.trans ho.pool, by rw [hr, ho.refcount, hcount], by rw [hr]; exact ho.kind, ho.cached, buf, hbuf, hlen, hok,
    fun i hi hm => htaken i hi ((hmem i).1 hm), fun h i hi hf => (hmem i).2 (hlive (ht h) i hi hf)⟩

theorem SlabsOnly.poolLive {ndx : ℕ} {fs fs' : Flexalloc} (h : SlabsOnly ndx fs fs') (i : ℕ) :
    fs'.PoolLive i ↔ fs.PoolLive i := by
  obtain ⟨e, -, hfs⟩ := h
  rw [hfs]
  rfl

theorem SlabsOnly.slabNobj {ndx : ℕ} {fs fs' : Flexalloc} (h : SlabsOnly ndx fs fs') (i : ℕ) :
    (fs'.pools.entries i).slabNobj = (fs.pools.entries i).slabNobj := slabNobj_of_rest (h.entries_rest i)

theorem SlabsOnly.objNlb {ndx : ℕ} {fs fs' : Flexalloc} (h : SlabsOnly ndx fs fs') (i : ℕ) :
    (fs'.pools.entries i).objNlb = (fs.pools.entries i).objNlb := objNlb_of_rest (h.entries_rest i)

theorem SlabsOnly.dir {ndx : ℕ} {fs fs' : Flexalloc} (h : SlabsOnly ndx fs fs') (hd : Dir fs) : Dir fs' := by
  have hpools : fs'.pools.freelist = fs.pools.freelist ∧ fs'.pools.entrieFuncs = fs.pools.entrieFuncs ∧
      fs'.pools.htbl = fs.pools.htbl := by
    obtain ⟨e, -, hfs⟩ := h
    rw [hfs]
    exact ⟨rfl, rfl, rfl⟩
  have hvol : fs'.npools = fs.npools := by rw [Flexalloc.npools, h.vol]
  refine ⟨by rw [hpools.1, hvol]; exact hd.len, by rw [hpools.1]; exact hd.ok, fun i hi => ?_, fun i hi => ?_,
    fun i hi => ?_, ?_⟩
  · rw [h.slabNobj]
    exact hd.used i ((h.poolLive i).1 hi)
  · rw [hpools.2.1]
    exact hd.fnc i (h.slabNobj i ▸ hi)
  · rw [name_of_rest (h.entries_rest i)]
    exact hd.unused i (h.slabNobj i ▸ hi)
  · rw [hpools.2.2]
    intro j hj
    rw [h.slabNobj]
    exact hd.vals j hj

section Step

variable {v : Volume} {tight sharp : Prop} {s : Sys} {L L' : Option SlabKind → List ℕ} {x : ℕ} {k k' : SlabKind}

theorem Owned.free_stale (ho : Owned v tight sharp s L) (hx : x ∈ L none) : (s.fs.cache x).state = .stale :=
  ho.free x fun k hk => absurd (ho.chains.disj none (some k) x hx hk) (by simp)

/-- **One slab of the pool changes**: its count, its freelist and with them its list. -/
theorem Owned.retake {sharp' : Prop} (ho : Owned v tight sharp s L) (hp : s.fs.PoolLive 0) (ht : sharp' → sharp)
    (hx : x ∈ L (some k)) {fs' : Flexalloc} {live' : List (Obj × ℕ)} {c : CacheElem} (hsame : SlabsOnly 0 s.fs fs')
    (hchains : Chains v.geo.nslabs fs'.slabs (fs'.pools.entries 0).head L')
    (hL : ∀ q y, y ∈ L' q ↔ (y = x ∧ q = some k') ∨ (y ≠ x ∧ y ∈ L q)) (hfree : L' none = L none)
    (hnum : fs'.slabs.fslabNum = s.fs.slabs.fslabNum) (hcache : fs'.cache = update s.fs.cache x c)
    (hmarks : ∀ y ≠ x, (fs'.header y).pool = (s.fs.header y).pool ∧ (fs'.header y).refcount = (s.fs.header y).refcount)
    (hslab : SlabOk (s.fs.pools.entries 0).slabNobj live' sharp' x (fs'.header x) c k')
    (hothers : ∀ y ≠ x, liveIn live' y = liveIn s.live y ∧ ∀ i, (⟨y, i⟩, 0) ∈ live' ↔ (⟨y, i⟩, 0) ∈ s.live)
    (hnd : live'.Nodup)
    (hlive : ∀ o p, (o, p) ∈ live' →
      (o, p) ∈ s.live ∨ (p = 0 ∧ o.slabId = x ∧ o.entryNdx < (s.fs.pools.entries 0).slabNobj)) :
    Owned v tight sharp' ⟨fs', live'⟩ L' := by
  have hused := ho.dir.used 0 hp
  refine ⟨hsame.vol.trans ho.vol, hsame.dir ho.dir, ?_, fun i hi q => ?_, fun h y hy => ?_, fun h => ?_, fun y hy => ?_,
    fun y => ?_, fun q y hy => ?_, hnd, fun o p hop => ?_, fun i hi => ?_, fun h => absurd ((hsame.poolLive 0).2 hp) h⟩
  · have : (fs'.pools.entries 0).listHead = (fs'.pools.entries 0).head := by
      funext q
      exact if_neg (by rw [hsame.slabNobj]; exact hused)
    rw [this]
    exact hchains
  · simp only
    rw [hsame.entries_ne hi]
    exact ho.others i hi q
  · obtain ⟨q, hq⟩ := ho.cover h y hy
    by_cases hyx : y = x
    · exact ⟨some k', (hL _ y).2 (Or.inl ⟨hyx, rfl⟩)⟩
    · exact ⟨q, (hL q y).2 (Or.inr ⟨hyx, hq⟩)⟩
  · simp only
    rw [hnum, hfree]
    exact ho.num h
  · have hyx : y ≠ x := fun h => hy k' ((hL _ y).2 (Or.inl ⟨h, rfl⟩))
    simp only [hcache, update_of_ne hyx]
    exact ho.free y fun q hq => hy q ((hL _ y).2 (Or.inr ⟨hyx, hq⟩))
  · by_cases hyx : y = x
    · rw [hyx]
      exact hslab.pool
    · exact (hmarks y hyx).1.trans (ho.pool y)
  · simp only [hsame.slabNobj, hcache]
    rcases (hL _ y).1 hy with ⟨rfl, hq⟩ | ⟨hyx, hyL⟩
    · rw [update_self, Option.some.inj hq]
      exact hslab
    · rw [update_of_ne hyx]
      exact (ho.slab q y hyL).congr (hmarks y hyx).1 (hmarks y hyx).2 ht (hothers y hyx).1 (hothers y hyx).2
  · simp only [hsame.slabNobj]
    rcases hlive o p hop with h | ⟨rfl, hox, hlt⟩
    · obtain ⟨hp0, hlt, q, hq⟩ := ho.live o p h
      refine ⟨hp0, hlt, ?_⟩
      by_cases hox : o.slabId = x
      · exact ⟨k', (hL _ _).2 (Or.inl ⟨hox, rfl⟩)⟩
      · exact ⟨q, (hL _ _).2 (Or.inr ⟨hox, hq⟩)⟩
    · exact ⟨rfl, hlt, k', (hL _ _).2 (Or.inl ⟨hox, rfl⟩)⟩
  · simp only [hsame.vol, hsame.slabNobj, hsame.objNlb] at hi ⊢
    exact ho.nobj i hi

/-! ## Objects -/

theorem bestSlabList_eq {fs : Flexalloc} {e : PoolEntry} (hpool : (fs.header x).pool = 0) (he : fs.entryAt 0 = .ok e)
    (hf : fs.fncAt 0 = .ok .dflt) : flaPoolBestSlabList fs x = .ok (0, kindOf e.slabNobj (fs.header x).refcount) := by
  simp only [flaPoolBestSlabList, hpool, he, hf, EntryFnc.numFlaObjs]
  rfl

/-- slab `x` with a new cache element and a new count -/
def Flexalloc.recount (fs : Flexalloc) (x : ℕ) (c : CacheElem) (r : ℕ) : Flexalloc :=
  (fs.setElem x c).setHeader x { fs.header x with refcount := r }

section Recount

variable {fs : Flexalloc} {c : CacheElem} {r : ℕ}

@[simp] theorem recount_header (fs : Flexalloc) (x : ℕ) (c : CacheElem) (r : ℕ) :
    (fs.recount x c r).header x = { fs.header x with refcount := r } := by
  simp [Flexalloc.recount, Flexalloc.setHeader, Flexalloc.header]

theorem recount_header_ne {y : ℕ} (h : y ≠ x) : (fs.recount x c r).header y = fs.header y := by
  simp [Flexalloc.recount, Flexalloc.setHeader, Flexalloc.header, Flexalloc.setElem, update_of_ne h]

theorem recount_slabsOnly (fs : Flexalloc) (x : ℕ) (c : CacheElem) (r : ℕ) : SlabsOnly 0 fs (fs.recount x c r) :=
  .of_slabs 0 fs _ _

theorem recount_chains {nslabs : ℕ} {heads : SlabKind → ℕ} (hc : Chains nslabs fs.slabs heads L) :
    Chains nslabs (fs.recount x c r).slabs heads L := by
  refine hc.congr fun q y _ => ?_
  by_cases h : y = x
  · subst h; simp [Flexalloc.setElem, Flexalloc.header]
  · simp [Flexalloc.setElem, update_of_ne h]

end Recount

theorem liveIn_cons (o : Obj) (p : ℕ) (live : List (Obj × ℕ)) (y : ℕ) :
    liveIn ((o, p) :: live) y = liveIn live y + if o.slabId = y then 1 else 0 := by
  simp [liveIn, List.countP_cons]

theorem liveIn_erase {o : Obj} {p : ℕ} {live : List (Obj × ℕ)} (h : (o, p) ∈ live) (y : ℕ) :
    liveIn live y = liveIn (live.erase (o, p)) y + if o.slabId = y then 1 else 0 := by
  rw [← liveIn_cons o p]
  exact (List.perm_cons_erase h).countP_eq _

/-- what the object functions find out about a slab of the pool -/
structure InPool (fs : Flexalloc) (x : ℕ) (k : SlabKind) : Prop where
  range : flaSlabRangeCheckId fs.nslabs x = false
  cached : (fs.cache x).state ≠ .stale
  best : flaPoolBestSlabList fs x = .ok (0, k)
  entry : fs.entryAt (fs.header x).pool = .ok (fs.pools.entries 0)
  fnc : fs.fncAt (fs.header x).pool = .ok .dflt

theorem Owned.inPool (hg : VolOk v) (ho : Owned v tight sharp s L) (hp : s.fs.PoolLive 0) (hx : x ∈ L (some k)) :
    InPool s.fs x k := by
  have hs := ho.slab k x hx
  have hlt : x < s.fs.nslabs := ho.nslabs ▸ ho.chains.lt _ x hx
  have hn : s.fs.nslabs < 2 ^ 32 := by
    rw [ho.nslabs]
    exact nslabs_lt hg.nslabs_le
  refine ⟨rangeCheck_of_lt hn hlt, hs.cached, ?_, ?_, ?_⟩
  · rw [bestSlabList_eq hs.pool (ho.dir.entryAt hp) (ho.dir.fncAt hp), ← hs.kind]
  · rw [hs.pool]; exact ho.dir.entryAt hp
  · rw [hs.pool]; exact ho.dir.fncAt hp

/-- a slab of the pool with a new count, moved to the list the count calls for; it may stay where it is when that is the
list it is in -/
theorem Owned.relist (hg : VolOk v) (ho : Owned v tight sharp s L) (hp : s.fs.PoolLive 0) (hx : x ∈ L (some k))
    (c : CacheElem) (r : ℕ) (k' : SlabKind) :
    ∃ fs' L', moveSlab (s.fs.recount x c r) x (0, k) (0, k') = (0, fs') ∧ SlabsOnly 0 s.fs fs' ∧
      Chains v.geo.nslabs fs'.slabs (fs'.pools.entries 0).head L' ∧
      (∀ q y, y ∈ L' q ↔ (y = x ∧ q = some k') ∨ (y ≠ x ∧ y ∈ L q)) ∧ L' none = L none ∧
      fs'.slabs.fslabNum = s.fs.slabs.fslabNum ∧ fs'.cache = update s.fs.cache x c ∧
      SameMarks (s.fs.recount x c r).slabs.headers fs'.slabs.headers := by
  have hc : Chains (s.fs.recount x c r).nslabs (s.fs.recount x c r).slabs
      ((s.fs.recount x c r).pools.entries 0).head L := by
    have := ho.chains
    rw [ho.listHead hp, ← ho.nslabs] at this
    exact recount_chains this
  have hn : (s.fs.recount x c r).nslabs ≤ flaLinkedListNull := ho.nslabs.trans_le hg.nslabs_le
  obtain ⟨e, hd, hrun, hrest, hmarks, hc'⟩ := moveSlab_spec hn hc hx k'
  refine ⟨_, moved L k k' x, hrun, (recount_slabsOnly s.fs x c r).trans (.withLists hrest hd), ?_,
    fun q y => mem_moved ho.chains.toSplit hx k' q y, moved_none L k k' x, rfl, rfl, hmarks⟩
  have hent : (((s.fs.recount x c r).withLists 0 e hd).pools.entries 0) = e := by
    simp [Flexalloc.withLists, Flexalloc.setEntry]
  rw [hent, ← ho.nslabs]
  exact hc'

theorem Owned.mono {tight' sharp' : Prop} (ho : Owned v tight sharp s L) (ht : tight' → tight) (hs : sharp' → sharp) :
    Owned v tight' sharp' s L where
  vol := ho.vol
  dir := ho.dir
  chains := ho.chains
  others := ho.others
  cover h := ho.cover (ht h)
  num h := ho.num (ht h)
  free := ho.free
  pool := ho.pool
  slab k x hx := (ho.slab k x hx).congr rfl rfl hs rfl fun _ => Iff.rfl
  nodup := ho.nodup
  live := ho.live
  nobj := ho.nobj
  alone := ho.alone

theorem Owned.full_of_taken (ho : Owned v tight sharp s L) (hx : x ∈ L (some k)) (hp : s.fs.PoolLive 0)
    (h31 : (s.fs.pools.entries 0).slabNobj ≤ 2 ^ 31) (hall : ∀ i < (s.fs.pools.entries 0).slabNobj, (⟨x, i⟩, 0) ∈ s.live) : k = .full := by
  have hs := ho.slab k x hx
  have hused := ho.dir.used 0 hp
  have hle := ho.liveIn_le x
  have hge : (s.fs.pools.entries 0).slabNobj ≤ liveIn s.live x := by
    have hsub : List.range (s.fs.pools.entries 0).slabNobj ⊆ liveEntries s.live x := fun i hi =>
      (mem_liveEntries fun o p h => (ho.live o p h).1).2 (hall i (List.mem_range.1 hi))
    have := (List.nodup_range.subperm hsub).length_le
    rwa [List.length_range, ← liveIn_eq_length] at this
  rw [hs.kind, hs.refcount, kindOf_eq (by omega) hle, if_neg (by omega), if_pos (by omega)]

/-- the live objects change by those of slab `x`, and its freelist `c` and its count `r` with them -/
structure Retaken (s : Sys) (live' : List (Obj × ℕ)) (sharp' : Prop) (x : ℕ) (c : CacheElem) (r : ℕ) : Prop where
  slab : SlabOk (s.fs.pools.entries 0).slabNobj live' sharp' x ⟨0, 0, 0, r⟩ c (kindOf (s.fs.pools.entries 0).slabNobj r)
  others : ∀ y ≠ x, liveIn live' y = liveIn s.live y ∧ ∀ i, (⟨y, i⟩, 0) ∈ live' ↔ (⟨y, i⟩, 0) ∈ s.live
  nodup : live'.Nodup
  live : ∀ o p, (o, p) ∈ live' →
    (o, p) ∈ s.live ∨ (p = 0 ∧ o.slabId = x ∧ o.entryNdx < (s.fs.pools.entries 0).slabNobj)

section Retaken

variable {sharp' : Prop} {live' : List (Obj × ℕ)} {c : CacheElem} {r : ℕ}

theorem recount_best (ho : Owned v tight sharp s L) (hp : s.fs.PoolLive 0) (hx : x ∈ L (some k)) (c : CacheElem) (r : ℕ) :
    flaPoolBestSlabList (s.fs.recount x c r) x = .ok (0, kindOf (s.fs.pools.entries 0).slabNobj r) := by
  have hpool : ((s.fs.recount x c r).header x).pool = 0 := by
    rw [recount_header]
    exact (ho.slab k x hx).pool
  have hent : (s.fs.recount x c r).entryAt 0 = .ok (s.fs.pools.entries 0) := ho.dir.entryAt hp
  have hfnc : (s.fs.recount x c r).fncAt 0 = .ok .dflt := ho.dir.fncAt hp
  rw [bestSlabList_eq hpool hent hfnc, recount_header]

theorem Owned.stay (ho : Owned v tight sharp s L) (hp : s.fs.PoolLive 0) (ht : sharp' → sharp) (hx : x ∈ L (some k))
    (hr : Retaken s live' sharp' x c r) (hk : kindOf (s.fs.pools.entries 0).slabNobj r = k) :
    Owned v tight sharp' ⟨s.fs.recount x c r, live'⟩ L := by
  have hself : ∀ q y, y ∈ L q ↔ (y = x ∧ q = some k) ∨ (y ≠ x ∧ y ∈ L q) := fun q y => by
    by_cases hyx : y = x
    · subst hyx
      simp only [true_and, ne_eq, not_true_eq_false, false_and, or_false]
      exact ⟨fun h => ho.chains.disj q _ y h hx, fun h => h ▸ hx⟩
    · simp [hyx]
  have hchains := ho.chains
  rw [ho.listHead hp] at hchains
  refine ho.retake hp ht hx (recount_slabsOnly s.fs x c r) (recount_chains hchains) hself rfl rfl rfl
    (fun y hy => by rw [recount_header_ne hy]; exact ⟨rfl, rfl⟩) ?_ hr.others hr.nodup hr.live
  rw [← hk]
  refine hr.slab.congr ?_ ?_ id rfl fun _ => Iff.rfl
  · rw [recount_header]
    exact (ho.slab k x hx).pool
  · rw [recount_header]

theorem Owned.move (hg : VolOk v) (ho : Owned v tight sharp s L) (hp : s.fs.PoolLive 0) (ht : sharp' → sharp)
    (hx : x ∈ L (some k)) (hr : Retaken s live' sharp' x c r) :
    ∃ fs' L', moveSlab (s.fs.recount x c r) x (0, k) (0, kindOf (s.fs.pools.entries 0).slabNobj r) = (0, fs') ∧
      SlabsOnly 0 s.fs fs' ∧ Owned v tight sharp' ⟨fs', live'⟩ L' := by
  obtain ⟨fs', L', hmove, hsame, hc', hL', hnone, hnum, hcache, hmarks⟩ :=
    ho.relist hg hp hx c r (kindOf (s.fs.pools.entries 0).slabNobj r)
  have hhead : ∀ y, (fs'.header y).pool = ((s.fs.recount x c r).header y).pool ∧
      (fs'.header y).refcount = ((s.fs.recount x c r).header y).refcount := hmarks
  refine ⟨fs', L', hmove, hsame, ho.retake hp ht hx hsame hc' hL' hnone hnum hcache (fun y hy => ?_) ?_ hr.others
    hr.nodup hr.live⟩
  · rw [(hhead y).1, (hhead y).2, recount_header_ne hy]
    exact ⟨rfl, rfl⟩
  · refine hr.slab.congr ?_ ?_ id rfl fun _ => Iff.rfl
    · rw [(hhead x).1, recount_header]
      exact (ho.slab k x hx).pool
    · rw [(hhead x).2, recount_header]

end Retaken

theorem Owned.taken (hg : VolOk v) (ho : Owned v tight sharp s L) (hx : x ∈ L (some k)) {buf : FlistBuf} {i : ℕ}
    {fl : Freelist} (hbuf : (s.fs.cache x).freelist = some buf) (htake : takeEntry buf.flist = some (i, fl)) :
    i < (s.fs.pools.entries 0).slabNobj ∧ (⟨x, i⟩, 0) ∉ s.live ∧ (s.fs.header x).refcount + 1 < 2 ^ 32 ∧
      Retaken s ((⟨x, i⟩, 0) :: s.live) sharp x ⟨.dirty, some { buf with flist := fl }⟩
        ((s.fs.header x).refcount + 1) := by
  have hs := ho.slab k x hx
  have hn := ho.nobj_lt hg
  obtain ⟨buf', hbuf', hlen, hok, htaken, hlive⟩ := hs.flist
  obtain rfl : buf' = buf := Option.some.inj (hbuf'.symm.trans hbuf)
  obtain ⟨hfree, -, hlen', hfl⟩ := takeEntry_some htake
  have hi : i < (s.fs.pools.entries 0).slabNobj := hlen ▸ takeEntry_lt hok htake
  have hnew : (⟨x, i⟩, 0) ∉ s.live := fun hm => by
    rw [htaken i hi hm] at hfree
    exact absurd hfree (by decide)
  have hnd : ((⟨x, i⟩, 0) :: s.live : List (Obj × ℕ)).Nodup := List.nodup_cons.2 ⟨hnew, ho.nodup⟩
  have hcount : liveIn ((⟨x, i⟩, 0) :: s.live) x = (s.fs.header x).refcount + 1 := by
    rw [liveIn_cons, if_pos rfl, hs.refcount]
  have hlive' : ∀ o p, (o, p) ∈ ((⟨x, i⟩, 0) :: s.live : List (Obj × ℕ)) →
      (o, p) ∈ s.live ∨ (p = 0 ∧ o.slabId = x ∧ o.entryNdx < (s.fs.pools.entries 0).slabNobj) := fun o p hop => by
    rcases List.mem_cons.1 hop with h | h
    · cases h; exact Or.inr ⟨rfl, rfl, hi⟩
    · exact Or.inl h
  have hle : (s.fs.header x).refcount + 1 ≤ (s.fs.pools.entries 0).slabNobj := by
    rw [← hcount]
    refine liveIn_le_of_lt hnd fun o p hop => ?_
    rcases hlive' o p hop with h | ⟨rfl, -, hlt⟩
    · exact ⟨(ho.live o p h).1, fun _ => (ho.live o p h).2.1⟩
    · exact ⟨rfl, fun _ => hlt⟩
  refine ⟨hi, hnew, by omega, ⟨rfl, hcount.symm, rfl, by simp, _, rfl, hlen'.trans hlen, takeEntry_ok hok htake,
    fun j hj hm => ?_, fun ht j hj hf => ?_⟩, fun y hy => ⟨?_, fun j => by simp [hy]⟩, hnd, hlive'⟩
  · rw [hfl]
    rcases List.mem_cons.1 hm with h | h
    · cases h; simp
    · rw [htaken j hj h]; rfl
  · rw [hfl, Bool.and_eq_false_iff] at hf
    rcases hf with hf | hf
    · exact List.mem_cons_of_mem _ (hlive ht j hj hf)
    · have : j = i := by simpa using hf
      rw [this]; exact List.mem_cons_self
  · rw [liveIn_cons, if_neg (Ne.symm hy), Nat.add_zero]

/-- an entry lost to a failed call: taken, with no object -/
theorem Owned.lost (ho : Owned v tight sharp s L) (hx : x ∈ L (some k)) {buf : FlistBuf} {i : ℕ} {fl : Freelist}
    (hbuf : (s.fs.cache x).freelist = some buf) (htake : takeEntry buf.flist = some (i, fl)) :
    Retaken s s.live False x ⟨(s.fs.cache x).state, some { buf with flist := fl }⟩ (s.fs.header x).refcount := by
  have hs := ho.slab k x hx
  obtain ⟨buf', hbuf', hlen, hok, htaken, -⟩ := hs.flist
  obtain rfl : buf' = buf := Option.some.inj (hbuf'.symm.trans hbuf)
  obtain ⟨-, -, hlen', hfl⟩ := takeEntry_some htake
  refine ⟨⟨rfl, hs.refcount, rfl, hs.cached, _, rfl, hlen'.trans hlen, takeEntry_ok hok htake, fun j hj hm => ?_,
    False.elim⟩, fun _ _ => ⟨rfl, fun _ => Iff.rfl⟩, ho.nodup, fun o p h => Or.inl h⟩
  rw [hfl, htaken j hj hm]
  rfl

/-- **Taking an entry of a slab of the pool.** -/
theorem objectCreateIn_owned (hg : VolOk v) (ho : Owned v tight sharp s L) (hp : s.fs.PoolLive 0) (hx : x ∈ L (some k))
    (env : Env) :
    ∃ err obj fs', objectCreateIn env s.fs 0 x = .ok (err, obj, fs') ∧ SlabsOnly 0 s.fs fs' ∧
      ((err = 0 ∧ ∃ i L', obj = some ⟨x, i⟩ ∧ i < (s.fs.pools.entries 0).slabNobj ∧ (⟨x, i⟩, 0) ∉ s.live ∧
          Owned v tight sharp ⟨fs', (⟨x, i⟩, 0) :: s.live⟩ L') ∨
        (err ≠ 0 ∧ Owned v tight False ⟨fs', s.live⟩ L ∧
          (sharp → (s.fs.pools.entries 0).slabNobj ≤ 2 ^ 31 → k = .full ∧ fs' = s.fs))) := by
  have hs := ho.slab k x hx
  have hin := ho.inPool hg hp hx
  have hn := ho.nobj_lt hg
  obtain ⟨buf, hbuf, -, -, -, hlive⟩ := hs.flist
  cases htake : takeEntry buf.flist with
  | none =>
    have halloc := objAlloc_none hs.cached hbuf htake
    exact ⟨1, none, s.fs, objectCreateIn_failed hin.range hin.cached hin.best hin.fnc (by decide)
      (nextAvailableObj_failed hin.range (by decide) halloc), .refl 0 s.fs, Or.inr ⟨by decide,
      ho.mono id False.elim, fun ht h31 => ⟨ho.full_of_taken hx hp h31 fun i hi => hlive ht i hi (takeEntry_none htake i),
        rfl⟩⟩⟩
  | some r =>
    obtain ⟨i, fl⟩ := r
    obtain ⟨hi, hnew, hr32, hret⟩ := ho.taken hg hx hbuf htake
    by_cases hi31 : i < 2 ^ 31
    · have halloc := objAlloc_spec hs.cached hbuf htake hi31
      have hnext : flaSlabNextAvailableObj s.fs x 1 = .ok (0, some ⟨x, i⟩,
          s.fs.recount x ⟨.dirty, some { buf with flist := fl }⟩ ((s.fs.header x).refcount + 1)) := by
        have hent : (s.fs.setElem x ⟨.dirty, some { buf with flist := fl }⟩).entryAt
          ((s.fs.setElem x ⟨.dirty, some { buf with flist := fl }⟩).header x).pool = .ok _ := hin.entry
        rw [← u32_of_lt hr32]
        exact nextAvailableObj_done hin.range hent hin.fnc halloc
      have hrun : objectCreateIn env s.fs 0 x = _ := objectCreateIn_done hin.range hin.cached hin.best hin.fnc
        (recount_best ho hp hx _ _) hnext
      by_cases hk : kindOf (s.fs.pools.entries 0).slabNobj ((s.fs.header x).refcount + 1) = k
      · exact ⟨0, _, _, by rw [hrun, if_pos (by rw [hk])], recount_slabsOnly _ _ _ _,
          Or.inl ⟨rfl, i, L, rfl, hi, hnew, ho.stay hp id hx hret hk⟩⟩
      · obtain ⟨fs', L', hmove, hsame, ho'⟩ := ho.move hg hp id hx hret
        have hne : ¬ ((0, k) : ℕ × SlabKind) =
            (0, kindOf (s.fs.pools.entries 0).slabNobj ((s.fs.header x).refcount + 1)) := by simpa using Ne.symm hk
        exact ⟨0, _, fs', by rw [hrun, if_neg hne, hmove], hsame, Or.inl ⟨rfl, i, L', rfl, hi, hnew, ho'⟩⟩
    · have halloc := objAlloc_wide hs.cached hbuf htake (by omega) (by omega)
      refine ⟨1, none, _, objectCreateIn_failed hin.range hin.cached hin.best hin.fnc (by decide)
        (nextAvailableObj_failed hin.range (by decide) halloc), .of_slabs 0 s.fs _ _,
        Or.inr ⟨by decide, ?_, fun _ h31 => absurd hi (by omega)⟩⟩
      have := ho.stay hp False.elim hx (ho.lost hx hbuf htake) hs.kind.symm
      have hself : s.fs.recount x ⟨(s.fs.cache x).state, some { buf with flist := fl }⟩ (s.fs.header x).refcount =
          s.fs.setElem x ⟨(s.fs.cache x).state, some { buf with flist := fl }⟩ := by
        simp [Flexalloc.recount, Flexalloc.setHeader, Flexalloc.setElem, Flexalloc.header]
      rw [hself] at this
      exact this

/-! ## Acquiring a slab -/

/-- **Slabs join the pool or leave the free queue**, the live objects staying where they are. -/
theorem Owned.regroup {tight' : Prop} (ho : Owned v tight sharp s L) (hp : s.fs.PoolLive 0)
    {fs' : Flexalloc} (hsame : SlabsOnly 0 s.fs fs')
    (hchains : Chains v.geo.nslabs fs'.slabs (fs'.pools.entries 0).head L')
    (hcover : tight' → ∀ x < v.geo.nslabs, ∃ q, x ∈ L' q) (hnum : tight' → fs'.slabs.fslabNum = (L' none).length)
    (hfree : ∀ x, (∀ k, x ∉ L' (some k)) → (fs'.cache x).state = .stale) (hpool : ∀ x, (fs'.header x).pool = 0)
    (hkeep : ∀ k, ∀ x ∈ L (some k), x ∈ L' (some k))
    (hslab : ∀ k, ∀ x ∈ L' (some k),
      (x ∈ L (some k) ∧ fs'.cache x = s.fs.cache x ∧ (fs'.header x).pool = (s.fs.header x).pool ∧
        (fs'.header x).refcount = (s.fs.header x).refcount) ∨
      SlabOk (s.fs.pools.entries 0).slabNobj s.live sharp x (fs'.header x) (fs'.cache x) k) :
    Owned v tight' sharp ⟨fs', s.live⟩ L' := by
  have hused := ho.dir.used 0 hp
  refine ⟨hsame.vol.trans ho.vol, hsame.dir ho.dir, ?_, fun i hi q => ?_, hcover, hnum, hfree, hpool, fun q y hy => ?_, ho.nodup,
    fun o p hop => ?_, fun i hi => ?_, fun h => absurd ((hsame.poolLive 0).2 hp) h⟩
  · have : (fs'.pools.entries 0).listHead = (fs'.pools.entries 0).head := by
      funext q
      exact if_neg (by rw [hsame.slabNobj]; exact hused)
    rw [this]
    exact hchains
  · simp only
    rw [hsame.entries_ne hi]
    exact ho.others i hi q
  · simp only [hsame.slabNobj]
    rcases hslab q y hy with ⟨hyL, hcache, hpool, href⟩ | hok
    · rw [hcache]
      exact (ho.slab q y hyL).congr hpool href id rfl fun _ => Iff.rfl
    · exact hok
  · simp only [hsame.slabNobj]
    obtain ⟨hp0, hlt, q, hq⟩ := ho.live o p hop
    exact ⟨hp0, hlt, q, hkeep q _ hq⟩
  · simp only [hsame.vol, hsame.slabNobj, hsame.objNlb] at hi ⊢
    exact ho.nobj i hi

theorem Owned.liveIn_free (ho : Owned v tight sharp s L) (hx : x ∈ L none) : liveIn s.live x = 0 := by
  rw [liveIn, List.countP_eq_zero]
  rintro ⟨o, p⟩ hop heq
  obtain ⟨-, -, q, hq⟩ := ho.live o p hop
  rw [of_decide_eq_true heq] at hq
  exact absurd (ho.chains.disj _ _ x hx hq) (by simp)

theorem Owned.not_live_free (ho : Owned v tight sharp s L) (hx : x ∈ L none) (i : ℕ) : (⟨x, i⟩, 0) ∉ s.live := fun hm => by
  obtain ⟨-, -, q, hq⟩ := ho.live _ _ hm
  exact absurd (ho.chains.disj _ _ x hx hq) (by simp)

theorem acquireSlab_dry {fs : Flexalloc} (hpos : 0 < fs.nslabs) (hn : fs.nslabs ≤ flaLinkedListNull)
    (hq : Queue fs.slabs.headers fs.slabs.fslabHead fs.slabs.fslabTail []) (env : Env) (objNlb : ℕ) :
    ∃ err x, flaAcquireSlab env fs objNlb = .ok (err, x, fs) ∧ err ≠ 0 := by
  unfold flaAcquireSlab
  by_cases hnum : fs.slabs.fslabNum = 0
  · rw [if_pos hnum]
    exact ⟨_, _, rfl, by decide⟩
  · obtain ⟨p, hl⟩ := hq.linked
    have hhead : fs.slabs.fslabHead = flaLinkedListNull := hl
    have hck : flaSlabRangeCheckId fs.nslabs fs.slabs.fslabHead = true := by
      rw [flaSlabRangeCheckId, hhead, sub32_of_le (by omega) (nslabs_lt hn)]
      exact decide_eq_true (by omega)
    have hrun : flaEdllRemoveHead fs.nslabs fs.slabs.headers fs.slabs.fslabHead fs.slabs.fslabTail =
        (-1, fs.slabs.headers, fs.slabs.fslabHead, fs.slabs.fslabTail, fs.slabs.fslabHead) := by
      unfold flaEdllRemoveHead
      rw [hck, if_pos rfl]
    rw [if_neg hnum, hrun]
    exact ⟨_, _, rfl, by decide⟩

theorem acquireSlab_none (hg : VolOk v) (ho : Owned v tight sharp s L) (hF : L none = []) (env : Env) (objNlb : ℕ) :
    ∃ err x, flaAcquireSlab env s.fs objNlb = .ok (err, x, s.fs) ∧ err ≠ 0 := by
  have hq := ho.chains.queue
  rw [hF] at hq
  exact acquireSlab_dry (ho.nslabs ▸ hg.nslabs_pos) (ho.nslabs.trans_le hg.nslabs_le) hq env objNlb

/-- `fla_acquire_slab` when slab `x` is at the head of the free queue: it is taken off and formatted for pool 0 -/
theorem acquireSlab_some (hg : VolOk v) (ho : Owned v tight sharp s L) {l : List ℕ} (hF : L none = x :: l)
    (hnum : s.fs.slabs.fslabNum ≠ 0) (env : Env) {objNlb n : ℕ} (hcalc : flaCalcObjsInSlab s.fs.vol objNlb = .ok n)
    (hn : n ≠ 0) :
    ∃ hd head tail fs₁, SameMarks s.fs.slabs.headers hd ∧
      Chains v.geo.nslabs (s.fs.formatted hd head tail x).slabs (s.fs.pools.entries 0).listHead (update L none l) ∧
      fs₁ = { (s.fs.formatted hd head tail x).setElem x ⟨.dirty, some ⟨flaFlistInit n, env.junk⟩⟩ with
        slabs := { (s.fs.formatted hd head tail x).slabs with fslabNum := sub32 s.fs.slabs.fslabNum 1 } } ∧
      flaAcquireSlab env s.fs objNlb =
        .ok (if env.bufAlloc then (0, x, fs₁) else (-eNOMEM, x, s.fs.formatted hd head tail x)) := by
  have hx : x < v.geo.nslabs := ho.chains.lt none x (hF ▸ List.mem_cons_self)
  have hck : flaSlabRangeCheckId s.fs.nslabs x = false := by
    rw [ho.nslabs]
    exact rangeCheck_of_lt (nslabs_lt hg.nslabs_le) hx
  have hxl : ∀ q, x ∉ update L none l q := fun q hq => by
    by_cases hqn : q = none
    · subst hqn
      rw [update_self] at hq
      have := ho.chains.nodup none
      rw [hF] at this
      exact (List.nodup_cons.1 this).1 hq
    · rw [update_of_ne hqn] at hq
      exact hqn (ho.chains.disj q none x hq (hF ▸ List.mem_cons_self))
  obtain ⟨hd, head, tail, hrun, hmarks, hc⟩ := ho.chains.takeHead hg.nslabs_le hF s.fs.slabs.fslabNum
  have hstale := ho.free_stale (x := x) (hF ▸ List.mem_cons_self)
  refine ⟨hd, head, tail, _, hmarks, hc.congr fun q y hy => ?_, rfl, ?_⟩
  · have hyx : y ≠ x := fun h => hxl q (h ▸ hy)
    simp [update_of_ne hyx]
  · rw [acquireSlab_eq hnum (ho.nslabs ▸ hrun) hck hcalc, if_neg (by omega), if_neg (not_not.2 hstale)]
    by_cases hb : env.bufAlloc
    · rw [if_neg (not_not.2 hb), if_pos hb]
      rfl
    · rw [if_pos hb, if_neg hb]

/-- a slab taken off the free queue for which no memory is left is lost -/
theorem Owned.lostSlab (ho : Owned v tight sharp s L) (hp : s.fs.PoolLive 0) {l : List ℕ} (hF : L none = x :: l)
    {hd : ℕ → SlabHeader} {head tail : ℕ} (hmarks : SameMarks s.fs.slabs.headers hd)
    (hc : Chains v.geo.nslabs (s.fs.formatted hd head tail x).slabs (s.fs.pools.entries 0).head (update L none l)) :
    Owned v False sharp ⟨s.fs.formatted hd head tail x, s.live⟩ (update L none l) := by
  have hL : ∀ k, update L none l (some k) = L (some k) := fun k => update_of_ne (by simp) _ _
  refine ho.regroup hp (.of_slabs 0 s.fs _ _) hc False.elim False.elim (fun y hy => ?_) (fun y => ?_)
    (fun k y hy => by rw [hL]; exact hy) (fun k y hy => Or.inl ?_)
  · exact ho.free y fun k hk => hy k (by rw [hL]; exact hk)
  · show (update hd x _ y).pool = 0
    by_cases hyx : y = x
    · rw [hyx, update_self]
    · rw [update_of_ne hyx]
      exact (hmarks y).1.trans (ho.pool y)
  · rw [hL] at hy
    have hyx : y ≠ x := fun h => absurd (ho.chains.disj _ _ x (hF ▸ List.mem_cons_self) (h ▸ hy)) (by simp)
    refine ⟨hy, rfl, ?_⟩
    show (update hd x _ y).pool = _ ∧ (update hd x _ y).refcount = _
    rw [update_of_ne hyx]
    exact hmarks y

theorem Owned.adopt (hg : VolOk v) (ho : Owned v tight sharp s L) (hp : s.fs.PoolLive 0) {l : List ℕ}
    (hF : L none = x :: l) {hd : ℕ → SlabHeader} {head tail : ℕ} (hmarks : SameMarks s.fs.slabs.headers hd)
    (hc : Chains v.geo.nslabs (s.fs.formatted hd head tail x).slabs (s.fs.pools.entries 0).head (update L none l))
    {fs₁ : Flexalloc} {junk : Bytes} (hfs₁ : fs₁ = { (s.fs.formatted hd head tail x).setElem x
        ⟨.dirty, some ⟨flaFlistInit (s.fs.pools.entries 0).slabNobj, junk⟩⟩ with
      slabs := { (s.fs.formatted hd head tail x).slabs with fslabNum := sub32 s.fs.slabs.fslabNum 1 } }) :
    ∃ fs' L', (fs₁.onList 0 .empty fun hd head => flaHdllPrepend fs₁.nslabs hd x head) = (0, fs') ∧
      SlabsOnly 0 s.fs fs' ∧ Owned v tight sharp ⟨fs', s.live⟩ L' ∧ x ∈ L' (some .empty) := by
  have hx : x < v.geo.nslabs := ho.chains.lt none x (hF ▸ List.mem_cons_self)
  have hxs : ∀ k, x ∉ L (some k) := fun k hk => absurd (ho.chains.disj _ _ x (hF ▸ List.mem_cons_self) hk) (by simp)
  have hndF := ho.chains.nodup none
  rw [hF, List.nodup_cons] at hndF
  have hnew : ∀ q, x ∉ update L none l q := fun q hq => by
    cases q with
    | none => rw [update_self] at hq; exact hndF.1 hq
    | some k => rw [update_of_ne (by simp)] at hq; exact hxs k hq
  have hc₁ : Chains v.geo.nslabs fs₁.slabs (fs₁.pools.entries 0).head (update L none l) := by
    rw [hfs₁]
    exact hc.congr fun _ _ _ => ⟨rfl, rfl⟩
  obtain ⟨hd', hrun, hm', hc'⟩ := hc₁.prepend hg.nslabs_le .empty hx hnew
  rw [← setHead_head] at hc'
  have hn₁ : fs₁.nslabs = v.geo.nslabs := by rw [hfs₁]; exact ho.nslabs
  have hsame₁ : SlabsOnly 0 s.fs fs₁ := by rw [hfs₁]; exact .of_slabs 0 s.fs _ _
  have hsame := hsame₁.trans (.withLists (setHead_rest (fs₁.pools.entries 0) .empty x) hd')
  have hrun' : flaHdllPrepend fs₁.nslabs fs₁.slabs.headers x ((fs₁.pools.entries 0).head .empty) = (0, hd', x) := by
    rw [hn₁]; exact hrun
  have hLe : ∀ k, update (update L none l) (some .empty) (x :: update L none l (some .empty)) (some k) =
      if k = .empty then x :: L (some .empty) else L (some k) := fun k => by
    cases k <;> simp
  have hLn : update (update L none l) (some .empty) (x :: update L none l (some .empty)) none = l := by simp
  generalize update (update L none l) (some .empty) (x :: update L none l (some .empty)) = L₁ at hc' hLe hLn
  -- headers and cache after the call
  have hhead : ∀ y, (hd' y).pool = (fs₁.header y).pool ∧ (hd' y).refcount = (fs₁.header y).refcount := hm'
  have hhx : fs₁.header x = ⟨0, flaLinkedListNull, flaLinkedListNull, 0⟩ := by
    rw [hfs₁]; simp [Flexalloc.header, Flexalloc.formatted]
  have hhy : ∀ y ≠ x, fs₁.header y = hd y := fun y hy => by
    rw [hfs₁]; simp [Flexalloc.header, Flexalloc.formatted, update_of_ne hy]
  have hcx : fs₁.cache x = ⟨.dirty, some ⟨flaFlistInit (s.fs.pools.entries 0).slabNobj, junk⟩⟩ := by
    rw [hfs₁]; simp [Flexalloc.setElem]
  have hcy : ∀ y ≠ x, fs₁.cache y = s.fs.cache y := fun y hy => by
    rw [hfs₁]; simp [Flexalloc.setElem, update_of_ne hy, Flexalloc.formatted]
  refine ⟨_, L₁, onList_eq fs₁ 0 .empty (fun hd head => flaHdllPrepend fs₁.nslabs hd x head) hrun', hsame,
    ho.regroup hp hsame ?_ (fun ht y hy => ?_) (fun ht => ?_) (fun y hy => ?_) (fun y => ?_) (fun k y hy => ?_)
      (fun k y hy => ?_), ?_⟩
  · have hent : (fs₁.withLists 0 ((fs₁.pools.entries 0).setHead .empty x) hd').pools.entries 0 =
        (fs₁.pools.entries 0).setHead .empty x := by simp [Flexalloc.withLists, Flexalloc.setEntry]
    rw [hent]
    exact hc'
  · obtain ⟨q, hq⟩ := ho.cover ht y hy
    cases q with
    | none =>
      rw [hF] at hq
      rcases List.mem_cons.1 hq with rfl | hq
      · exact ⟨some .empty, by rw [hLe, if_pos rfl]; exact List.mem_cons_self⟩
      · exact ⟨none, by rw [hLn]; exact hq⟩
    | some k =>
      refine ⟨some k, ?_⟩
      rw [hLe]
      split_ifs with hk
      · subst hk; exact List.mem_cons_of_mem _ hq
      · exact hq
  · have hlen := length_le_of_lt (ho.chains.nodup none) (ho.chains.lt none)
    have h32 := nslabs_lt hg.nslabs_le
    have hnum : fs₁.slabs.fslabNum = sub32 s.fs.slabs.fslabNum 1 := by rw [hfs₁]
    rw [hF, List.length_cons] at hlen
    rw [hLn]
    show fs₁.slabs.fslabNum = l.length
    rw [hnum, ho.num ht, hF, List.length_cons, sub32_of_le (by omega) (by omega)]
    omega
  · have hyx : y ≠ x := fun h => hy .empty (by rw [hLe, if_pos rfl, h]; exact List.mem_cons_self)
    show (fs₁.cache y).state = .stale
    rw [hcy y hyx]
    refine ho.free y fun k hk => hy k ?_
    rw [hLe]
    split_ifs with hke
    · exact List.mem_cons_of_mem _ (hke ▸ hk)
    · exact hk
  · show (hd' y).pool = 0
    rw [(hhead y).1]
    by_cases hyx : y = x
    · rw [hyx, hhx]
    · rw [hhy y hyx]
      exact (hmarks y).1.trans (ho.pool y)
  · rw [hLe]
    split_ifs with hk
    · subst hk; exact List.mem_cons_of_mem _ hy
    · exact hy
  · rw [hLe] at hy
    by_cases hyx : y = x
    · subst hyx
      have hke : k = .empty := by
        by_contra hk
        rw [if_neg hk] at hy
        exact hxs k hy
      subst hke
      refine Or.inr ?_
      show SlabOk _ _ _ y (hd' y) (fs₁.cache y) .empty
      have hfree : y ∈ L none := hF ▸ List.mem_cons_self
      have href : (hd' y).refcount = 0 := by rw [(hhead y).2, hhx]
      rw [hcx]
      refine ⟨by rw [(hhead y).1, hhx], by rw [href, ho.liveIn_free hfree], by rw [href]; rfl, by simp, _, rfl, rfl,
        init_ok _, fun i _ hm => absurd hm (ho.not_live_free hfree i), fun _ i hi hf => ?_⟩
      rw [init_isFree, decide_eq_true hi] at hf
      exact absurd hf (by decide)
    · have hyL : y ∈ L (some k) := by
        split_ifs at hy with hk
        · subst hk
          rcases List.mem_cons.1 hy with h | h
          · exact absurd h hyx
          · exact h
        · exact hy
      refine Or.inl ⟨hyL, hcy y hyx, ?_, ?_⟩
      · show (hd' y).pool = _
        rw [(hhead y).1, hhy y hyx]
        exact (hmarks y).1
      · show (hd' y).refcount = _
        rw [(hhead y).2, hhy y hyx]
        exact (hmarks y).2
  · rw [hLe, if_pos rfl]
    exact List.mem_cons_self

/-- **A slab to take an entry from.** -/
theorem nextAvailableSlab_owned (hg : VolOk v) (ho : Owned v tight sharp s L) (hp : s.fs.PoolLive 0) (env : Env) :
    ∃ err x fs', flaPoolNextAvailableSlab env s.fs 0 = .ok (err, x, fs') ∧ SlabsOnly 0 s.fs fs' ∧
      ((err = 0 ∧ ∃ k L', k ≠ .full ∧ x ∈ L' (some k) ∧ Owned v tight sharp ⟨fs', s.live⟩ L') ∨
        (err ≠ 0 ∧ ∃ L', Owned v (tight ∧ env.bufAlloc) sharp ⟨fs', s.live⟩ L' ∧
          (tight → env.bufAlloc → fs' = s.fs ∧ ∀ q, q ≠ some .full → L q = []))) := by
  have hchains := ho.chains
  rw [ho.listHead hp] at hchains
  have hhead : ∀ k, (s.fs.pools.entries 0).head k = (L (some k)).headD flaLinkedListNull := fun k =>
    (hchains.linked k).head_eq
  have hin : ∀ k y l, L (some k) = y :: l → y ≠ flaLinkedListNull ∧ flaSlabRangeCheckId s.fs.nslabs y = false :=
    fun k y l h => by
      have hy : y < v.geo.nslabs := ho.chains.lt (some k) y (h ▸ List.mem_cons_self)
      rw [ho.nslabs]
      exact ⟨lt_null hg.nslabs_le hy, rangeCheck_of_lt (nslabs_lt hg.nslabs_le) hy⟩
  have hpart : (s.fs.pools.entries 0).partialSlabs = (L (some .part)).headD flaLinkedListNull := hhead .part
  have hempty : (s.fs.pools.entries 0).emptySlabs = (L (some .empty)).headD flaLinkedListNull := hhead .empty
  cases hP : L (some .part) with
  | cons y l =>
    obtain ⟨hnull, hck⟩ := hin .part y l hP
    rw [hP] at hpart
    have hy : (s.fs.pools.entries 0).partialSlabs = y := hpart
    refine ⟨0, y, s.fs, ?_, .refl 0 s.fs, Or.inl ⟨rfl, .part, L, by decide, hP ▸ List.mem_cons_self, ho⟩⟩
    rw [← hy] at hnull hck ⊢
    exact nextAvailableSlab_part hnull hck
  | nil =>
    rw [hP] at hpart
    have hnull : (s.fs.pools.entries 0).partialSlabs = flaLinkedListNull := hpart
    cases hE : L (some .empty) with
    | cons y l =>
      obtain ⟨hnull', hck⟩ := hin .empty y l hE
      rw [hE] at hempty
      have hy : (s.fs.pools.entries 0).emptySlabs = y := hempty
      refine ⟨0, y, s.fs, ?_, .refl 0 s.fs, Or.inl ⟨rfl, .empty, L, by decide, hE ▸ List.mem_cons_self, ho⟩⟩
      rw [← hy] at hnull' hck ⊢
      exact nextAvailableSlab_empty hnull hnull' hck
    | nil =>
      rw [hE] at hempty
      have hnull' : (s.fs.pools.entries 0).emptySlabs = flaLinkedListNull := hempty
      cases hF : L none with
      | nil =>
        obtain ⟨err, x, hrun, herr⟩ := acquireSlab_none hg ho hF env (s.fs.pools.entries 0).objNlb
        refine ⟨err, x, s.fs, nextAvailableSlab_failed hnull hnull' herr hrun, .refl 0 s.fs,
          Or.inr ⟨herr, L, ho.mono And.left id, fun _ _ => ⟨rfl, fun q hq => ?_⟩⟩⟩
        cases q with
        | none => exact hF
        | some k => cases k with
          | empty => exact hE
          | full => exact absurd rfl hq
          | part => exact hP
      | cons y l =>
        by_cases hnum : s.fs.slabs.fslabNum = 0
        · have hrun : flaAcquireSlab env s.fs (s.fs.pools.entries 0).objNlb =
            .ok (flaErrAllSlabsUsed, flaLinkedListNull, s.fs) := if_pos hnum
          refine ⟨flaErrAllSlabsUsed, flaLinkedListNull, s.fs, nextAvailableSlab_failed hnull hnull' (by decide) hrun,
            .refl 0 s.fs, Or.inr ⟨by decide, L, ho.mono And.left id, fun ht _ => ?_⟩⟩
          have := ho.num ht
          rw [hnum, hF] at this
          cases this
        · have hused := ho.dir.used 0 hp
          obtain ⟨hd, head, tail, fs₁, hmarks, hc, hfs₁, hrun⟩ :=
            acquireSlab_some hg ho hF hnum env (ho.nobj 0 hused) hused
          rw [ho.listHead hp] at hc
          by_cases hb : env.bufAlloc
          · rw [if_pos hb] at hrun
            obtain ⟨fs', L', hon, hsame, ho', hmem⟩ := ho.adopt hg hp hF hmarks hc hfs₁
            exact ⟨0, y, fs', nextAvailableSlab_acquired hnull hnull' hrun hon, hsame,
              Or.inl ⟨rfl, .empty, L', by decide, hmem, ho'⟩⟩
          · rw [if_neg hb] at hrun
            exact ⟨-eNOMEM, y, s.fs.formatted hd head tail y,
              nextAvailableSlab_failed hnull hnull' (by decide) hrun, .of_slabs 0 s.fs _ _,
              Or.inr ⟨by decide, _, (ho.lostSlab hp hF hmarks hc).mono (fun h => hb h.2) id, fun _ h => absurd h hb⟩⟩

/-- **Creating an object** through pool 0: a new live object; or a failure, which leaves everything as it was when
memory is there, nothing has been lost before and every index fits an `int`, and then all slabs are full. -/
theorem objectCreate_owned (hg : VolOk v) (ho : Owned v tight sharp s L) (hp : s.fs.PoolLive 0) (env : Env) :
    ∃ err obj fs', flaBaseObjectCreate env s.fs 0 = .ok (err, obj, fs') ∧ SlabsOnly 0 s.fs fs' ∧
      ((err = 0 ∧ ∃ o L', obj = some o ∧ o.entryNdx < (s.fs.pools.entries 0).slabNobj ∧ (o, 0) ∉ s.live ∧
          Owned v tight sharp ⟨fs', (o, 0) :: s.live⟩ L') ∨
        (err ≠ 0 ∧ ∃ L', Owned v (tight ∧ env.bufAlloc) (sharp ∧ (s.fs.pools.entries 0).slabNobj ≤ 2 ^ 31)
            ⟨fs', s.live⟩ L' ∧
          (tight → sharp → env.bufAlloc → (s.fs.pools.entries 0).slabNobj ≤ 2 ^ 31 →
            fs' = s.fs ∧ ∀ q, q ≠ some .full → L q = []))) := by
  obtain ⟨err, x, fs₁, hrun, hsame, hcase⟩ := nextAvailableSlab_owned hg ho hp env
  unfold flaBaseObjectCreate
  rw [ho.dir.entryAt hp, ok_bind, hrun, ok_bind]
  dsimp only
  rcases hcase with ⟨rfl, k, L₁, hk, hx, ho₁⟩ | ⟨herr, L₁, ho₁, hfail⟩
  · rw [if_neg (by simp)]
    have hp₁ : fs₁.PoolLive 0 := (hsame.poolLive 0).2 hp
    obtain ⟨err, obj, fs', hrun', hsame', hcase'⟩ := objectCreateIn_owned hg ho₁ hp₁ hx env
    refine ⟨err, obj, fs', hrun', hsame.trans hsame', ?_⟩
    simp only [hsame.slabNobj] at hcase'
    rcases hcase' with ⟨herr, i, L', hobj, hi, hnew, ho'⟩ | ⟨herr, ho', hfull⟩
    · exact Or.inl ⟨herr, ⟨x, i⟩, L', hobj, hi, hnew, ho'⟩
    · exact Or.inr ⟨herr, L₁, ho'.mono And.left fun h => absurd (hfull h.1 h.2).1 hk,
        fun _ hs _ h31 => absurd (hfull hs h31).1 hk⟩
  · rw [if_pos herr]
    exact ⟨err, none, fs₁, rfl, hsame, Or.inr ⟨herr, L₁, ho₁.mono id And.left, fun ht _ hb _ => hfail ht hb⟩⟩

/-! ## Destroying an object -/

theorem Owned.freed (ho : Owned v tight sharp s L) {o : Obj} (hm : (o, 0) ∈ s.live) (hx : o.slabId ∈ L (some k))
    {buf : FlistBuf} {fl : Freelist} (hbuf : (s.fs.cache o.slabId).freelist = some buf)
    (hlen : fl.len = buf.flist.len) (hfl : ∀ j, fl.isFree j = (buf.flist.isFree j || decide (j = o.entryNdx))) :
    0 < (s.fs.header o.slabId).refcount ∧ Retaken s (s.live.erase (o, 0)) sharp o.slabId
      ⟨.dirty, some { buf with flist := fl }⟩ ((s.fs.header o.slabId).refcount - 1) := by
  have hs := ho.slab k _ hx
  obtain ⟨buf', hbuf', hlen', hok, htaken, hlive⟩ := hs.flist
  obtain rfl : buf' = buf := Option.some.inj (hbuf'.symm.trans hbuf)
  have hlt : o.entryNdx < (s.fs.pools.entries 0).slabNobj := (ho.live o 0 hm).2.1
  have hcount := liveIn_erase hm o.slabId
  rw [if_pos rfl, ← hs.refcount] at hcount
  have hmem : ∀ b : Obj × ℕ, b ∈ s.live.erase (o, 0) ↔ b ≠ (o, 0) ∧ b ∈ s.live := fun b => ho.nodup.mem_erase_iff
  refine ⟨by omega, ⟨rfl, ?_, rfl, by simp, _, rfl, hlen.trans hlen', free_ok hok (by rw [hlen']; exact hlt) hlen hfl,
    fun j hj hj' => ?_, fun ht j hj hf => ?_⟩, fun y hy => ⟨?_, fun j => ?_⟩, ho.nodup.erase _,
    fun b p hb => Or.inl ((hmem _).1 hb).2⟩
  · show (s.fs.header o.slabId).refcount - 1 = _
    omega
  · obtain ⟨hne, hl⟩ := (hmem _).1 hj'
    have : j ≠ o.entryNdx := fun h => hne (by rw [h])
    rw [hfl, htaken j hj hl]
    simp [this]
  · rw [hfl, Bool.or_eq_false_iff] at hf
    have hne : j ≠ o.entryNdx := by simpa using hf.2
    refine (hmem _).2 ⟨fun h => hne ?_, hlive ht j hj hf.1⟩
    rw [← (Prod.mk.inj h).1]
  · have := liveIn_erase hm y
    rw [if_neg (Ne.symm hy)] at this
    omega
  · rw [hmem]
    refine ⟨fun h => h.2, fun h => ⟨fun heq => hy ?_, h⟩⟩
    rw [← (Prod.mk.inj heq).1]

/-- **Destroying an object** of pool 0 succeeds, once the zones of the object are reset. -/
theorem objectDestroy_owned (hg : VolOk v) (ho : Owned v tight sharp s L) (hp : s.fs.PoolLive 0) {o : Obj}
    (hm : (o, 0) ∈ s.live) {env : Env} (hcs : csObjectDestroy env s.fs 0 o = .ok 0) :
    ∃ fs' L', flaBaseObjectDestroy env s.fs 0 o = .ok (0, fs') ∧ SlabsOnly 0 s.fs fs' ∧
      Owned v tight sharp ⟨fs', s.live.erase (o, 0)⟩ L' := by
  obtain ⟨-, hlt, k, hx⟩ := ho.live o 0 hm
  have hs := ho.slab k _ hx
  have hin := ho.inPool hg hp hx
  have hn := ho.nobj_lt hg
  obtain ⟨buf, hbuf, hlen, -, -, -⟩ := hs.flist
  obtain ⟨fl, hfree, hfllen, hfl⟩ := objFree_spec hin.cached hbuf (by rw [hlen]; exact hlt) (by omega)
  obtain ⟨hpos, hret⟩ := ho.freed hm hx hbuf hfllen hfl
  have hle := ho.liveIn_le o.slabId
  rw [← hs.refcount] at hle
  set c : CacheElem := ⟨.dirty, some { buf with flist := fl }⟩
  have hsub : (s.fs.setElem o.slabId c).subRefcount o.slabId 1 =
      s.fs.recount o.slabId c ((s.fs.header o.slabId).refcount - 1) := by
    rw [Flexalloc.recount, ← sub32_of_le (show 1 ≤ (s.fs.header o.slabId).refcount by omega) (by omega)]
    rfl
  obtain ⟨fs', L', hmove, hsame, ho'⟩ := ho.move hg hp id hx hret
  refine ⟨fs', L', ?_, hsame, ho'⟩
  have hdst : flaPoolBestSlabList ((s.fs.setElem o.slabId c).subRefcount o.slabId 1) o.slabId =
      .ok (0, kindOf (s.fs.pools.entries 0).slabNobj ((s.fs.header o.slabId).refcount - 1)) := by
    rw [hsub]
    exact recount_best ho hp hx _ _
  have hrun := objectDestroy_done hcs hin.range (ho.dir.entryAt hp) hin.best hin.fnc hfree hdst
  have hone : EntryFnc.dflt.numFlaObjs (s.fs.pools.entries 0) = 1 := rfl
  rw [hone, hsub, hmove] at hrun
  exact hrun

/-! ## Pools -/

theorem Owned.repool (ho : Owned v tight sharp s L) {p : Pools} (hdir : Dir { s.fs with pools := p })
    (he0 : p.entries 0 = s.fs.pools.entries 0) (hothers : ∀ i ≠ 0, ∀ k, (p.entries i).listHead k = flaLinkedListNull)
    (hnobj : ∀ i, (p.entries i).slabNobj ≠ 0 →
      flaCalcObjsInSlab s.fs.vol (p.entries i).objNlb = .ok (p.entries i).slabNobj)
    (halone : ¬ ({ s.fs with pools := p } : Flexalloc).PoolLive 0 → ∀ k, L (some k) = []) :
    Owned v tight sharp ⟨{ s.fs with pools := p }, s.live⟩ L := by
  refine ⟨ho.vol, hdir, ?_, hothers, ho.cover, ho.num, ho.free, ho.pool, ?_, ho.nodup, ?_, hnobj, halone⟩
  · simp only [he0]; exact ho.chains
  · simp only [he0]; exact ho.slab
  · simp only [he0]; exact ho.live

theorem Owned.live_nil (ho : Owned v tight sharp s L) (h : ∀ k, L (some k) = []) : s.live = [] := by
  rw [List.eq_nil_iff_forall_not_mem]
  rintro ⟨o, p⟩ hop
  obtain ⟨-, -, q, hq⟩ := ho.live o p hop
  rw [h] at hq
  cases hq

/-- a new entry holds as many objects in a slab as its object size calls for, and so do the others -/
theorem Owned.nobj_created (ho : Owned v tight sharp s L) {fs' : Flexalloc} {arg : PoolCreateArg} {k : ℕ} {e : PoolEntry}
    (hc : Created s.fs fs' arg k e) (i : ℕ) (hi : (fs'.pools.entries i).slabNobj ≠ 0) :
    flaCalcObjsInSlab s.fs.vol (fs'.pools.entries i).objNlb = .ok (fs'.pools.entries i).slabNobj := by
  rw [hc.entries] at hi ⊢
  by_cases hik : i = k
  · rw [hik, update_self, hc.objNlb]
    exact hc.nobj
  · rw [update_of_ne hik] at hi ⊢
    exact ho.nobj i hi

/-- the entry of pool 0 is set up while it has no slabs -/
theorem Owned.setup (ho : Owned v tight sharp s L) {p : Pools} {arg : PoolCreateArg} {e : PoolEntry}
    (hdir : Dir { s.fs with pools := p }) (hc : Created s.fs { s.fs with pools := p } arg 0 e) :
    Owned v tight sharp ⟨{ s.fs with pools := p }, s.live⟩ L := by
  have hnone := ho.alone hc.fresh
  have he : p.entries = update s.fs.pools.entries 0 e := hc.entries
  have he0 : p.entries 0 = e := by rw [he, update_self]
  have hheads : (p.entries 0).listHead = (s.fs.pools.entries 0).listHead := by
    funext q
    have hold := (ho.chains.linked q).head_eq
    rw [hnone] at hold
    rw [hold, he0, PoolEntry.listHead, if_neg hc.nobj_pos, hc.heads]
    rfl
  refine ⟨ho.vol, hdir, ?_, fun i hi q => ?_, ho.cover, ho.num, ho.free, ho.pool, fun q x hx => ?_, ho.nodup, fun o p hop => ?_,
    ho.nobj_created hc, fun h => absurd ((hc.live 0).2 (Or.inl rfl)) h⟩
  · simp only [hheads]
    exact ho.chains
  · simp only [he, update_of_ne hi]
    exact ho.others i hi q
  · rw [hnone] at hx; cases hx
  · simp only [ho.live_nil hnone] at hop; cases hop

/-- **Creating a pool** keeps the slabs of pool 0. -/
theorem poolCreate_owned (hg : VolOk v) (ho : Owned v tight sharp s L) {env : Env} {arg : PoolCreateArg} {err : ℤ}
    {h : Option PoolHandle} {fs' : Flexalloc} (hrun : flaBasePoolCreate env s.fs arg = .ok (err, h, fs')) :
    SameDevs s.fs fs' ∧ Owned v tight sharp ⟨fs', s.live⟩ L := by
  have hnp : s.fs.npools ≤ 2 ^ 31 := by
    rw [ho.npools]
    exact (hg.npools_le.trans hg.nslabs_le).trans (by decide)
  obtain ⟨⟨p, rfl⟩, hdir, hcase⟩ := poolCreate_cases ho.dir hnp hrun
  refine ⟨⟨rfl, rfl⟩, ?_⟩
  rcases hcase with ⟨hent, hlive⟩ | ⟨-, k, e, hc⟩
  · have hent' : p.entries = s.fs.pools.entries := hent
    exact ho.repool hdir (by rw [hent']) (fun i hi k => by rw [hent']; exact ho.others i hi k)
      (by rw [hent']; exact ho.nobj) fun h => ho.alone fun h' => h ((hlive 0).2 h')
  · by_cases hk : k = 0
    · subst hk
      exact ho.setup hdir hc
    · have h0 : (0 : ℕ) ≠ k := fun h => hk h.symm
      have he : p.entries = update s.fs.pools.entries k e := hc.entries
      refine ho.repool hdir (by rw [he, update_of_ne h0]) (fun i hi q => ?_) (ho.nobj_created hc)
        fun h => ho.alone fun h' => h ((hc.live 0).2 (Or.inr h'))
      by_cases hik : i = k
      · rw [he, hik, update_self, PoolEntry.listHead, if_neg hc.nobj_pos, hc.heads]
      · rw [he, update_of_ne hik]
        exact ho.others i hi q

/-- slabs in the empty list have no objects, slabs in the other two have some -/
theorem Owned.refcount_zero (ho : Owned v tight sharp s L) (hx : x ∈ L (some k)) :
    (s.fs.header x).refcount = 0 ↔ k = .empty := by
  have hk := (ho.slab k x hx).kind
  unfold kindOf at hk
  constructor
  · intro h
    rw [hk, if_pos h]
  · intro h
    by_contra hne
    rw [if_neg hne] at hk
    subst hk
    split_ifs at h

theorem Owned.all_empty (ho : Owned v tight sharp s L) (h : s.live = []) (k : SlabKind) (hx : x ∈ L (some k)) :
    (s.fs.header x).refcount = 0 := by
  rw [(ho.slab k x hx).refcount, h]
  rfl

theorem Owned.cleared (ho : Owned v tight sharp s L) (hp : s.fs.PoolLive 0) (hlive : s.live = []) {fs' : Flexalloc}
    (hcl : Cleared s.fs fs' 0 L L') (hL' : ∀ k, L' (some k) = []) : Owned v tight sharp ⟨fs', s.live⟩ L' := by
  have hused := ho.dir.used 0 hp
  have hsame := hcl.same
  refine ⟨hsame.vol.trans ho.vol, hsame.dir ho.dir, ?_, fun i hi q => ?_, fun ht x hx => ?_, fun ht => hcl.num (ho.num ht),
    fun x hx => ?_, fun x => (hcl.marks x).1.trans (ho.pool x), fun k x hx => ?_, ho.nodup, fun o p hop => ?_, fun i hi => ?_,
    fun h => absurd ((hsame.poolLive 0).2 hp) h⟩
  · have : (fs'.pools.entries 0).listHead = (fs'.pools.entries 0).head := by
      funext q
      exact if_neg (by rw [hsame.slabNobj]; exact hused)
    rw [this, ← ho.nslabs]
    exact hcl.chains
  · simp only
    rw [hsame.entries_ne hi]
    exact ho.others i hi q
  · exact (hcl.all x).2 (ho.cover ht x hx)
  · by_cases hF : x ∈ L none
    · simp only [hcl.cached x (Or.inl hF)]
      exact ho.free_stale hF
    by_cases hF' : x ∈ L' none
    · simp only [hcl.dropped x hF' hF]
    · simp only [hcl.cached x (Or.inr hF')]
      refine ho.free x fun k hk => ?_
      obtain ⟨q, hq⟩ := (hcl.all x).2 ⟨some k, hk⟩
      cases q with
      | none => exact hF' hq
      | some q => exact hx q hq
  · rw [hL'] at hx; cases hx
  · simp only [hlive] at hop; cases hop
  · simp only [hsame.vol, hsame.slabNobj, hsame.objNlb] at hi ⊢
    exact ho.nobj i hi

/-- the slabs of pool 0 are not given back while it has an object, but its lists have been touched -/
theorem Owned.releaseAll_refused (hg : VolOk v) (ho : Owned v tight sharp s L) (hp : s.fs.PoolLive 0)
    (hlive : s.live ≠ []) : ∃ fs', flaPoolReleaseAllSlabs s.fs 0 = (1, fs') ∧ fs' ≠ s.fs := by
  have hchains := ho.chains
  rw [ho.listHead hp, ← ho.nslabs] at hchains
  have hn : s.fs.nslabs ≤ flaLinkedListNull := ho.nslabs.trans_le hg.nslabs_le
  obtain ⟨⟨o, p⟩, hop⟩ := List.exists_mem_of_ne_nil _ hlive
  obtain ⟨-, -, q, hq⟩ := ho.live o p hop
  -- the slab of a live object is not in the empty list
  have hpos : (s.fs.header o.slabId).refcount ≠ 0 := by
    rw [(ho.slab q _ hq).refcount, liveIn]
    intro hzero
    exact List.countP_eq_zero.1 hzero (o, p) hop (by simp)
  have hne : L (some .full) ≠ [] ∨ L (some .part) ≠ [] := by
    cases q with
    | empty => exact absurd ((ho.refcount_zero hq).2 rfl) hpos
    | full => exact Or.inl (List.ne_nil_of_mem hq)
    | part => exact Or.inr (List.ne_nil_of_mem hq)
  exact FlexAlloc.releaseAll_refused hn hchains (fun y hy => (ho.refcount_zero hy).2 rfl)
    (fun y hy h => absurd ((ho.refcount_zero hy).1 h) (by decide))
    (fun y hy h => absurd ((ho.refcount_zero hy).1 h) (by decide)) hne

/-- **Destroying a pool.** A handle that is refused changes nothing. A pool without objects is destroyed, and its slabs
are free again; a pool with objects is refused after its lists have been touched. -/
theorem poolDestroy_owned (hg : VolOk v) (ho : Owned v tight sharp s L) {handle : PoolHandle} {err : ℤ} {fs' : Flexalloc}
    (hrun : flaBasePoolDestroy s.fs handle = .ok (err, fs')) :
    (poolDestroyCheck s.fs handle ≠ .ok 0 ∧ err ≠ 0 ∧ fs' = s.fs) ∨
      (poolDestroyCheck s.fs handle = .ok 0 ∧ (handle.ndx = 0 → s.live = []) ∧ err = 0 ∧
        (∀ i, fs'.PoolLive i ↔ s.fs.PoolLive i ∧ i ≠ handle.ndx) ∧ SameDevs s.fs fs' ∧
        ∃ L', Owned v tight sharp ⟨fs', s.live⟩ L') ∨
      (poolDestroyCheck s.fs handle = .ok 0 ∧ handle.ndx = 0 ∧ s.live ≠ [] ∧ err ≠ 0 ∧ fs' ≠ s.fs) := by
  have hnp : s.fs.npools < 2 ^ 32 := by
    rw [ho.npools]
    exact (hg.npools_le.trans hg.nslabs_le).trans_lt (by decide)
  -- giving the index back, from any state in which the pool has no slabs
  have hforget : ∀ {s₁ : Sys} {L₁}, Owned v tight sharp s₁ L₁ → s₁.fs.npools = s.fs.npools → handle.ndx < s.fs.npools →
      (handle.ndx = 0 → ∀ k, L₁ (some k) = []) → poolForget s₁.fs handle.ndx = .ok (err, fs') →
      err = 0 ∧ (∀ i, fs'.PoolLive i ↔ s₁.fs.PoolLive i ∧ i ≠ handle.ndx) ∧ SameDevs s₁.fs fs' ∧
        Owned v tight sharp ⟨fs', s₁.live⟩ L₁ := by
    intro s₁ L₁ ho₁ hnp₁ hlt hempty hf
    obtain ⟨herr, ⟨p, rfl⟩, hdir, hent, hlive⟩ := poolForget_spec ho₁.dir (by rw [hnp₁]; exact hnp)
      (by rw [hnp₁]; exact hlt) hf
    have hent' : p.entries = s₁.fs.pools.entries := hent
    refine ⟨herr, hlive, ⟨rfl, rfl⟩, ho₁.repool hdir (by rw [hent']) (fun i hi k => by rw [hent']; exact ho₁.others i hi k)
      (by rw [hent']; exact ho₁.nobj) fun h k => ?_⟩
    by_cases h0 : handle.ndx = 0
    · exact hempty h0 k
    · exact ho₁.alone (fun h' => h ((hlive 0).2 ⟨h', fun h => h0 h.symm⟩)) k
  rcases poolDestroy_cases hrun with href | ⟨hcheck, hrel⟩
  · exact Or.inl href
  obtain ⟨hlt, hused⟩ := poolDestroyCheck_used ho.dir hcheck
  by_cases h0 : handle.ndx = 0
  · by_cases hp : s.fs.PoolLive 0
    · have hchains := ho.chains
      rw [ho.listHead hp, ← ho.nslabs] at hchains
      have hn : s.fs.nslabs ≤ flaLinkedListNull := ho.nslabs.trans_le hg.nslabs_le
      by_cases hlive : s.live = []
      · obtain ⟨fs₁, L₁, hrun₁, hcl, hL₁⟩ := releaseAll_spec hn hchains fun k y hy => ho.all_empty hlive k hy
        have ho₁ := ho.cleared hp hlive hcl hL₁
        rw [h0, hrun₁, if_neg (by simp)] at hrel
        obtain ⟨herr, hlv, ⟨hdev, hmd⟩, ho'⟩ := hforget ho₁ (by rw [Flexalloc.npools, hcl.same.vol]) hlt (fun _ => hL₁)
          (h0 ▸ hrel)
        have hdevs := hcl.same.devs
        refine Or.inr (Or.inl ⟨hcheck, fun _ => hlive, herr, fun i => ?_, ⟨hdev.trans hdevs.1, hmd.trans hdevs.2⟩, L₁,
          ho'⟩)
        rw [hlv, hcl.same.poolLive]
      · obtain ⟨fs₁, hrun₁, hchanged⟩ := ho.releaseAll_refused hg hp hlive
        rw [h0, hrun₁, if_pos (show (1 : ℤ) ≠ 0 by decide)] at hrel
        obtain ⟨rfl, rfl⟩ := Prod.mk.inj hrel
        exact Or.inr (Or.inr ⟨hcheck, h0, hlive, by decide, hchanged⟩)
    · -- the entry is not in use: its lists are empty
      have hnone := ho.alone hp
      have hheads : ∀ k, (s.fs.pools.entries handle.ndx).head k = flaLinkedListNull := fun k => by
        have := (ho.chains.linked k).head_eq
        rw [hnone, PoolEntry.listHead, if_neg (h0 ▸ hused)] at this
        rw [h0]
        exact this
      rw [releaseAll_null hheads, if_neg (by simp)] at hrel
      obtain ⟨herr, hlv, hdevs, ho'⟩ := hforget ho rfl hlt (fun _ => hnone) hrel
      exact Or.inr (Or.inl ⟨hcheck, fun _ => ho.live_nil hnone, herr, hlv, hdevs, L, ho'⟩)
  · have hheads : ∀ k, (s.fs.pools.entries handle.ndx).head k = flaLinkedListNull := fun k => by
      have := ho.others handle.ndx h0 k
      rwa [PoolEntry.listHead, if_neg hused] at this
    rw [releaseAll_null hheads, if_neg (by simp)] at hrel
    obtain ⟨herr, hlv, hdevs, ho'⟩ := hforget ho rfl hlt (fun h => absurd h h0) hrel
    exact Or.inr (Or.inl ⟨hcheck, fun h => absurd h h0, herr, hlv, hdevs, L, ho'⟩)

end Step

end FlexAlloc
