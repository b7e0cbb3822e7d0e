/-
Do objects of different pools overlap?

`fla_format_slab` gives every slab to pool 0, so the lists of the pools get mixed up: a slab acquired for one pool also
turns up in the lists of pool 0, and objects of two pools come to lie in one slab. Their entries are still distinct, for
the freelist of a slab is the same whatever list it is found in. Whether their blocks are distinct depends on the object
sizes.

- `no_overlap`: in every run in which a pool takes entries only of slabs laid out for its object size (`Suits`), no two
  live objects overlap, whatever pools they come from.
- `pools_overlap`: two pools with objects of one and of two blocks.
-/
import FlexAlloc.CacheCoherence
import FlexAlloc.Links
import FlexAlloc.Ownership

namespace FlexAlloc

open FlexAlloc.Core Function

/-- the blocks of a live object, with the size of its own pool -/
def Sys.range (s : Sys) (o : Obj × ℕ) : Set ℕ := objRange s.fs.vol (s.fs.pools.entries o.2).objNlb o.1

/-- no two live objects share a block -/
def NoOverlap (s : Sys) : Prop := s.live.Pairwise fun a b => Disjoint (s.range a) (s.range b)

/-- the slab at hand for an object of pool `ndx`: the first of its partial list, or else of its empty list -/
def Flexalloc.atHand (fs : Flexalloc) (ndx : ℕ) : Option ℕ :=
  if (fs.pools.entries ndx).partialSlabs ≠ flaLinkedListNull then some (fs.pools.entries ndx).partialSlabs
  else if (fs.pools.entries ndx).emptySlabs ≠ flaLinkedListNull then some (fs.pools.entries ndx).emptySlabs
  else none

/-- slab `x` is laid out for the objects of pool `ndx`: its freelist has as many entries, and the objects in it have the
same size -/
def Suits (s : Sys) (ndx x : ℕ) : Prop :=
  (∀ buf ∈ (s.fs.cache x).freelist, buf.flist.len = (s.fs.pools.entries ndx).slabNobj) ∧
    ∀ o ∈ s.live, o.1.slabId = x → (s.fs.pools.entries o.2).objNlb = (s.fs.pools.entries ndx).objNlb

instance (s : Sys) (ndx x : ℕ) : Decidable (Suits s ndx x) := inferInstanceAs (Decidable (_ ∧ _))

def PoolsStay : Op → Prop
  | .poolDestroy _ => False
  | _ => True

instance : (op : Op) → Decidable (PoolsStay op)
  | .poolDestroy _ => inferInstanceAs (Decidable False)
  | .poolCreate _ | .objectCreate _ | .objectDestroy _ _ => inferInstanceAs (Decidable True)

/-- no pool is destroyed, and the slab at hand for a new object suits its pool -/
def Suited (s : Sys) (op : Op) : Prop :=
  PoolsStay op ∧ ∀ ndx, op = .objectCreate ndx → ∀ x ∈ s.fs.atHand ndx, Suits s ndx x

instance (s : Sys) : (op : Op) → Decidable (Suited s op)
  | .objectCreate ndx => decidable_of_iff (∀ x ∈ s.fs.atHand ndx, Suits s ndx x)
      ⟨fun h => ⟨trivial, fun _ he => Op.objectCreate.inj he ▸ h⟩, fun h => h.2 ndx rfl⟩
  | .poolDestroy _ => isFalse fun h => h.1
  | .poolCreate _ => isTrue ⟨trivial, fun _ he => by cases he⟩
  | .objectDestroy _ _ => isTrue ⟨trivial, fun _ he => by cases he⟩

/-! ## The invariant -/

/-- the free queue is `F`; `A` are the slabs in use, whose links stay among them; the live objects are reserved entries
of slabs in use, and those of one slab have one size -/
structure Mixed (geo : Geo) (s : Sys) (F : List ℕ) (A : Set ℕ) : Prop where
  vol : s.fs.vol = .single geo
  dir : Dir s.fs
  first : ∀ i, s.fs.PoolLive i → s.fs.PoolLive 0
  nobj : ∀ i, (s.fs.pools.entries i).slabNobj ≠ 0 →
    flaCalcObjsInSlab s.fs.vol (s.fs.pools.entries i).objNlb = .ok (s.fs.pools.entries i).slabNobj
  queue : Queue s.fs.slabs.headers s.fs.slabs.fslabHead s.fs.slabs.fslabTail F
  nodupF : F.Nodup
  free : ∀ x ∈ F, x < geo.nslabs ∧ x ∉ A
  closed : Closed A s.fs.slabs.headers
  heads : ∀ i k, LinkTo A ((s.fs.pools.entries i).listHead k)
  pool : ∀ x, (s.fs.header x).pool = 0
  used : ∀ x ∈ A, x < geo.nslabs ∧ (s.fs.cache x).state ≠ .stale ∧
    ∃ buf, (s.fs.cache x).freelist = some buf ∧ buf.flist.Ok
  nodup : (s.live.map (·.1)).Nodup
  live : ∀ o p, (o, p) ∈ s.live → s.fs.PoolLive p ∧ o.slabId ∈ A ∧ o.entryNdx < (s.fs.pools.entries p).slabNobj ∧
    ∀ buf ∈ (s.fs.cache o.slabId).freelist,
      buf.flist.len = (s.fs.pools.entries p).slabNobj ∧ buf.flist.isFree o.entryNdx = false
  same : ∀ a ∈ s.live, ∀ b ∈ s.live, a.1.slabId = b.1.slabId →
    (s.fs.pools.entries a.2).objNlb = (s.fs.pools.entries b.2).objNlb

section Inv

variable {geo : Geo} {s : Sys} {F : List ℕ} {A : Set ℕ}

/-- **No overlap.** An object lies in its slab, at a multiple of the size of the objects in it. -/
theorem Mixed.noOverlap (hm : Mixed geo s F A) (hwrap : geo.nslabs * geo.slabNlb < 2 ^ 32) : NoOverlap s := by
  have hplace : ∀ a ∈ s.live, a.1.slabId < geo.nslabs ∧ ∃ n,
      flaCalcObjsInSlab (.single geo) (s.fs.pools.entries a.2).objNlb = .ok n ∧ a.1.entryNdx < n := fun a ha => by
    obtain ⟨hp, hx, hlt, -⟩ := hm.live a.1 a.2 ha
    exact ⟨(hm.used _ hx).1, _, hm.vol ▸ hm.nobj a.2 (hm.dir.used _ hp), hlt⟩
  have hslab : ∀ x y, x ≠ y → x * geo.slabNlb + geo.slabNlb ≤ y * geo.slabNlb ∨
      y * geo.slabNlb + geo.slabNlb ≤ x * geo.slabNlb := fun x y hxy =>
    (Nat.lt_or_gt_of_ne hxy).imp mul_add_le_mul mul_add_le_mul
  have hne := List.pairwise_map.1 hm.nodup
  refine hne.imp_of_mem fun {a b} ha hb hab => ?_
  obtain ⟨hxa, n, hna, hea⟩ := hplace a ha
  obtain ⟨hxb, m, hmb, heb⟩ := hplace b hb
  obtain ⟨hsa, hta, hra⟩ := obj_slot hwrap hna hxa hea
  obtain ⟨hsb, htb, hrb⟩ := obj_slot hwrap hmb hxb heb
  refine Ico_disjoint_of_le ?_
  rw [hm.vol, hsa, hta, hsb, htb]
  by_cases hx : a.1.slabId = b.1.slabId
  · -- two entries of one slab
    have hsize := hm.same a ha b hb hx
    have hent : a.1.entryNdx ≠ b.1.entryNdx := fun he => hab (by
      cases hoa : a.1
      cases hob : b.1
      simp_all)
    rw [hx, hsize]
    rcases Nat.lt_or_gt_of_ne hent with hlt | hgt
    · have := mul_add_le_mul (k := (s.fs.pools.entries b.2).objNlb) hlt
      omega
    · have := mul_add_le_mul (k := (s.fs.pools.entries b.2).objNlb) hgt
      omega
  · have := hslab _ _ hx
    omega

theorem Mixed.head (hm : Mixed geo s F A) {i : ℕ} (hp : s.fs.PoolLive i) (k : SlabKind) :
    LinkTo A ((s.fs.pools.entries i).head k) := by
  have hk := hm.heads i k
  rwa [PoolEntry.listHead, if_neg (hm.dir.used i hp)] at hk

theorem Mixed.nobj_lt (hg : VolOk (.single geo)) (hm : Mixed geo s F A) {i : ℕ} (hp : s.fs.PoolLive i) :
    (s.fs.pools.entries i).slabNobj < 2 ^ 32 := by
  have hcalc := hm.nobj i (hm.dir.used i hp)
  rw [hm.vol] at hcalc
  exact (calcObjs_le hcalc).trans_lt hg.slabNlb_lt

/-- **Slabs change hands**, the live objects staying where they are. -/
theorem Mixed.regroup (hm : Mixed geo s F A) {fs' : Flexalloc} {ndx : ℕ} {F' : List ℕ} {A' : Set ℕ}
    (hsame : SlabsOnly ndx s.fs fs') (hqueue : Queue fs'.slabs.headers fs'.slabs.fslabHead fs'.slabs.fslabTail F')
    (hnd : F'.Nodup) (hfree : ∀ x ∈ F', x < geo.nslabs ∧ x ∉ A') (hclosed : Closed A' fs'.slabs.headers)
    (hheads : ∀ i k, LinkTo A' ((fs'.pools.entries i).listHead k)) (hpool : ∀ x, (fs'.header x).pool = 0)
    (hused : ∀ x ∈ A', x < geo.nslabs ∧ (fs'.cache x).state ≠ .stale ∧
      ∃ buf, (fs'.cache x).freelist = some buf ∧ buf.flist.Ok)
    (hkeep : ∀ x ∈ A, x ∈ A' ∧ fs'.cache x = s.fs.cache x) : Mixed geo ⟨fs', s.live⟩ F' A' := by
  refine ⟨hsame.vol.trans hm.vol, hsame.dir hm.dir, fun i hi => ?_, fun i hi => ?_, hqueue, hnd, hfree, hclosed, hheads,
    hpool, hused, hm.nodup, fun o p hop => ?_, fun a ha b hb hab => ?_⟩
  · exact (hsame.poolLive 0).2 (hm.first i ((hsame.poolLive i).1 hi))
  · simp only [hsame.vol, hsame.slabNobj, hsame.objNlb] at hi ⊢
    exact hm.nobj i hi
  · obtain ⟨hp, hx, hlt, hbuf⟩ := hm.live o p hop
    obtain ⟨hx', hc⟩ := hkeep _ hx
    simp only [hsame.slabNobj, hc]
    exact ⟨(hsame.poolLive p).2 hp, hx', hlt, hbuf⟩
  · simp only [hsame.objNlb]
    exact hm.same a ha b hb hab

end Inv

/-! ## The entries of a slab in use -/

/-- slab `x` got cache element `c`, and only links of slabs of `A` and the list heads of pool 0 may have changed -/
structure Touched (A : Set ℕ) (fs fs' : Flexalloc) (x : ℕ) (c : CacheElem) : Prop where
  same : SlabsOnly 0 fs fs'
  ends : fs'.slabs.fslabHead = fs.slabs.fslabHead ∧ fs'.slabs.fslabTail = fs.slabs.fslabTail
  off : ∀ y ∉ A, fs'.slabs.headers y = fs.slabs.headers y
  closed : Closed A fs'.slabs.headers
  pool : ∀ y, (fs'.header y).pool = (fs.header y).pool
  heads : ∀ k, LinkTo A ((fs'.pools.entries 0).head k)
  cache : fs'.cache = update fs.cache x c

section Touch

variable {geo : Geo} {s : Sys} {F : List ℕ} {A : Set ℕ} {x : ℕ}

theorem Queue.of_same {hd hd' : ℕ → SlabHeader} {head tail : ℕ} {l : List ℕ} (hq : Queue hd head tail l)
    (h : ∀ x ∈ l, hd' x = hd x) : Queue hd' head tail l := by
  obtain ⟨p, hp⟩ := hq.linked
  exact ⟨⟨p, Seg.congr hp (fun x hx => by rw [h x hx]) fun x hx => by rw [h x hx]⟩, hq.tail_eq⟩

theorem Mixed.recounted (hm : Mixed geo s F A) (hp : s.fs.PoolLive 0) (hx : x ∈ A) (c : CacheElem) (r : ℕ) :
    Touched A s.fs (s.fs.recount x c r) x c := by
  refine ⟨recount_slabsOnly s.fs x c r, ⟨rfl, rfl⟩, fun y hy => ?_, fun y hy => ?_, fun y => ?_, fun k => hm.head hp k, rfl⟩
  · have hyx : y ≠ x := fun h => hy (h ▸ hx)
    show (s.fs.recount x c r).header y = s.fs.header y
    exact recount_header_ne hyx
  · show LinkTo A ((s.fs.recount x c r).header y).prev ∧ LinkTo A ((s.fs.recount x c r).header y).next
    by_cases hyx : y = x
    · subst hyx
      rw [recount_header]
      exact hm.closed y hy
    · rw [recount_header_ne hyx]
      exact hm.closed y hy
  · by_cases hyx : y = x
    · rw [hyx, recount_header]
    · rw [recount_header_ne hyx]

theorem Mixed.relisted (hm : Mixed geo s F A) (hg : VolOk (.single geo)) (hp : s.fs.PoolLive 0) (hx : x ∈ A)
    (c : CacheElem) (r : ℕ) (k k' : SlabKind) :
    ∃ fs', moveSlab (s.fs.recount x c r) x (0, k) (0, k') = (0, fs') ∧ Touched A s.fs fs' x c := by
  have ht := hm.recounted hp hx c r
  have hnslabs : (s.fs.recount x c r).nslabs = geo.nslabs := by
    rw [Flexalloc.nslabs, ht.same.vol, hm.vol]
    rfl
  have hn : (s.fs.recount x c r).nslabs ≤ flaLinkedListNull := hnslabs.trans_le hg.nslabs_le
  obtain ⟨e, hd, hmove, hrest, hheads, hr⟩ := moveSlab_rewired hn (fun y hy => hnslabs ▸ (hm.used y hy).1) ht.closed
    ht.heads hx k k'
  refine ⟨_, hmove, ht.same.trans (.withLists hrest hd), ht.ends, fun y hy => (hr.off y hy).trans (ht.off y hy), hr.closed,
    fun y => ((hr.marks y).1).trans (ht.pool y), fun q => ?_, ht.cache⟩
  have hent : (((s.fs.recount x c r).withLists 0 e hd).pools.entries 0) = e := by
    simp [Flexalloc.withLists, Flexalloc.setEntry]
  rw [hent]
  exact hheads q

/-- **The objects of one slab change**: those that stay were live, and a new one has the size of the others. -/
theorem Mixed.retake (hm : Mixed geo s F A) (hx : x ∈ A) {fs' : Flexalloc} {st : ElemState}
    {buf buf' : FlistBuf} (ht : Touched A s.fs fs' x ⟨st, some buf'⟩) (hst : st ≠ .stale)
    (hbuf : (s.fs.cache x).freelist = some buf) (hlen : buf'.flist.len = buf.flist.len) (hok : buf'.flist.Ok)
    {live' : List (Obj × ℕ)} (new : Option (Obj × ℕ)) (hnd : (live'.map (·.1)).Nodup)
    (hlive : ∀ a ∈ live', a ∈ s.live ∨ new = some a)
    (hnew : ∀ a ∈ new, s.fs.PoolLive a.2 ∧ a.1.slabId = x ∧ a.1.entryNdx < (s.fs.pools.entries a.2).slabNobj ∧
      Suits s a.2 x)
    (htaken : ∀ a ∈ live', a.1.slabId = x → buf'.flist.isFree a.1.entryNdx = false) : Mixed geo ⟨fs', live'⟩ F A := by
  have hsame := ht.same
  refine ⟨hsame.vol.trans hm.vol, hsame.dir hm.dir, fun i hi => ?_, fun i hi => ?_, ?_, hm.nodupF, hm.free, ht.closed,
    fun i k => ?_, fun y => (ht.pool y).trans (hm.pool y), fun y hy => ?_, hnd, fun o p hop => ?_, fun a ha b hb hab => ?_⟩
  · exact (hsame.poolLive 0).2 (hm.first i ((hsame.poolLive i).1 hi))
  · simp only [hsame.vol, hsame.slabNobj, hsame.objNlb] at hi ⊢
    exact hm.nobj i hi
  · simp only [ht.ends.1, ht.ends.2]
    exact hm.queue.of_same fun y hy => ht.off y (hm.free y hy).2
  · by_cases hi : i = 0
    · subst hi
      simp only [PoolEntry.listHead]
      split_ifs
      · exact linkTo_null A
      · exact ht.heads k
    · simp only [hsame.entries_ne hi]
      exact hm.heads i k
  · simp only [ht.cache]
    by_cases hyx : y = x
    · rw [hyx, update_self]
      exact ⟨(hm.used x hx).1, hst, buf', rfl, hok⟩
    · rw [update_of_ne hyx]
      exact hm.used y hy
  · -- an object that stays, or the new one
    have hbase : s.fs.PoolLive p ∧ o.slabId ∈ A ∧ o.entryNdx < (s.fs.pools.entries p).slabNobj ∧
        ∀ b ∈ (s.fs.cache o.slabId).freelist, b.flist.len = (s.fs.pools.entries p).slabNobj := by
      rcases hlive _ hop with h | h
      · obtain ⟨h1, h2, h3, h4⟩ := hm.live o p h
        exact ⟨h1, h2, h3, fun b hb => (h4 b hb).1⟩
      · obtain ⟨h1, h2, h3, h4⟩ := hnew _ h
        exact ⟨h1, h2.symm ▸ hx, h3, h2.symm ▸ h4.1⟩
    obtain ⟨h1, h2, h3, h4⟩ := hbase
    simp only [hsame.slabNobj, ht.cache]
    refine ⟨(hsame.poolLive p).2 h1, h2, h3, fun b hb => ?_⟩
    by_cases hox : o.slabId = x
    · rw [hox, update_self] at hb
      obtain rfl : buf' = b := Option.some.inj hb
      exact ⟨hlen.trans (h4 buf (hox ▸ hbuf)), htaken _ hop hox⟩
    · rw [update_of_ne hox] at hb
      rcases hlive _ hop with h | h
      · exact (hm.live o p h).2.2.2 b hb
      · exact absurd (hnew _ h).2.1 hox
  · simp only [hsame.objNlb]
    rcases hlive a ha with h | h <;> rcases hlive b hb with h' | h'
    · exact hm.same a h b h' hab
    · obtain ⟨-, hbx, -, hsuit⟩ := hnew b h'
      exact hsuit.2 a h (hab.trans hbx)
    · obtain ⟨-, hax, -, hsuit⟩ := hnew a h
      exact (hsuit.2 b h' (hab.symm.trans hax)).symm
    · obtain rfl : a = b := Option.some.inj (h.symm.trans h')
      rfl

theorem Mixed.inPool (hm : Mixed geo s F A) (hg : VolOk (.single geo)) (hp : s.fs.PoolLive 0) (hx : x ∈ A) :
    InPool s.fs x (kindOf (s.fs.pools.entries 0).slabNobj (s.fs.header x).refcount) := by
  obtain ⟨hlt, hst, -⟩ := hm.used x hx
  have hnslabs : s.fs.nslabs = geo.nslabs := by
    rw [Flexalloc.nslabs, hm.vol]
    rfl
  refine ⟨?_, hst, bestSlabList_eq (hm.pool x) (hm.dir.entryAt hp) (hm.dir.fncAt hp), ?_, ?_⟩
  · rw [hnslabs]
    exact rangeCheck_of_lt (nslabs_lt hg.nslabs_le) hlt
  · rw [hm.pool]
    exact hm.dir.entryAt hp
  · rw [hm.pool]
    exact hm.dir.fncAt hp

theorem Touched.best (hm : Mixed geo s F A) (hp : s.fs.PoolLive 0) (c : CacheElem) (r : ℕ) :
    flaPoolBestSlabList (s.fs.recount x c r) x = .ok (0, kindOf (s.fs.pools.entries 0).slabNobj r) := by
  have hpool : ((s.fs.recount x c r).header x).pool = 0 := by
    rw [recount_header]
    exact hm.pool x
  have hent : (s.fs.recount x c r).entryAt 0 = .ok (s.fs.pools.entries 0) := hm.dir.entryAt hp
  have hfnc : (s.fs.recount x c r).fncAt 0 = .ok .dflt := hm.dir.fncAt hp
  rw [bestSlabList_eq hpool hent hfnc, recount_header]

/-- **Taking an entry** of a slab in use that suits the pool: a new object, or an error. -/
theorem Mixed.createIn (hm : Mixed geo s F A) (hg : VolOk (.single geo)) {ndx : ℕ} (hp : s.fs.PoolLive ndx)
    (hx : x ∈ A) (hsuit : Suits s ndx x) (env : Env) :
    ∃ err obj fs', objectCreateIn env s.fs ndx x = .ok (err, obj, fs') ∧
      Mixed geo ⟨fs', if err = 0 then obj.toList.map (·, ndx) ++ s.live else s.live⟩ F A := by
  have hp0 := hm.first ndx hp
  have hin := hm.inPool hg hp0 hx
  obtain ⟨-, hst, buf, hbuf, hok⟩ := hm.used x hx
  cases htake : takeEntry buf.flist with
  | none =>
    have halloc := objAlloc_none hst hbuf htake
    exact ⟨1, none, s.fs, objectCreateIn_failed hin.range hst hin.best hin.fnc (by decide)
      (nextAvailableObj_failed hin.range (by decide) halloc), hm⟩
  | some r =>
    obtain ⟨i, fl⟩ := r
    obtain ⟨hfree, -, hlen, hfl⟩ := takeEntry_some htake
    have hlt : i < buf.flist.len := takeEntry_lt hok htake
    have hsize : buf.flist.len = (s.fs.pools.entries ndx).slabNobj := hsuit.1 buf hbuf
    have hok' : fl.Ok := takeEntry_ok hok htake
    have hkept : ∀ a ∈ s.live, a.1.slabId = x → fl.isFree a.1.entryNdx = false := fun a ha hax => by
      obtain ⟨-, -, -, htaken⟩ := hm.live a.1 a.2 ha
      rw [hfl, (htaken buf (hax ▸ hbuf)).2]
      rfl
    by_cases hi31 : i < 2 ^ 31
    · have halloc := objAlloc_spec hst hbuf htake hi31
      set c : CacheElem := ⟨.dirty, some { buf with flist := fl }⟩ with hc
      set r := u32 ((s.fs.header x).refcount + 1) with hr
      have hnext : flaSlabNextAvailableObj s.fs x 1 = .ok (0, some ⟨x, i⟩, s.fs.recount x c r) := by
        have hent : (s.fs.setElem x c).entryAt ((s.fs.setElem x c).header x).pool = .ok _ := hin.entry
        exact nextAvailableObj_done hin.range hent hin.fnc halloc
      have hrun : objectCreateIn env s.fs ndx x = _ := objectCreateIn_done hin.range hst hin.best hin.fnc
        (Touched.best hm hp0 c r) hnext
      have hfresh : (⟨x, i⟩ : Obj) ∉ s.live.map (·.1) := fun hmem => by
        obtain ⟨a, ha, hax⟩ := List.mem_map.1 hmem
        obtain ⟨-, -, -, htaken⟩ := hm.live a.1 a.2 ha
        rw [hax] at htaken
        rw [(htaken buf hbuf).2] at hfree
        exact absurd hfree (by decide)
      -- with the new object, whatever list the slab ends up in
      have hmixed : ∀ fs', Touched A s.fs fs' x c → Mixed geo ⟨fs', (⟨x, i⟩, ndx) :: s.live⟩ F A := fun fs' ht => by
        refine hm.retake hx ht (by decide) hbuf hlen hok' (some (⟨x, i⟩, ndx)) (List.nodup_cons.2 ⟨hfresh, hm.nodup⟩)
          (fun a ha => ?_) (fun a ha => ?_) fun a ha hax => ?_
        · rcases List.mem_cons.1 ha with rfl | ha
          · exact Or.inr rfl
          · exact Or.inl ha
        · obtain rfl : (⟨x, i⟩, ndx) = a := Option.some.inj ha
          exact ⟨hp, rfl, hsize ▸ hlt, hsuit⟩
        · rcases List.mem_cons.1 ha with rfl | ha
          · rw [hfl]
            simp
          · exact hkept a ha hax
      by_cases hk : ((0, kindOf (s.fs.pools.entries 0).slabNobj (s.fs.header x).refcount) : ℕ × SlabKind) =
          (0, kindOf (s.fs.pools.entries 0).slabNobj r)
      · exact ⟨0, some ⟨x, i⟩, s.fs.recount x c r, by rw [hrun, if_pos hk], hmixed _ (hm.recounted hp0 hx c r)⟩
      · obtain ⟨fs', hmove, ht⟩ := hm.relisted hg hp0 hx c r
          (kindOf (s.fs.pools.entries 0).slabNobj (s.fs.header x).refcount) (kindOf (s.fs.pools.entries 0).slabNobj r)
        exact ⟨0, some ⟨x, i⟩, fs', by rw [hrun, if_neg hk, hmove], hmixed _ ht⟩
    · -- the index does not fit an int: the entry is lost
      have hi32 := hm.nobj_lt hg hp
      have halloc := objAlloc_wide hst hbuf htake (by omega) (by omega)
      have hself : s.fs.recount x ⟨(s.fs.cache x).state, some { buf with flist := fl }⟩ (s.fs.header x).refcount =
          s.fs.setElem x ⟨(s.fs.cache x).state, some { buf with flist := fl }⟩ := by
        simp [Flexalloc.recount, Flexalloc.setHeader, Flexalloc.setElem, Flexalloc.header]
      have ht := hm.recounted hp0 hx ⟨(s.fs.cache x).state, some { buf with flist := fl }⟩ (s.fs.header x).refcount
      rw [hself] at ht
      exact ⟨1, none, _, objectCreateIn_failed hin.range hst hin.best hin.fnc (by decide)
        (nextAvailableObj_failed hin.range (by decide) halloc),
        hm.retake hx ht hst hbuf hlen hok' none hm.nodup (fun a ha => Or.inl ha) (fun a ha => by cases ha) hkept⟩

/-- **Giving an entry back.** -/
theorem Mixed.destroy (hm : Mixed geo s F A) (hg : VolOk (.single geo)) {o : Obj} {p : ℕ} (hop : (o, p) ∈ s.live)
    (env : Env) :
    ∃ fs', flaBaseObjectDestroy env s.fs p o = .ok (0, fs') ∧ Mixed geo ⟨fs', s.live.erase (o, p)⟩ F A := by
  obtain ⟨hp, hx, hlt, htaken⟩ := hm.live o p hop
  have hp0 := hm.first p hp
  have hin := hm.inPool hg hp0 hx
  obtain ⟨-, hst, buf, hbuf, hok⟩ := hm.used _ hx
  have hlen := (htaken buf hbuf).1
  have hn32 := hm.nobj_lt hg hp
  obtain ⟨fl, hfree, hfllen, hfl⟩ := objFree_spec hst hbuf (by omega) (by omega)
  have hcs : csObjectDestroy env s.fs p o = .ok 0 := by
    unfold csObjectDestroy
    rw [hm.vol]
    rfl
  set c : CacheElem := ⟨.dirty, some { buf with flist := fl }⟩ with hc
  set r := sub32 (s.fs.header o.slabId).refcount 1 with hr
  have hdst : flaPoolBestSlabList ((s.fs.setElem o.slabId c).subRefcount o.slabId 1) o.slabId =
      .ok (0, kindOf (s.fs.pools.entries 0).slabNobj r) := Touched.best hm hp0 c r
  have hrun : flaBaseObjectDestroy env s.fs p o = _ :=
    objectDestroy_done hcs hin.range (hm.dir.entryAt hp) hin.best hin.fnc hfree hdst
  obtain ⟨fs', hmove, ht⟩ := hm.relisted hg hp0 hx c r
    (kindOf (s.fs.pools.entries 0).slabNobj (s.fs.header o.slabId).refcount) (kindOf (s.fs.pools.entries 0).slabNobj r)
  have hmem : ∀ a ∈ s.live.erase (o, p), a ∈ s.live := fun a ha => List.mem_of_mem_erase ha
  have hnd : ((s.live.erase (o, p)).map (·.1)).Nodup := hm.nodup.sublist (List.erase_sublist.map _)
  refine ⟨fs', hrun.trans (congrArg Except.ok hmove), hm.retake hx ht (by decide) hbuf hfllen ?_ none hnd
    (fun a ha => Or.inl (hmem a ha)) (fun a ha => by cases ha) fun a ha hax => ?_⟩
  · exact free_ok hok (by omega) hfllen hfl
  · have hlive := hm.live a.1 a.2 (hmem a ha)
    have hne : a.1 ≠ o := fun h => by
      have hsplit := (List.perm_cons_erase hop).map (·.1)
      have hnd' := hsplit.nodup_iff.1 hm.nodup
      rw [List.map_cons, List.nodup_cons] at hnd'
      exact hnd'.1 (List.mem_map.2 ⟨a, ha, h⟩)
    have hent : a.1.entryNdx ≠ o.entryNdx := fun he => hne (by
      cases hoa : a.1
      simp_all)
    rw [hfl, (hlive.2.2.2 buf (hax ▸ hbuf)).2]
    simp [hent]

end Touch

/-! ## Acquiring a slab -/

section Acquire

variable {geo : Geo} {s : Sys} {F : List ℕ} {A : Set ℕ} {ndx : ℕ}

theorem Mixed.nslabs (hm : Mixed geo s F A) : s.fs.nslabs = geo.nslabs := by
  rw [Flexalloc.nslabs, hm.vol]
  rfl

theorem linkTo_insert {x y : ℕ} (h : LinkTo A y) : LinkTo (insert x A) y := h.imp id (Set.mem_insert_of_mem x)

/-- what a slab for a new object of pool `ndx` is like -/
structure Ready (geo : Geo) (s : Sys) (fs' : Flexalloc) (ndx x : ℕ) : Prop where
  same : SlabsOnly ndx s.fs fs'
  mixed : ∃ F A, Mixed geo ⟨fs', s.live⟩ F A ∧ x ∈ A
  suits : Suits ⟨fs', s.live⟩ ndx x

/-- a slab taken off the free queue and formatted: in flight if it is not acquired, else in use -/
theorem Mixed.format (hm : Mixed geo s F A) {x n : ℕ} {l : List ℕ} (hF : F = x :: l) {hd : ℕ → SlabHeader}
    {head tail : ℕ} (hq : Queue hd head tail l) (hlinks : LinksOnly l s.fs.slabs.headers hd) (env : Env) :
    Mixed geo ⟨s.fs.formatted hd head tail x, s.live⟩ l A ∧
      Mixed geo ⟨s.fs.acquired env hd head tail x n, s.live⟩ l (insert x A) := by
  subst hF
  obtain ⟨hxlt, hxA⟩ := hm.free x List.mem_cons_self
  obtain ⟨hxl, hndl⟩ := List.nodup_cons.1 hm.nodupF
  have hA : ∀ y ∈ A, y ≠ x ∧ hd y = s.fs.slabs.headers y := fun y hy =>
    ⟨fun h => hxA (h ▸ hy), hlinks.off y fun hyl => (hm.free y (List.mem_cons_of_mem _ hyl)).2 hy⟩
  have hqueue : Queue (update hd x ⟨0, flaLinkedListNull, flaLinkedListNull, 0⟩) head tail l :=
    hq.of_same fun y hy => by
      have hyx : y ≠ x := fun h => hxl (h ▸ hy)
      rw [update_of_ne hyx]
  have hpool : ∀ y, (update hd x ⟨0, flaLinkedListNull, flaLinkedListNull, 0⟩ y).pool = 0 := fun y => by
    by_cases hyx : y = x
    · rw [hyx, update_self]
    · rw [update_of_ne hyx, hlinks.pool]
      exact hm.pool y
  have hrest : ∀ y ∈ A, update hd x ⟨0, flaLinkedListNull, flaLinkedListNull, 0⟩ y = s.fs.slabs.headers y := fun y hy => by
    rw [update_of_ne (hA y hy).1, (hA y hy).2]
  constructor
  · refine hm.regroup (.of_slabs 0 s.fs _ _) hqueue hndl (fun y hy => hm.free y (List.mem_cons_of_mem _ hy))
      (fun y hy => ?_) hm.heads hpool hm.used fun y hy => ⟨hy, rfl⟩
    show LinkTo A (update hd x _ y).prev ∧ LinkTo A (update hd x _ y).next
    rw [hrest y hy]
    exact hm.closed y hy
  · refine hm.regroup (.of_slabs 0 s.fs _ _) hqueue hndl (fun y hy => ?_) (fun y hy => ?_)
      (fun i k => linkTo_insert (hm.heads i k)) hpool (fun y hy => ?_) fun y hy => ⟨Set.mem_insert_of_mem x hy, ?_⟩
    · obtain ⟨hlt, hyA⟩ := hm.free y (List.mem_cons_of_mem _ hy)
      refine ⟨hlt, fun h => ?_⟩
      rcases Set.mem_insert_iff.1 h with rfl | h
      · exact hxl hy
      · exact hyA h
    · show LinkTo _ (update hd x _ y).prev ∧ LinkTo _ (update hd x _ y).next
      rcases Set.mem_insert_iff.1 hy with rfl | hy
      · rw [update_self]
        exact ⟨linkTo_null _, linkTo_null _⟩
      · rw [hrest y hy]
        exact ⟨linkTo_insert (hm.closed y hy).1, linkTo_insert (hm.closed y hy).2⟩
    · rcases Set.mem_insert_iff.1 hy with rfl | hy
      · refine ⟨hxlt, ?_⟩
        simp only [Flexalloc.acquired, Flexalloc.setElem_self]
        exact ⟨by decide, _, rfl, init_ok n⟩
      · have hc : (s.fs.acquired env hd head tail x n).cache y = s.fs.cache y := update_of_ne (hA y hy).1 _ _
        simp only [hc]
        exact hm.used y hy
    · exact update_of_ne (hA y hy).1 _ _

/-- **Acquiring** a slab for pool `ndx`, whose lists have none to offer. -/
theorem Mixed.acquire (hm : Mixed geo s F A) (hg : VolOk (.single geo)) (hp : s.fs.PoolLive ndx) (env : Env) :
    ∃ err x fs₁, flaAcquireSlab env s.fs (s.fs.pools.entries ndx).objNlb = .ok (err, x, fs₁) ∧
      ((err ≠ 0 ∧ ∃ F' A', Mixed geo ⟨fs₁, s.live⟩ F' A') ∨ (err = 0 ∧ Ready geo s fs₁ ndx x)) := by
  have hn : s.fs.nslabs ≤ flaLinkedListNull := hm.nslabs.trans_le hg.nslabs_le
  have hpos : 0 < s.fs.nslabs := hm.nslabs ▸ hg.nslabs_pos
  cases F with
  | nil =>
    obtain ⟨err, x, hrun, herr⟩ := acquireSlab_dry hpos hn hm.queue env (s.fs.pools.entries ndx).objNlb
    exact ⟨err, x, s.fs, hrun, Or.inl ⟨herr, _, _, hm⟩⟩
  | cons x l =>
    by_cases hnum : s.fs.slabs.fslabNum = 0
    · exact ⟨flaErrAllSlabsUsed, flaLinkedListNull, s.fs, if_pos hnum, Or.inl ⟨by decide, _, _, hm⟩⟩
    have hused := hm.dir.used ndx hp
    obtain ⟨hxlt, hxA⟩ := hm.free x List.mem_cons_self
    have hlt : ∀ y ∈ x :: l, y < s.fs.nslabs := fun y hy => hm.nslabs ▸ (hm.free y hy).1
    obtain ⟨hd, head, tail, hrun, hq, hlinks⟩ := removeHead_spec (nslabs_lt hn) hm.queue hlt hm.nodupF
    have hck := rangeCheck_of_lt (nslabs_lt hn) (hlt x List.mem_cons_self)
    have hacq : flaAcquireSlab env s.fs (s.fs.pools.entries ndx).objNlb = _ :=
      acquireSlab_eq hnum hrun hck (hm.nobj ndx hused)
    obtain ⟨hfmt, hacquired⟩ := hm.format rfl hq hlinks env (n := (s.fs.pools.entries ndx).slabNobj)
    rw [if_neg (by omega)] at hacq
    by_cases hst : (s.fs.cache x).state ≠ .stale
    · rw [if_pos hst] at hacq
      exact ⟨_, _, _, hacq, Or.inl ⟨by decide, _, _, hfmt⟩⟩
    by_cases hbuf : ¬ env.bufAlloc
    · rw [if_neg hst, if_pos hbuf] at hacq
      exact ⟨_, _, _, hacq, Or.inl ⟨by decide, _, _, hfmt⟩⟩
    · rw [if_neg hst, if_neg hbuf] at hacq
      refine ⟨_, _, _, hacq, Or.inr ⟨rfl, ⟨.of_slabs ndx s.fs _ _, ⟨_, _, hacquired, Set.mem_insert x A⟩, ?_, ?_⟩⟩⟩
      · intro buf hb
        simp only [Flexalloc.acquired, Flexalloc.setElem_self] at hb
        obtain rfl := Option.some.inj hb
        rfl
      · intro o ho hox
        exact absurd (hox ▸ (hm.live o.1 o.2 ho).2.1) hxA

/-- **A slab to take an entry from**: the one at hand, or one just acquired. -/
theorem Mixed.nextAvailable (hm : Mixed geo s F A) (hg : VolOk (.single geo)) (hp : s.fs.PoolLive ndx)
    (hsuit : ∀ x ∈ s.fs.atHand ndx, Suits s ndx x) (env : Env) :
    ∃ err x fs₁, flaPoolNextAvailableSlab env s.fs ndx = .ok (err, x, fs₁) ∧
      ((err ≠ 0 ∧ ∃ F' A', Mixed geo ⟨fs₁, s.live⟩ F' A') ∨ (err = 0 ∧ Ready geo s fs₁ ndx x)) := by
  have hn : s.fs.nslabs ≤ flaLinkedListNull := hm.nslabs.trans_le hg.nslabs_le
  have hA : ∀ x ∈ A, x < s.fs.nslabs := fun x hx => hm.nslabs ▸ (hm.used x hx).1
  have hpart : LinkTo A (s.fs.pools.entries ndx).partialSlabs := hm.head hp .part
  have hempty : LinkTo A (s.fs.pools.entries ndx).emptySlabs := hm.head hp .empty
  have hself : ∀ x ∈ A, x ∈ s.fs.atHand ndx → Ready geo s s.fs ndx x := fun x hx hhand =>
    ⟨.refl ndx s.fs, ⟨F, A, hm, hx⟩, hsuit x hhand⟩
  by_cases hp0 : (s.fs.pools.entries ndx).partialSlabs ≠ flaLinkedListNull
  · obtain ⟨hmem, hck⟩ := hpart.check hn hA hp0
    have hhand : s.fs.atHand ndx = some (s.fs.pools.entries ndx).partialSlabs := if_pos hp0
    exact ⟨0, _, s.fs, nextAvailableSlab_part hp0 hck, Or.inr ⟨rfl, hself _ hmem hhand⟩⟩
  have hpnull := not_not.1 hp0
  by_cases he0 : (s.fs.pools.entries ndx).emptySlabs ≠ flaLinkedListNull
  · obtain ⟨hmem, hck⟩ := hempty.check hn hA he0
    have hhand : s.fs.atHand ndx = some (s.fs.pools.entries ndx).emptySlabs := by
      rw [Flexalloc.atHand, if_neg hp0, if_pos he0]
    exact ⟨0, _, s.fs, nextAvailableSlab_empty hpnull he0 hck, Or.inr ⟨rfl, hself _ hmem hhand⟩⟩
  have henull := not_not.1 he0
  obtain ⟨err, x, fs₁, hrun, ⟨herr, F', A', hm'⟩ | ⟨rfl, hready⟩⟩ := hm.acquire hg hp env
  · exact ⟨err, x, fs₁, nextAvailableSlab_failed hpnull henull herr hrun, Or.inl ⟨herr, F', A', hm'⟩⟩
  · -- the new slab goes in front of the empty list
    obtain ⟨hsame, ⟨F', A', hm', hx⟩, hsuits⟩ := hready
    have hn' : fs₁.nslabs ≤ flaLinkedListNull := hm'.nslabs.trans_le hg.nslabs_le
    have hA' : ∀ y ∈ A', y < fs₁.nslabs := fun y hy => hm'.nslabs.symm ▸ (hm'.used y hy).1
    obtain ⟨hd, hpre, hr⟩ := prepend_rewired hn' hA' hm'.closed hx (hm'.head ((hsame.poolLive ndx).2 hp) .empty)
    have hrest : SlabsOnly ndx fs₁ (fs₁.withLists ndx ((fs₁.pools.entries ndx).setHead .empty x) hd) :=
      .withLists (setHead_rest (fs₁.pools.entries ndx) .empty x) hd
    refine ⟨0, x, _, nextAvailableSlab_acquired hpnull henull hrun (onList_eq fs₁ ndx .empty
      (fun hd head => flaHdllPrepend fs₁.nslabs hd x head) hpre), Or.inr ⟨rfl, ⟨hsame.trans hrest, ⟨F', A', ?_, hx⟩, ?_⟩⟩⟩
    · refine hm'.regroup hrest (hm'.queue.of_same fun y hy => hr.off y (hm'.free y hy).2) hm'.nodupF hm'.free hr.closed
        (fun i k => ?_) (fun y => ((hr.marks y).1).trans (hm'.pool y)) hm'.used fun y hy => ⟨hy, rfl⟩
      by_cases hi : i = ndx
      · subst hi
        have hk := hm'.head ((hsame.poolLive i).2 hp)
        simp only [PoolEntry.listHead, Flexalloc.withLists, Flexalloc.setEntry, update_self, setHead_head]
        split_ifs
        · exact linkTo_null A'
        · by_cases hke : k = .empty
          · rw [hke, update_self]
            exact Or.inr hx
          · rw [update_of_ne hke]
            exact hk k
      · rw [hrest.entries_ne hi]
        exact hm'.heads i k
    · refine ⟨fun buf hb => ?_, fun o ho hox => ?_⟩
      · simp only [hrest.slabNobj]
        exact hsuits.1 buf hb
      · simp only [hrest.objNlb]
        exact hsuits.2 o ho hox

/-- **Creating an object** through a pool whose slab at hand suits it. -/
theorem Mixed.create (hm : Mixed geo s F A) (hg : VolOk (.single geo)) (hp : s.fs.PoolLive ndx)
    (hsuit : ∀ x ∈ s.fs.atHand ndx, Suits s ndx x) (env : Env) :
    ∃ err obj fs', flaBaseObjectCreate env s.fs ndx = .ok (err, obj, fs') ∧
      ∃ F' A', Mixed geo ⟨fs', if err = 0 then obj.toList.map (·, ndx) ++ s.live else s.live⟩ F' A' := by
  obtain ⟨err, x, fs₁, hrun, hcase⟩ := hm.nextAvailable hg hp hsuit env
  unfold flaBaseObjectCreate
  rw [hm.dir.entryAt hp, ok_bind, hrun, ok_bind]
  dsimp only
  rcases hcase with ⟨herr, F', A', hm'⟩ | ⟨rfl, hsame, ⟨F', A', hm', hx⟩, hsuits⟩
  · refine ⟨err, none, fs₁, if_pos herr, F', A', ?_⟩
    rw [if_neg herr]
    exact hm'
  · rw [if_neg (by simp)]
    obtain ⟨err', obj, fs', hrun', hm''⟩ := hm'.createIn hg ((hsame.poolLive ndx).2 hp) hx hsuits env
    exact ⟨err', obj, fs', hrun', F', A', hm''⟩

end Acquire

/-! ## Runs -/

section Runs

variable {geo : Geo} {s t : Sys} {F : List ℕ} {A : Set ℕ} {env : Env} {op : Op} {err : ℤ}

/-- a new pool takes an index that has no slabs and no objects -/
theorem Mixed.poolCreate (hm : Mixed geo s F A) (hg : VolOk (.single geo)) {arg : PoolCreateArg} {h : Option PoolHandle}
    {fs' : Flexalloc} (hrun : flaBasePoolCreate env s.fs arg = .ok (err, h, fs')) : Mixed geo ⟨fs', s.live⟩ F A := by
  have hnp : s.fs.npools ≤ 2 ^ 31 := by
    rw [Flexalloc.npools, hm.vol]
    exact (hg.npools_le.trans hg.nslabs_le).trans (by decide)
  obtain ⟨⟨p, rfl⟩, hdir, hcase⟩ := poolCreate_cases hm.dir hnp hrun
  rcases hcase with ⟨hent, hlive⟩ | ⟨-, k, e, hc⟩
  · have hent' : p.entries = s.fs.pools.entries := hent
    refine ⟨hm.vol, hdir, fun i hi => (hlive 0).2 (hm.first i ((hlive i).1 hi)), by rw [hent']; exact hm.nobj, hm.queue,
      hm.nodupF, hm.free, hm.closed, by rw [hent']; exact hm.heads, hm.pool, hm.used, hm.nodup, fun o i hoi => ?_,
      by rw [hent']; exact hm.same⟩
    obtain ⟨hp, hrest⟩ := hm.live o i hoi
    simp only [hent']
    exact ⟨(hlive i).2 hp, hrest⟩
  · have hent : p.entries = update s.fs.pools.entries k e := hc.entries
    have hold : ∀ i, s.fs.PoolLive i → p.entries i = s.fs.pools.entries i := fun i hi => by
      have hik : i ≠ k := fun h => hc.fresh (h ▸ hi)
      rw [hent, update_of_ne hik]
    refine ⟨hm.vol, hdir, fun i hi => ?_, fun i hi => ?_, hm.queue, hm.nodupF, hm.free, hm.closed, fun i q => ?_, hm.pool,
      hm.used, hm.nodup, fun o i hoi => ?_, fun a ha b hb hab => ?_⟩
    · rcases (hc.live i).1 hi with rfl | hi
      · refine (hc.live 0).2 ?_
        rcases Nat.eq_zero_or_pos i with h0 | hpos
        · exact Or.inl h0.symm
        · exact Or.inr (hc.lowest 0 hpos)
      · exact (hc.live 0).2 (Or.inr (hm.first i hi))
    · simp only [hent] at hi ⊢
      by_cases hik : i = k
      · rw [hik, update_self, hc.objNlb]
        exact hc.nobj
      · rw [update_of_ne hik] at hi ⊢
        exact hm.nobj i hi
    · simp only [hent]
      by_cases hik : i = k
      · rw [hik, update_self, PoolEntry.listHead, if_neg hc.nobj_pos, hc.heads]
        exact linkTo_null A
      · rw [update_of_ne hik]
        exact hm.heads i q
    · obtain ⟨hp, hrest⟩ := hm.live o i hoi
      simp only [hold i hp]
      exact ⟨(hc.live i).2 (Or.inr hp), hrest⟩
    · simp only [hold _ (hm.live a.1 a.2 ha).1, hold _ (hm.live b.1 b.2 hb).1]
      exact hm.same a ha b hb hab

/-- **One call**, of a client that takes entries of suitable slabs only. -/
theorem Mixed.perform (hm : Mixed geo s F A) (hg : VolOk (.single geo)) (hs : Suited s op) (hlegal : Legal s op)
    (h : perform env s op = .ok (err, t)) : ∃ F' A', Mixed geo t F' A' := by
  cases op with
  | poolCreate arg =>
    obtain ⟨⟨err₁, hnd, fs'⟩, hrun, hres⟩ := bind_eq_ok h
    cases hres
    exact ⟨F, A, hm.poolCreate hg hrun⟩
  | poolDestroy handle => exact hs.1.elim
  | objectCreate ndx =>
    obtain ⟨err₁, obj, fs', hrun, F', A', hm'⟩ := hm.create hg hlegal (hs.2 ndx rfl) env
    obtain ⟨⟨err₂, obj₂, fs₂⟩, hrun', hres⟩ := bind_eq_ok h
    rw [hrun] at hrun'
    cases hrun'
    cases hres
    exact ⟨F', A', hm'⟩
  | objectDestroy ndx obj =>
    obtain ⟨fs', hrun, hm'⟩ := hm.destroy hg hlegal env
    obtain ⟨⟨err₂, fs₂⟩, hrun', hres⟩ := bind_eq_ok h
    rw [hrun] at hrun'
    cases hrun'
    cases hres
    rw [if_pos rfl]
    exact ⟨F, A, hm'⟩

end Runs

theorem mkfs_mixed {dev : Dev} {npools slabNlb : ℕ} {geo : Geo} (hf : Formatted dev npools slabNlb geo)
    (hn : geo.nslabs ≤ flaLinkedListNull) (disk : Bytes) : Mixed geo (.init dev geo disk) (List.range geo.nslabs) ∅ := by
  have ho := mkfs_owned hf hn disk
  refine ⟨ho.vol, ho.dir, fun i hi => ?_, ho.nobj, ho.chains.queue, ho.chains.nodup none,
    fun x hx => ⟨ho.chains.lt none x hx, fun h => h.elim⟩, fun x hx => hx.elim, fun i k => Or.inl ?_, ho.pool,
    fun x hx => hx.elim, List.nodup_nil, fun o p h => ?_, fun a ha => ?_⟩
  · exact absurd rfl (ho.dir.used i hi)
  · rfl
  · cases h
  · cases ha

theorem calcObjs_one_block {v : Volume} (hmd : v.hasMd = false) (hlb : 0 < v.geo.lbNbytes) (hone : v.geo.slabNlb = 1)
    {objNlb n : ℕ} (h : flaCalcObjsInSlab v objNlb = .ok n) : n = 0 := by
  obtain ⟨hpos, hroom⟩ := calcObjs_spec hmd (by rw [hone]; decide) h
  by_contra hn
  have hfit := hroom (Nat.pos_of_ne_zero hn)
  have hflist := flistNlb_pos hlb n
  have hobj : 1 ≤ n * objNlb := Nat.mul_pos (Nat.pos_of_ne_zero hn) hpos
  omega

/-- a create that leaves no room for an object in a slab changes nothing -/
theorem poolCreate_no_room {env : Env} {fs fs' : Flexalloc} {arg : PoolCreateArg} {err : ℤ} {h : Option PoolHandle}
    (hcalc : ∀ n, flaCalcObjsInSlab fs.vol arg.objNlb = .ok n → n = 0)
    (hrun : flaBasePoolCreate env fs arg = .ok (err, h, fs')) : fs' = fs := by
  obtain ⟨opened, -, hrun⟩ := bind_eq_ok hrun
  split at hrun
  · obtain ⟨e, -, hrun⟩ := bind_eq_ok hrun
    split_ifs at hrun
    all_goals
      cases hrun
      rfl
  · by_cases hname : (flaNameSizePool : ℤ) ≤ arg.nameLen
    · rw [if_pos hname] at hrun
      cases hrun
      rfl
    · rw [if_neg hname] at hrun
      obtain ⟨n, hn, hrun⟩ := bind_eq_ok hrun
      rw [hcalc n hn, if_pos (by decide)] at hrun
      cases hrun
      rfl

/-- **Live objects do not overlap**, in any run on one conventional device with any number of pools of any object sizes in
which no pool is destroyed and every new object goes to a slab laid out for its pool's object size. -/
theorem no_overlap {dev : Dev} {npools slabNlb : ℕ} {geo : Geo} (hf : Formatted dev npools slabNlb geo)
    (hwrap : geo.nslabs * slabNlb < 2 ^ 32) (disk : Bytes) {calls : List (Env × Op)} {s : Sys}
    (hrun : run (guard (fun s x => Suited s x.2) step) (.init dev geo disk) calls = some s) : NoOverlap s := by
  obtain ⟨hpos, -, -, -, hslab, hslabpos, hlb⟩ := hf.bounds
  by_cases hone : slabNlb = 1
  · -- no pool can be created, so nothing ever happens
    have hinit : s = .init dev geo disk := by
      refine run_inv (P := fun s => s = .init dev geo disk) (fun s x t hs hstep => ?_) rfl hrun
      obtain ⟨env, op⟩ := x
      obtain ⟨hsuited, hst⟩ := guard_eq_some hstep
      obtain ⟨hlegal, err, hperf⟩ := step_eq_some hst
      subst hs
      cases op with
      | poolCreate arg =>
        obtain ⟨⟨err₁, hnd, fs'⟩, hcreate, hres⟩ := bind_eq_ok hperf
        cases hres
        have hsame : fs' = flaMkfs dev geo disk :=
          poolCreate_no_room (fun n hn => calcObjs_one_block rfl hlb (hslab.trans hone) hn) hcreate
        rw [hsame]
        rfl
      | poolDestroy handle => exact hsuited.1.elim
      | objectCreate ndx => exact absurd rfl ((mkfs_dir dev geo disk).used ndx hlegal)
      | objectDestroy ndx obj => cases hlegal
    rw [hinit]
    exact List.Pairwise.nil
  · have hn : geo.nslabs ≤ flaLinkedListNull := by
      have htwo : geo.nslabs * 2 ≤ geo.nslabs * slabNlb := Nat.mul_le_mul_left _ (by omega)
      have hnull : flaLinkedListNull = 2 ^ 31 - 1 := rfl
      omega
    have hg := hf.volOk hn
    have hinv : ∃ F A, Mixed geo s F A := by
      refine run_inv (P := fun s => ∃ F A, Mixed geo s F A) (fun s x t hs hstep => ?_) ⟨_, _, mkfs_mixed hf hn disk⟩ hrun
      obtain ⟨F, A, hm⟩ := hs
      obtain ⟨hsuited, hst⟩ := guard_eq_some hstep
      obtain ⟨hlegal, err, hperf⟩ := step_eq_some hst
      exact hm.perform hg hsuited hlegal hperf
    obtain ⟨F, A, hm⟩ := hinv
    exact hm.noOverlap (by rw [hslab]; exact hwrap)

/-- two pools with objects of one and of two blocks, each with slabs of its own: an object of the second pool is created
before the first pool has any -/
theorem no_overlap_small : ∃ s, run (guard (fun s x => Suited s x.2) step) (.init smallDev smallGeo 0)
    (reliably [.poolCreate (smallArg 97 1), .poolCreate (smallArg 98 2), .objectCreate 0, .objectCreate 1,
      .objectDestroy 0 ⟨0, 0⟩]) = some s ∧ s.live = [(⟨1, 0⟩, 1)] ∧ NoOverlap s := by
  obtain ⟨s, hs, hlive⟩ := Option.map_eq_some_iff.1 (show (run (guard (fun s x => Suited s x.2) step)
    (.init smallDev smallGeo 0) (reliably [.poolCreate (smallArg 97 1), .poolCreate (smallArg 98 2), .objectCreate 0,
      .objectCreate 1, .objectDestroy 0 ⟨0, 0⟩])).map (·.live) = some [(⟨1, 0⟩, 1)] by decide +kernel)
  exact ⟨s, hs, hlive, no_overlap smallGeo_formatted (by decide +kernel) 0 hs⟩

/-- Two pools, with objects of two blocks and of one. An object of the second pool is created first, and its slab turns up
in the partial list of the first: the next object of that pool starts in the middle of it. -/
theorem pools_overlap : ∃ s, run (guard (fun _ x => PoolsStay x.2) step) (.init smallDev smallGeo 0)
    (reliably [.poolCreate (smallArg 97 1), .poolCreate (smallArg 98 2), .objectCreate 1, .objectCreate 0]) = some s ∧
    smallGeo.nslabs * 8 < 2 ^ 32 ∧ s.live = [(⟨0, 1⟩, 0), (⟨0, 0⟩, 1)] ∧ ¬ NoOverlap s := by
  obtain ⟨s, hs, hval⟩ := Option.map_eq_some_iff.1 (show (run (guard (fun _ x => PoolsStay x.2) step)
    (.init smallDev smallGeo 0) (reliably [.poolCreate (smallArg 97 1), .poolCreate (smallArg 98 2), .objectCreate 1,
      .objectCreate 0])).map (fun s => (s.live, flaObjectSlba s.fs.vol (s.fs.pools.entries 0).objNlb ⟨0, 1⟩,
        flaObjectElba s.fs.vol (s.fs.pools.entries 0).objNlb ⟨0, 1⟩,
        flaObjectSlba s.fs.vol (s.fs.pools.entries 1).objNlb ⟨0, 0⟩,
        flaObjectElba s.fs.vol (s.fs.pools.entries 1).objNlb ⟨0, 0⟩)) =
    some ([(⟨0, 1⟩, 0), (⟨0, 0⟩, 1)], 6, 7, 5, 7) by decide +kernel)
  simp only [Prod.mk.injEq] at hval
  obtain ⟨hlive, hslba₀, helba₀, hslba₁, helba₁⟩ := hval
  refine ⟨s, hs, by decide +kernel, hlive, fun hno => ?_⟩
  rw [NoOverlap, hlive, List.pairwise_pair] at hno
  -- the block where the object of the first pool starts
  have h₀ : 6 ∈ s.range (⟨0, 1⟩, 0) := Set.mem_Ico.2 ⟨hslba₀.le, by rw [helba₀]; decide⟩
  have h₁ : 6 ∈ s.range (⟨0, 0⟩, 1) := Set.mem_Ico.2 ⟨by rw [hslba₁]; decide, by rw [helba₁]; decide⟩
  exact Set.disjoint_left.1 hno h₀ h₁

end FlexAlloc
