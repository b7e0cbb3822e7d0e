/-
The queue of free slabs (`fla_acquire_slab`, `fla_release_slab` and `fla_format_slab` of `flexalloc_mm.c`).

Slabs are acquired and released in any order; the owner of an acquired slab may write the slab's header and its cache
element as it likes, since the lists of a pool run through the same headers. `since` records when each slab became free,
with the slabs of a new system free in the order mkfs lays them out.

- `free_slabs_fifo`: over every run the free list holds the slabs not acquired, oldest first; acquiring takes the oldest
  one, formatted for its new owner, and fails if and only if there is none, changing nothing.
- `failed_acquire_clean_iff`: acquiring takes the slab off the list before it checks anything else, so a call that fails
  leaves everything as it was if and only if there was no slab to take (or it does not fail).
  `failed_acquire_loses_slab`: no memory for the freelist.
-/
import FlexAlloc.Ownership

namespace FlexAlloc

open FlexAlloc.Core Function

/-- the free list is well formed and holds `l` -/
structure FreeList (fs : Flexalloc) (l : List ℕ) : Prop where
  queue : Queue fs.slabs.headers fs.slabs.fslabHead fs.slabs.fslabTail l
  lt : ∀ x ∈ l, x < fs.nslabs
  null : flaLinkedListNull ∉ l
  nodup : l.Nodup
  num : fs.slabs.fslabNum = l.length

section Acquire

variable {env : Env} {fs : Flexalloc} {l : List ℕ} {x objNlb n : ℕ}

theorem FreeList.acquire_nil (h : FreeList fs []) (env : Env) (objNlb : ℕ) :
    flaAcquireSlab env fs objNlb = .ok (flaErrAllSlabsUsed, flaLinkedListNull, fs) := if_pos h.num

/-- **Acquiring** the head of a free list. -/
theorem FreeList.acquire_cons (h : FreeList fs (x :: l)) (hn : fs.nslabs < 2 ^ 32)
    (hcalc : flaCalcObjsInSlab fs.vol objNlb = .ok n) (env : Env) :
    ∃ hd head tail, Queue hd head tail l ∧ LinksOnly l fs.slabs.headers hd ∧ flaAcquireSlab env fs objNlb =
      .ok (if n < 1 then (1, x, fs.unlinked hd head tail)
        else if (fs.cache x).state ≠ .stale then (flaSlabCacheInvalidState, x, fs.formatted hd head tail x)
        else if ¬ env.bufAlloc then (-eNOMEM, x, fs.formatted hd head tail x)
        else (0, x, fs.acquired env hd head tail x n)) := by
  have hnum : fs.slabs.fslabNum ≠ 0 := by simp [h.num]
  obtain ⟨hd, head, tail, hrun, hqueue, hf⟩ := removeHead_spec hn h.queue h.lt h.nodup
  exact ⟨hd, head, tail, hqueue, hf,
    acquireSlab_eq hnum hrun (rangeCheck_of_lt hn (h.lt x List.mem_cons_self)) hcalc⟩

/-! ## A failed call -/

/-- the three counters of the free list, all links and the slab cache are the same -/
structure SameFree (fs fs' : Flexalloc) : Prop where
  head : fs'.slabs.fslabHead = fs.slabs.fslabHead
  tail : fs'.slabs.fslabTail = fs.slabs.fslabTail
  num : fs'.slabs.fslabNum = fs.slabs.fslabNum
  next : ∀ s, (fs'.header s).next = (fs.header s).next
  prev : ∀ s, (fs'.header s).prev = (fs.header s).prev
  cache : fs'.cache = fs.cache

theorem SameFree.refl (fs : Flexalloc) : SameFree fs fs :=
  ⟨rfl, rfl, rfl, fun _ => rfl, fun _ => rfl, rfl⟩

theorem Queue.head_ne {hd : ℕ → SlabHeader} {head tail : ℕ} (h : Queue hd head tail l) (hx : x ∉ l)
    (hnull : x ≠ flaLinkedListNull) : head ≠ x := by
  rintro rfl
  obtain ⟨p, hl⟩ := h.linked
  cases l with
  | nil => exact hnull hl
  | cons y l => exact hx (hl.1 ▸ List.mem_cons_self)

theorem calcObjs_ok (v : Volume) (hobj : 1 ≤ objNlb) : ∃ n, flaCalcObjsInSlab v objNlb = .ok n := by
  have hne : objNlb ≠ 0 := by omega
  unfold flaCalcObjsInSlab
  rw [if_neg hne]
  split_ifs
  · exact ⟨_, rfl⟩
  · exact ⟨_, rfl⟩

theorem FreeList.lost (h : FreeList fs (x :: l)) {hd : ℕ → SlabHeader} {head tail : ℕ} (hq : Queue hd head tail l)
    {fs' : Flexalloc} (hhead : fs'.slabs.fslabHead = head) : ¬ SameFree fs fs' := by
  intro hsame
  have hx : head ≠ x :=
    hq.head_ne (List.nodup_cons.1 h.nodup).1 fun hnull => h.null (hnull ▸ List.mem_cons_self)
  obtain ⟨p, hl⟩ := h.queue.linked
  apply hx
  calc head = fs.slabs.fslabHead := hhead.symm.trans hsame.head
    _ = x := hl.1

/-- **A failed acquisition is clean** if and only if no slab is free, or nothing is in the way of taking one: objects of
that size fit a slab, the first free slab is not cached, and there is memory for its freelist. -/
theorem failed_acquire_clean_iff (h : FreeList fs l) (hn : fs.nslabs < 2 ^ 32) (hobj : 1 ≤ objNlb) (env : Env) :
    (∀ err slab fs', flaAcquireSlab env fs objNlb = .ok (err, slab, fs') → err ≠ 0 → SameFree fs fs') ↔
      fs.slabs.fslabNum = 0 ∨
        FitsSlab fs.vol objNlb ∧ (fs.cache fs.slabs.fslabHead).state = .stale ∧ env.bufAlloc = true := by
  cases l with
  | nil =>
    refine ⟨fun _ => Or.inl h.num, fun _ err slab fs' hrun _ => ?_⟩
    rw [h.acquire_nil] at hrun
    cases hrun
    exact SameFree.refl fs
  | cons x l =>
    have hnum : fs.slabs.fslabNum ≠ 0 := by simp [h.num]
    have hhead : fs.slabs.fslabHead = x := by
      obtain ⟨p, hl⟩ := h.queue.linked
      exact hl.1
    obtain ⟨n, hcalc⟩ := calcObjs_ok fs.vol hobj
    obtain ⟨hd, head, tail, hq, -, hrun⟩ := h.acquire_cons hn hcalc env
    rw [hrun, hhead]
    constructor
    · intro hclean
      right
      by_cases hfit : n < 1
      · rw [if_pos hfit] at hclean
        exact absurd (hclean _ _ _ rfl (by decide)) (h.lost hq rfl)
      by_cases hst : (fs.cache x).state ≠ .stale
      · rw [if_neg hfit, if_pos hst] at hclean
        exact absurd (hclean _ _ _ rfl (by decide)) (h.lost hq rfl)
      by_cases hbuf : ¬ env.bufAlloc
      · rw [if_neg hfit, if_neg hst, if_pos hbuf] at hclean
        exact absurd (hclean _ _ _ rfl (by decide)) (h.lost hq rfl)
      exact ⟨fitsSlab_iff.2 ⟨n, hcalc, not_lt.1 hfit⟩, not_ne_iff.1 hst, by simpa using hbuf⟩
    · rintro (hzero | ⟨hfits, hst, hbuf⟩) err slab fs' hok herr
      · exact absurd hzero hnum
      · obtain ⟨m, hm, hpos⟩ := fitsSlab_iff.1 hfits
        rw [hcalc] at hm
        cases hm
        rw [if_neg (not_lt.2 hpos), if_neg (not_not.2 hst), if_neg (not_not.2 hbuf)] at hok
        cases hok
        exact absurd rfl herr

end Acquire

theorem mkfs_freeList {fs : Flexalloc} (hpos : 1 ≤ fs.nslabs) (hn : fs.nslabs ≤ flaLinkedListNull)
    (hslabs : fs.slabs = flaMkfsSlabSgmtInit fs.geo) : FreeList fs (List.range fs.nslabs) := by
  have hq : Queue fs.slabs.headers fs.slabs.fslabHead fs.slabs.fslabTail (List.range fs.nslabs) := by
    rw [hslabs]
    exact mkfs_queue hpos hn
  refine ⟨hq, fun x hx => List.mem_range.1 hx, fun hx => ?_, List.nodup_range, ?_⟩
  · exact absurd (List.mem_range.1 hx) (not_lt.2 hn)
  · rw [hslabs, List.length_range]
    rfl

theorem failed_acquire_clean_small : FreeList (flaMkfs smallDev smallGeo 0) (List.range 7) ∧
    ∀ err slab fs', flaAcquireSlab .reliable (flaMkfs smallDev smallGeo 0) 1 = .ok (err, slab, fs') → err ≠ 0 →
      SameFree (flaMkfs smallDev smallGeo 0) fs' := by
  have hfree : FreeList (flaMkfs smallDev smallGeo 0) (List.range 7) :=
    mkfs_freeList (by decide +kernel) (by decide +kernel) rfl
  refine ⟨hfree, (failed_acquire_clean_iff hfree (by decide +kernel) le_rfl .reliable).2 (Or.inr ⟨?_, rfl, rfl⟩)⟩
  decide +kernel

/-- Seven slabs are free, and no memory is left: the first one is off the list, and the count still says seven. -/
theorem failed_acquire_loses_slab : ∃ fs', flaAcquireSlab { Env.reliable with bufAlloc := false }
      (flaMkfs smallDev smallGeo 0) 1 = .ok (-eNOMEM, 0, fs') ∧
    fs'.slabs.fslabHead = 1 ∧ fs'.slabs.fslabNum = 7 ∧ FreeList (flaMkfs smallDev smallGeo 0) (List.range 7) ∧
    ¬ SameFree (flaMkfs smallDev smallGeo 0) fs' := by
  obtain ⟨⟨err, slab, fs'⟩, hrun, hval⟩ := Option.map_eq_some_iff.1 (show (flaAcquireSlab
      { Env.reliable with bufAlloc := false } (flaMkfs smallDev smallGeo 0) 1).toOption.map
    (fun r => (r.1, r.2.1, r.2.2.slabs.fslabHead, r.2.2.slabs.fslabNum)) = some (-eNOMEM, 0, 1, 7) by decide +kernel)
  simp only [Prod.mk.injEq] at hval
  obtain ⟨rfl, rfl, hhead, hnum⟩ := hval
  refine ⟨fs', toOption_eq_some hrun, hhead, hnum, mkfs_freeList (by decide +kernel) (by decide +kernel) rfl, ?_⟩
  intro hsame
  have hzero : (1 : ℕ) = 0 := hhead.symm.trans hsame.head
  cases hzero

/-! ## Runs -/

/-- the slabs in use: `taken` are acquired, `since` says when each of the others became free -/
structure SlabUse where
  fs : Flexalloc
  taken : List ℕ
  since : ℕ → ℕ
  clock : ℕ

/-- a system whose slabs mkfs has just put in the free list, one after the other -/
def SlabUse.start (fs : Flexalloc) : SlabUse := ⟨fs, [], id, fs.nslabs⟩

inductive SlabOp where
  | acquire (env : Env) (objNlb : ℕ)
  | release (slab : ℕ)
  /-- the owner of a slab writes its header and its cache element -/
  | use (slab : ℕ) (h : SlabHeader) (e : CacheElem)

/-- slabs are acquired for objects that fit one while there is memory, and released without objects by their owner -/
def SlabOp.Legal (q : SlabUse) : SlabOp → Prop
  | .acquire env objNlb => env.bufAlloc = true ∧ FitsSlab q.fs.vol objNlb
  | .release slab => slab ∈ q.taken ∧ (q.fs.header slab).refcount = 0
  | .use slab _ _ => slab ∈ q.taken

instance SlabOp.decidableLegal (q : SlabUse) : (op : SlabOp) → Decidable (op.Legal q)
  | .acquire env objNlb => inferInstanceAs (Decidable (env.bufAlloc = true ∧ FitsSlab q.fs.vol objNlb))
  | .release slab => inferInstanceAs (Decidable (slab ∈ q.taken ∧ (q.fs.header slab).refcount = 0))
  | .use slab _ _ => inferInstanceAs (Decidable (slab ∈ q.taken))

def slabCall (q : SlabUse) : SlabOp → Ret (ℤ × SlabUse)
  | .acquire env objNlb =>
    match flaAcquireSlab env q.fs objNlb with
    | .error f => .error f
    | .ok (err, slab, fs) => .ok (err, if err = 0 then { q with fs := fs, taken := slab :: q.taken } else { q with fs := fs })
  | .release slab =>
    let r := flaReleaseSlab q.fs slab
    .ok (r.1, if r.1 = 0 then ⟨r.2, q.taken.erase slab, update q.since slab q.clock, q.clock + 1⟩
      else { q with fs := r.2 })
  | .use slab h e => .ok (0, { q with fs := (q.fs.setHeader slab h).setElem slab e })

def slabStep (q : SlabUse) (op : SlabOp) : Option SlabUse :=
  if op.Legal q then (slabCall q op).toOption.map (·.2) else none

theorem slabStep_eq_some {q q' : SlabUse} {op : SlabOp} (h : slabStep q op = some q') :
    op.Legal q ∧ ∃ err, slabCall q op = .ok (err, q') := by
  unfold slabStep at h
  split_ifs at h with hlegal
  obtain ⟨⟨err, t⟩, hcall, rfl⟩ := Option.map_eq_some_iff.1 h
  exact ⟨hlegal, err, toOption_eq_some hcall⟩

/-- the free list holds the slabs that are not acquired, oldest first, none of them cached -/
structure Fifo (n : ℕ) (q : SlabUse) (l : List ℕ) : Prop where
  nslabs : q.fs.nslabs = n
  list : FreeList q.fs l
  mem : ∀ x, x ∈ l ↔ x < n ∧ x ∉ q.taken
  taken : ∀ x ∈ q.taken, x < n
  nodup : q.taken.Nodup
  stale : ∀ x ∈ l, (q.fs.cache x).state = .stale
  order : l.Pairwise fun x y => q.since x < q.since y
  past : ∀ x ∈ l, q.since x < q.clock

section Fifo

variable {n : ℕ} {q q' : SlabUse} {l : List ℕ} {x : ℕ}

theorem start_fifo {fs : Flexalloc} (hpos : 1 ≤ fs.nslabs) (hn : fs.nslabs ≤ flaLinkedListNull)
    (hslabs : fs.slabs = flaMkfsSlabSgmtInit fs.geo) (hcache : ∀ s, (fs.cache s).state = .stale) :
    Fifo fs.nslabs (.start fs) (List.range fs.nslabs) where
  nslabs := rfl
  list := mkfs_freeList hpos hn hslabs
  mem x := by simp [SlabUse.start]
  taken x hx := by cases hx
  nodup := List.nodup_nil
  stale x _ := hcache x
  order := List.pairwise_lt_range
  past x hx := List.mem_range.1 hx

theorem Fifo.taken_free (hq : Fifo n q l) (hx : x ∈ q.taken) : x ∉ l := fun hl => ((hq.mem x).1 hl).2 hx

theorem Fifo.use (hq : Fifo n q l) (hx : x ∈ q.taken) (h : SlabHeader) (e : CacheElem) :
    Fifo n { q with fs := (q.fs.setHeader x h).setElem x e } l := by
  have hne : ∀ y ∈ l, y ≠ x := fun y hy hyx => hq.taken_free hx (hyx ▸ hy)
  obtain ⟨p, hl⟩ := hq.list.queue.linked
  have hlinked : Linked (update q.fs.slabs.headers x h) p q.fs.slabs.fslabHead l :=
    Seg.congr hl (fun y hy => by rw [update_of_ne (hne y hy)]) (fun y hy => by rw [update_of_ne (hne y hy)])
  exact { hq with
    list := ⟨⟨⟨p, hlinked⟩, hq.list.queue.tail_eq⟩, hq.list.lt, hq.list.null, hq.list.nodup, hq.list.num⟩
    stale := fun y hy => by
      rw [Flexalloc.setElem_ne (hne y hy)]
      exact hq.stale y hy }

/-- a new slab: linked nowhere, without objects, with a freelist of `m` free entries -/
structure Handed (fs : Flexalloc) (x m : ℕ) : Prop where
  header : fs.header x = ⟨0, flaLinkedListNull, flaLinkedListNull, 0⟩
  flist : ∃ buf, fs.cache x = ⟨.dirty, some buf⟩ ∧ buf.flist.len = m ∧ ∀ i < m, buf.flist.isFree i = true

theorem acquired_handed (env : Env) (fs : Flexalloc) (hd : ℕ → SlabHeader) (head tail x m : ℕ) :
    Handed (fs.acquired env hd head tail x m) x m where
  header := by simp [Flexalloc.acquired, Flexalloc.formatted, Flexalloc.header]
  flist := by
    refine ⟨⟨flaFlistInit m, env.junk⟩, ?_, rfl, fun i hi => ?_⟩
    · simp [Flexalloc.acquired, Flexalloc.setElem]
    · rw [init_isFree]
      exact decide_eq_true hi

/-- **Acquiring** takes the oldest free slab. -/
theorem Fifo.acquire (hq : Fifo n q (x :: l)) (hn : n < 2 ^ 32) {objNlb m : ℕ}
    (hcalc : flaCalcObjsInSlab q.fs.vol objNlb = .ok m) (hm : 1 ≤ m) {env : Env} (hbuf : env.bufAlloc = true) :
    ∃ fs', flaAcquireSlab env q.fs objNlb = .ok (0, x, fs') ∧ Handed fs' x m ∧
      Fifo n { q with fs := fs', taken := x :: q.taken } l := by
  have hnd := List.nodup_cons.1 hq.list.nodup
  have hxl : ∀ y ∈ l, y ≠ x := fun y hy h => hnd.1 (h ▸ hy)
  have hxm := (hq.mem x).1 List.mem_cons_self
  obtain ⟨hd, head, tail, hqueue, -, hrun⟩ := hq.list.acquire_cons (hq.nslabs ▸ hn) hcalc env
  rw [if_neg (not_lt.2 hm), if_neg (not_not.2 (hq.stale x List.mem_cons_self)), if_neg (not_not.2 hbuf)] at hrun
  refine ⟨_, hrun, acquired_handed env q.fs hd head tail x m, ?_⟩
  obtain ⟨p, hl⟩ := hqueue.linked
  have hlinked : Linked (update hd x ⟨0, flaLinkedListNull, flaLinkedListNull, 0⟩) p head l :=
    Seg.congr hl (fun y hy => by rw [update_of_ne (hxl y hy)]) (fun y hy => by rw [update_of_ne (hxl y hy)])
  have hlen : (x :: l).length ≤ n := length_le_of_lt hq.list.nodup fun y hy => ((hq.mem y).1 hy).1
  refine
    { nslabs := hq.nslabs
      list := ⟨⟨⟨p, hlinked⟩, hqueue.tail_eq⟩, fun y hy => hq.list.lt y (List.mem_cons_of_mem x hy),
        fun h => hq.list.null (List.mem_cons_of_mem x h), hnd.2, ?_⟩
      mem := fun y => ?_
      taken := fun y hy => ?_
      nodup := List.nodup_cons.2 ⟨hxm.2, hq.nodup⟩
      stale := fun y hy => ?_
      order := (List.pairwise_cons.1 hq.order).2
      past := fun y hy => hq.past y (List.mem_cons_of_mem x hy) }
  · have hnum : q.fs.slabs.fslabNum = l.length + 1 := hq.list.num
    show sub32 q.fs.slabs.fslabNum 1 = l.length
    rw [List.length_cons] at hlen
    rw [hnum, sub32_of_le (by omega) (by omega), Nat.add_sub_cancel]
  · constructor
    · intro hy
      have hym := (hq.mem y).1 (List.mem_cons_of_mem x hy)
      simp [hym.1, hym.2, hxl y hy]
    · rintro ⟨hlt, hnot⟩
      rw [List.mem_cons, not_or] at hnot
      exact (List.mem_cons.1 ((hq.mem y).2 ⟨hlt, hnot.2⟩)).resolve_left hnot.1
  · rcases List.mem_cons.1 hy with rfl | hy
    · exact hxm.1
    · exact hq.taken y hy
  · have hcache : (q.fs.acquired env hd head tail x m).cache y = q.fs.cache y := update_of_ne (hxl y hy) _ _
    exact (congrArg CacheElem.state hcache).trans (hq.stale y (List.mem_cons_of_mem x hy))

/-- **Releasing** makes a slab the youngest free one. -/
theorem Fifo.release (hq : Fifo n q l) (hn : n ≤ flaLinkedListNull) (hx : x ∈ q.taken)
    (hr : (q.fs.header x).refcount = 0) :
    ∃ fs', flaReleaseSlab q.fs x = (0, fs') ∧
      Fifo n ⟨fs', q.taken.erase x, update q.since x q.clock, q.clock + 1⟩ (l ++ [x]) := by
  have hlt : x < n := hq.taken x hx
  have hxl := hq.taken_free hx
  have hne : ∀ y ∈ l, y ≠ x := fun y hy h => hxl (h ▸ hy)
  have hnew : ∀ k, x ∉ freeOnly l k := fun k => by
    cases k with
    | none => exact hxl
    | some k => exact List.not_mem_nil
  have hchains := hq.list.queue.chains hq.list.lt hq.list.nodup fun _ : SlabKind => rfl
  obtain ⟨hd, head, hrun, -, hc⟩ := releaseSlab_spec (hq.nslabs ▸ hn) hchains (hq.nslabs ▸ hlt) hnew hr
  have hqueue : Queue hd head x (l ++ [x]) := hc.queue
  have hmem : ∀ y ∈ l ++ [x], y ∈ l ∨ y = x := fun y hy => by simpa using hy
  have hnd : (l ++ [x]).Nodup := by
    rw [List.nodup_append]
    refine ⟨hq.list.nodup, List.nodup_singleton x, fun y hy z hz => ?_⟩
    rw [List.mem_singleton.1 hz]
    exact hne y hy
  have hlen : (l ++ [x]).length ≤ n := length_le_of_lt hnd fun y hy => by
    rcases hmem y hy with hy | rfl
    · exact ((hq.mem y).1 hy).1
    · exact hlt
  refine ⟨_, hrun,
    { nslabs := hq.nslabs
      list := ⟨hqueue, fun y hy => ?_, fun h => ?_, hnd, ?_⟩
      mem := fun y => ?_
      taken := fun y hy => hq.taken y (List.mem_of_mem_erase hy)
      nodup := hq.nodup.erase x
      stale := fun y hy => ?_
      order := ?_
      past := fun y hy => ?_ }⟩
  · rcases hmem y hy with hy | rfl
    · exact hq.list.lt y hy
    · exact hq.nslabs ▸ hlt
  · rcases hmem _ h with h | h
    · exact hq.list.null h
    · omega
  · have hnull : flaLinkedListNull < 2 ^ 32 := by decide
    rw [List.length_append, List.length_singleton] at hlen ⊢
    show u32 (q.fs.slabs.fslabNum + 1) = l.length + 1
    rw [hq.list.num, u32, Nat.mod_eq_of_lt (by omega)]
  · rw [List.mem_append, List.mem_singleton, hq.mem, hq.nodup.mem_erase_iff]
    by_cases hyx : y = x
    · subst hyx
      simp [hlt]
    · simp [hyx]
  · by_cases hyx : y = x
    · subst hyx
      exact congrArg CacheElem.state (Flexalloc.setElem_self ..)
    · exact (congrArg CacheElem.state (Flexalloc.setElem_ne hyx _)).trans (hq.stale y ((hmem y hy).resolve_right hyx))
  · rw [List.pairwise_append]
    refine ⟨hq.order.imp_of_mem fun {y z} hy hz hyz => ?_, List.pairwise_singleton _ x, fun y hy z hz => ?_⟩
    · simpa [update_of_ne (hne y hy), update_of_ne (hne z hz)] using hyz
    · rw [List.mem_singleton.1 hz]
      simpa [update_of_ne (hne y hy)] using hq.past y hy
  · rcases hmem y hy with hy | rfl
    · simpa [update_of_ne (hne y hy)] using (hq.past y hy).trans (Nat.lt_succ_self _)
    · simp

theorem slabStep_fifo (hn : n ≤ flaLinkedListNull) (hq : Fifo n q l) {op : SlabOp} (h : slabStep q op = some q') :
    ∃ l', Fifo n q' l' := by
  obtain ⟨hlegal, err, hcall⟩ := slabStep_eq_some h
  cases op with
  | acquire env objNlb =>
    obtain ⟨hbuf, hfits⟩ := hlegal
    obtain ⟨m, hcalc, hm⟩ := fitsSlab_iff.1 hfits
    simp only [slabCall] at hcall
    cases l with
    | nil =>
      rw [hq.list.acquire_nil] at hcall
      dsimp only at hcall
      rw [if_neg (by decide)] at hcall
      cases hcall
      exact ⟨[], hq⟩
    | cons x l =>
      obtain ⟨fs', hrun, -, hq'⟩ := hq.acquire (nslabs_lt hn) hcalc hm hbuf
      rw [hrun] at hcall
      dsimp only at hcall
      rw [if_pos rfl] at hcall
      cases hcall
      exact ⟨l, hq'⟩
  | release slab =>
    obtain ⟨fs', hrun, hq'⟩ := hq.release hn hlegal.1 hlegal.2
    simp only [slabCall, hrun, if_true] at hcall
    cases hcall
    exact ⟨l ++ [slab], hq'⟩
  | use slab header e =>
    cases hcall
    exact ⟨l, hq.use hlegal header e⟩

end Fifo

/-- **The free slabs are a FIFO queue.** From the free list of mkfs and an empty cache, in every state reached by
acquiring and releasing: the free list is well formed and holds the slabs that are not acquired; acquiring a slab for
`m ≥ 1` objects fails if and only if all slabs are acquired, and then changes nothing; otherwise it returns the slab that
has been free longest, linked nowhere, without objects and with a fresh freelist; and an acquired slab without objects is
always taken back. -/
theorem free_slabs_fifo {fs : Flexalloc} (hpos : 1 ≤ fs.nslabs) (hn : fs.nslabs ≤ 2 ^ 31 - 1)
    (hslabs : fs.slabs = flaMkfsSlabSgmtInit fs.geo) (hcache : ∀ s, (fs.cache s).state = .stale) {ops : List SlabOp}
    {q : SlabUse} (hrun : run slabStep (.start fs) ops = some q) :
    ∃ l, FreeList q.fs l ∧ (∀ x, x ∈ l ↔ x < fs.nslabs ∧ x ∉ q.taken) ∧
      (∀ (env : Env) objNlb m, env.bufAlloc = true → flaCalcObjsInSlab q.fs.vol objNlb = .ok m → 1 ≤ m →
        ∃ err slab fs', flaAcquireSlab env q.fs objNlb = .ok (err, slab, fs') ∧
          (err ≠ 0 ↔ ∀ x < fs.nslabs, x ∈ q.taken) ∧ (err ≠ 0 → fs' = q.fs) ∧
          (err = 0 → slab ∈ l ∧ Handed fs' slab m ∧ ∀ y ∈ l, y ≠ slab → q.since slab < q.since y)) ∧
      ∀ x ∈ q.taken, (q.fs.header x).refcount = 0 → (flaReleaseSlab q.fs x).1 = 0 := by
  have hnull : fs.nslabs ≤ flaLinkedListNull := hn
  obtain ⟨l, hq⟩ := run_inv (P := fun q => ∃ l, Fifo fs.nslabs q l) (fun s i t ⟨l, hs⟩ hst => slabStep_fifo hnull hs hst)
    ⟨_, start_fifo hpos hnull hslabs hcache⟩ hrun
  refine ⟨l, hq.list, hq.mem, fun env objNlb m hbuf hcalc hm => ?_, fun x hx hr => ?_⟩
  · cases l with
    | nil =>
      refine ⟨_, _, _, hq.list.acquire_nil env objNlb, ?_, fun _ => rfl, fun h => by cases h⟩
      refine ⟨fun _ x hx => ?_, fun _ => by decide⟩
      by_contra hnot
      exact List.not_mem_nil ((hq.mem x).2 ⟨hx, hnot⟩)
    | cons x l =>
      obtain ⟨fs', hacq, hh, -⟩ := hq.acquire (nslabs_lt hnull) hcalc hm hbuf
      have hx := (hq.mem x).1 List.mem_cons_self
      refine ⟨0, x, fs', hacq, ?_, fun h => absurd rfl h, fun _ => ⟨List.mem_cons_self, hh, fun y hy hyx => ?_⟩⟩
      · exact ⟨fun h => absurd rfl h, fun h => absurd (h x hx.1) hx.2⟩
      · exact (List.pairwise_cons.1 hq.order).1 y ((List.mem_cons.1 hy).resolve_left hyx)
  · obtain ⟨fs', hrel, -⟩ := hq.release hnull hx hr
    rw [hrel]

/-- two slabs are acquired and the first one is released -/
theorem free_slabs_fifo_small : ∃ q l, run slabStep (.start (flaMkfs smallDev smallGeo 0))
      [.acquire .reliable 1, .acquire .reliable 2, .release 0] = some q ∧ FreeList q.fs l ∧ q.taken = [1] ∧
    ∀ x, x ∈ l ↔ x < 7 ∧ x ∉ q.taken := by
  obtain ⟨q, hq, htaken⟩ := Option.map_eq_some_iff.1 (show (run slabStep (.start (flaMkfs smallDev smallGeo 0))
    [.acquire .reliable 1, .acquire .reliable 2, .release 0]).map (·.taken) = some [1] by decide +kernel)
  obtain ⟨l, hl, hmem, -⟩ := free_slabs_fifo (by decide +kernel) (by decide +kernel) rfl (fun _ => rfl) hq
  exact ⟨q, l, hq, hl, htaken, hmem⟩

end FlexAlloc
