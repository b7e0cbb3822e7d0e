/-
The free queue and the three lists of one pool, over the same slab headers.

`L` gives the sequence of each: `L none` is the free queue, `L (some k)` the list of kind `k`. `Chains` says that the
headers, the queue's ends and the list heads represent `L`, and that no slab is in two of the sequences. A slab that is
in none of them is in flight (or lost).

- `Chains.remove`, `Chains.prepend`, `Chains.takeHead`, `Chains.refill`: the list operations on `L`.
- `moveSlab_spec`: a slab changes from one list to another.
- `releaseSlab_spec`, `removeAll_spec`: slabs without objects go back to the free queue.
- `removeAll_refused`: a list whose first slab has objects is refused, with its head already moved on.
-/
import FlexAlloc.Objects
import FlexAlloc.ListOps

namespace FlexAlloc

open FlexAlloc.Core Function

/-- sequences of slab ids, with no slab in two of them -/
structure Split (nslabs : ℕ) (L : Option SlabKind → List ℕ) : Prop where
  lt : ∀ q, ∀ x ∈ L q, x < nslabs
  nodup : ∀ q, (L q).Nodup
  disj : ∀ q q' x, x ∈ L q → x ∈ L q' → q = q'

/-- the headers, the ends of the free queue and the list heads represent `L` -/
structure Chains (nslabs : ℕ) (sl : Slabs) (heads : SlabKind → ℕ) (L : Option SlabKind → List ℕ) : Prop extends
    Split nslabs L where
  queue : Queue sl.headers sl.fslabHead sl.fslabTail (L none)
  linked : ∀ k, Linked sl.headers flaLinkedListNull (heads k) (L (some k))

/-- pool fields and reference counts are the same -/
def SameMarks (hd hd' : ℕ → SlabHeader) : Prop :=
  ∀ x, (hd' x).pool = (hd x).pool ∧ (hd' x).refcount = (hd x).refcount

theorem LinksOnly.sameMarks {l : List ℕ} {hd hd' : ℕ → SlabHeader} (h : LinksOnly l hd hd') : SameMarks hd hd' :=
  fun x => ⟨h.pool x, h.refcount x⟩

theorem SameMarks.trans {a b c : ℕ → SlabHeader} (h : SameMarks a b) (h' : SameMarks b c) : SameMarks a c :=
  fun x => ⟨(h' x).1.trans (h x).1, (h' x).2.trans (h x).2⟩

section Sequences

variable {nslabs : ℕ} {sl : Slabs} {heads : SlabKind → ℕ} {L : Option SlabKind → List ℕ} {hd' : ℕ → SlabHeader}
variable {l : List ℕ} {x : ℕ}

theorem Split.replace (hs : Split nslabs L) {q : Option SlabKind} (hlt : ∀ y ∈ l, y < nslabs) (hnd : l.Nodup)
    (hown : ∀ y ∈ l, ∀ q', y ∈ L q' → q' = q) : Split nslabs (update L q l) := by
  refine ⟨fun q' y hy => ?_, fun q' => ?_, fun q₁ q₂ y h₁ h₂ => ?_⟩
  · by_cases h : q' = q
    · subst h; rw [update_self] at hy; exact hlt y hy
    · rw [update_of_ne h] at hy; exact hs.lt q' y hy
  · by_cases h : q' = q
    · subst h; rw [update_self]; exact hnd
    · rw [update_of_ne h]; exact hs.nodup q'
  · by_cases h1 : q₁ = q <;> by_cases h2 : q₂ = q
    · exact h1.trans h2.symm
    · rw [h1, update_self] at h₁
      rw [update_of_ne h2] at h₂
      exact absurd (hown y h₁ q₂ h₂) h2
    · rw [update_of_ne h1] at h₁
      rw [h2, update_self] at h₂
      exact absurd (hown y h₂ q₁ h₁) h1
    · rw [update_of_ne h1] at h₁
      rw [update_of_ne h2] at h₂
      exact hs.disj q₁ q₂ y h₁ h₂

theorem apart_of_own {q q' : Option SlabKind} (hq : q' ≠ q) (hown : ∀ y ∈ l, ∀ q', y ∈ L q' → q' = q) :
    ∀ y ∈ L q', y ∉ l := fun y hy hl => hq (hown y hl q' hy)

theorem Chains.replaceList (hc : Chains nslabs sl heads L) {k : SlabKind} {h' : ℕ} (hf : LinksOnly l sl.headers hd')
    (hlt : ∀ y ∈ l, y < nslabs) (hnd : l.Nodup) (hown : ∀ y ∈ l, ∀ q', y ∈ L q' → q' = some k)
    (hnew : Linked hd' flaLinkedListNull h' l) :
    Chains nslabs { sl with headers := hd' } (update heads k h') (update L (some k) l) := by
  refine ⟨hc.toSplit.replace hlt hnd hown, ?_, fun k' => ?_⟩
  · rw [update_of_ne (by simp)]
    exact hc.queue.frame hf (apart_of_own (by simp) hown)
  · by_cases h : k' = k
    · subst h; rw [update_self, update_self]; exact hnew
    · rw [update_of_ne h, update_of_ne (by simpa using h)]
      exact (hc.linked k').frame hf (apart_of_own (by simpa using h) hown)

theorem Chains.replaceFree (hc : Chains nslabs sl heads L) {head' tail' num' : ℕ} (hf : LinksOnly l sl.headers hd')
    (hlt : ∀ y ∈ l, y < nslabs) (hnd : l.Nodup) (hown : ∀ y ∈ l, ∀ q', y ∈ L q' → q' = none)
    (hnew : Queue hd' head' tail' l) : Chains nslabs ⟨hd', num', head', tail'⟩ heads (update L none l) := by
  refine ⟨hc.toSplit.replace hlt hnd hown, ?_, fun k => ?_⟩
  · rw [update_self]; exact hnew
  · rw [update_of_ne (by simp)]
    exact (hc.linked k).frame hf (apart_of_own (by simp) hown)

/-- what happens to headers in flight does not matter -/
theorem Chains.congr (hc : Chains nslabs sl heads L) {num' : ℕ}
    (h : ∀ q, ∀ y ∈ L q, (hd' y).next = (sl.headers y).next ∧ (hd' y).prev = (sl.headers y).prev) :
    Chains nslabs ⟨hd', num', sl.fslabHead, sl.fslabTail⟩ heads L := by
  obtain ⟨p, hp⟩ := hc.queue.linked
  exact ⟨hc.toSplit, ⟨⟨p, Seg.congr hp (fun y hy => (h none y hy).1) (fun y hy => (h none y hy).2)⟩, hc.queue.tail_eq⟩,
    fun k => Seg.congr (hc.linked k) (fun y hy => (h (some k) y hy).1) (fun y hy => (h (some k) y hy).2)⟩

variable (hn : nslabs ≤ flaLinkedListNull)

include hn

/-- **Take a slab out of a list.** -/
theorem Chains.remove (hc : Chains nslabs sl heads L) {k : SlabKind} (hx : x ∈ L (some k)) :
    ∃ hd' h', flaHdllRemove nslabs sl.headers x (heads k) = (0, hd', h') ∧ SameMarks sl.headers hd' ∧
      Chains nslabs { sl with headers := hd' } (update heads k h') (update L (some k) ((L (some k)).erase x)) := by
  obtain ⟨hd', h', hrun, hlinked, hf⟩ := remove_spec hn (hc.linked k) (hc.lt _) (hc.nodup _) hx
  refine ⟨hd', h', hrun, hf.sameMarks, hc.replaceList hf (fun y hy => hc.lt _ y (List.mem_of_mem_erase hy))
    ((hc.nodup _).erase x) (fun y hy q' hq' => hc.disj q' _ y hq' (List.mem_of_mem_erase hy)) hlinked⟩

/-- **Put a slab in front of a list.** -/
theorem Chains.prepend (hc : Chains nslabs sl heads L) (k : SlabKind) (hx : x < nslabs) (hnew : ∀ q, x ∉ L q) :
    ∃ hd', flaHdllPrepend nslabs sl.headers x (heads k) = (0, hd', x) ∧ SameMarks sl.headers hd' ∧
      Chains nslabs { sl with headers := hd' } (update heads k x) (update L (some k) (x :: L (some k))) := by
  obtain ⟨hd', hrun, hlinked, hf⟩ := prepend_spec hn (hc.linked k) (hc.lt _) (hc.nodup _) hx (hnew _)
  refine ⟨hd', hrun, hf.sameMarks, hc.replaceList hf (fun y hy => ?_) (List.nodup_cons.2 ⟨hnew _, hc.nodup _⟩)
    (fun y hy q' hq' => ?_) hlinked⟩
  · rcases List.mem_cons.1 hy with rfl | hy
    · exact hx
    · exact hc.lt _ y hy
  · rcases List.mem_cons.1 hy with rfl | hy
    · exact absurd hq' (hnew q')
    · exact hc.disj q' _ y hq' hy

/-- **Take the head of the free queue.** -/
theorem Chains.takeHead (hc : Chains nslabs sl heads L) (hF : L none = x :: l) (num' : ℕ) :
    ∃ hd' head' tail', flaEdllRemoveHead nslabs sl.headers sl.fslabHead sl.fslabTail = (0, hd', head', tail', x) ∧
      SameMarks sl.headers hd' ∧ Chains nslabs ⟨hd', num', head', tail'⟩ heads (update L none l) := by
  have hq := hc.queue
  have hlt := hc.lt none
  have hnd := hc.nodup none
  have hdisj : ∀ y ∈ x :: l, ∀ q', y ∈ L q' → q' = none := fun y hy q' hq' => hc.disj q' none y hq' (hF ▸ hy)
  rw [hF] at hq hlt hnd
  obtain ⟨hd', head', tail', hrun, hqueue, hf⟩ := removeHead_spec (nslabs_lt hn) hq hlt hnd
  exact ⟨hd', head', tail', hrun, hf.sameMarks, hc.replaceFree hf (fun y hy => hlt y (List.mem_cons_of_mem _ hy))
    (List.nodup_cons.1 hnd).2 (fun y hy => hdisj y (List.mem_cons_of_mem _ hy)) hqueue⟩

omit hn in
/-- **Put slabs in flight behind the free ones.** -/
theorem Chains.refill (hc : Chains nslabs sl heads L) {sl' : Slabs} {p : ℕ} (hF : FreeFrom nslabs sl' p (L none ++ l))
    (hf : LinksOnly (L none ++ l) sl.headers sl'.headers) (hnew : ∀ y ∈ l, ∀ q, y ∉ L q) :
    Chains nslabs sl' heads (update L none (L none ++ l)) := by
  refine hc.replaceFree hf hF.lt hF.nodup (fun y hy q' hq' => ?_) hF.queue
  rcases List.mem_append.1 hy with hy | hy
  · exact hc.disj q' _ y hq' hy
  · exact absurd hq' (hnew y hy q')

omit hn in
theorem Chains.exists_free (hc : Chains nslabs sl heads L) : ∃ p, FreeFrom nslabs sl p (L none) :=
  hc.queue.exists_free (hc.nodup none) (hc.lt none)

end Sequences

/-! ## The lists of a pool entry -/

/-- an entry without its list heads -/
def PoolEntry.rest (e : PoolEntry) : PoolEntry := { e with emptySlabs := 0, fullSlabs := 0, partialSlabs := 0 }

@[simp] theorem setHead_rest (e : PoolEntry) (k : SlabKind) (v : ℕ) : (e.setHead k v).rest = e.rest := by
  cases k <;> rfl

@[simp] theorem setHead_head (e : PoolEntry) (k : SlabKind) (v : ℕ) : (e.setHead k v).head = update e.head k v := by
  funext k'
  cases k <;> cases k' <;> rfl

theorem slabNobj_of_rest {e e' : PoolEntry} (h : e'.rest = e.rest) : e'.slabNobj = e.slabNobj := by
  show e'.rest.slabNobj = e.rest.slabNobj
  rw [h]

theorem objNlb_of_rest {e e' : PoolEntry} (h : e'.rest = e.rest) : e'.objNlb = e.objNlb := by
  show e'.rest.objNlb = e.rest.objNlb
  rw [h]

theorem name_of_rest {e e' : PoolEntry} (h : e'.rest = e.rest) : e'.name = e.name := by
  show e'.rest.name = e.rest.name
  rw [h]

/-- the system with one pool entry and the slab headers replaced -/
def Flexalloc.withLists (fs : Flexalloc) (ndx : ℕ) (e : PoolEntry) (hd : ℕ → SlabHeader) : Flexalloc :=
  { fs.setEntry ndx e with slabs := { fs.slabs with headers := hd } }

/-- only slabs, the slab cache and the list heads of pool `ndx` differ -/
def SlabsOnly (ndx : ℕ) (fs fs' : Flexalloc) : Prop :=
  ∃ e, e.rest = (fs.pools.entries ndx).rest ∧ fs' = { fs.setEntry ndx e with slabs := fs'.slabs, cache := fs'.cache }

section SlabsOnly

variable {fs fs' fs'' : Flexalloc} {ndx : ℕ}

theorem SlabsOnly.of_slabs (ndx : ℕ) (fs : Flexalloc) (sl : Slabs) (c : ℕ → CacheElem) :
    SlabsOnly ndx fs { fs with slabs := sl, cache := c } :=
  ⟨_, rfl, by simp [Flexalloc.setEntry]⟩

theorem SlabsOnly.refl (ndx : ℕ) (fs : Flexalloc) : SlabsOnly ndx fs fs := .of_slabs ndx fs fs.slabs fs.cache

theorem SlabsOnly.withLists {e : PoolEntry} (he : e.rest = (fs.pools.entries ndx).rest) (hd : ℕ → SlabHeader) :
    SlabsOnly ndx fs (fs.withLists ndx e hd) := ⟨e, he, rfl⟩

theorem SlabsOnly.vol (h : SlabsOnly ndx fs fs') : fs'.vol = fs.vol := by
  obtain ⟨e, -, hfs⟩ := h
  rw [hfs]
  rfl

theorem SlabsOnly.devs (h : SlabsOnly ndx fs fs') : SameDevs fs fs' := by
  obtain ⟨e, -, hfs⟩ := h
  rw [hfs]
  exact ⟨rfl, rfl⟩

theorem SlabsOnly.entries_rest (h : SlabsOnly ndx fs fs') (i : ℕ) :
    (fs'.pools.entries i).rest = (fs.pools.entries i).rest := by
  obtain ⟨e, he, hfs⟩ := h
  rw [hfs]
  by_cases hi : i = ndx
  · subst hi; simp [Flexalloc.setEntry, he]
  · simp [Flexalloc.setEntry, update_of_ne hi]

theorem SlabsOnly.entries_ne (h : SlabsOnly ndx fs fs') {i : ℕ} (hi : i ≠ ndx) :
    fs'.pools.entries i = fs.pools.entries i := by
  obtain ⟨e, he, hfs⟩ := h
  rw [hfs]
  simp [Flexalloc.setEntry, update_of_ne hi]

theorem SlabsOnly.trans (h : SlabsOnly ndx fs fs') (h' : SlabsOnly ndx fs' fs'') : SlabsOnly ndx fs fs'' := by
  have hrest := h.entries_rest ndx
  obtain ⟨e, he, hfs'⟩ := h
  obtain ⟨e', he', hfs''⟩ := h'
  refine ⟨e', he'.trans hrest, ?_⟩
  rw [hfs'', hfs']
  simp [Flexalloc.setEntry]

end SlabsOnly

theorem onList_eq (fs : Flexalloc) (ndx : ℕ) (k : SlabKind) (op : (ℕ → SlabHeader) → ℕ → ℤ × (ℕ → SlabHeader) × ℕ)
    {r : ℤ} {hd : ℕ → SlabHeader} {h : ℕ} (hop : op fs.slabs.headers ((fs.pools.entries ndx).head k) = (r, hd, h)) :
    fs.onList ndx k op = (r, fs.withLists ndx ((fs.pools.entries ndx).setHead k h) hd) := by
  simp only [Flexalloc.onList, hop, Flexalloc.withLists]

theorem onList_inv {fs fs' : Flexalloc} {ndx : ℕ} {k : SlabKind} {op : (ℕ → SlabHeader) → ℕ → ℤ × (ℕ → SlabHeader) × ℕ}
    {err : ℤ} (h : fs.onList ndx k op = (err, fs')) :
    ∃ hd head, op fs.slabs.headers ((fs.pools.entries ndx).head k) = (err, hd, head) ∧ fs' =
      { fs.setEntry ndx ((fs.pools.entries ndx).setHead k head) with slabs := { fs.slabs with headers := hd } } := by
  unfold Flexalloc.onList at h
  cases hrun : op fs.slabs.headers ((fs.pools.entries ndx).head k) with
  | mk err₁ r =>
    rw [hrun] at h
    cases h
    exact ⟨r.1, r.2, rfl, rfl⟩

@[simp] theorem withLists_withLists (fs : Flexalloc) (ndx : ℕ) (e e' : PoolEntry) (hd hd' : ℕ → SlabHeader) :
    (fs.withLists ndx e hd).withLists ndx e' hd' = fs.withLists ndx e' hd' := by
  simp [Flexalloc.withLists, Flexalloc.setEntry]

/-- slab `x` moved from the list of kind `k` to the front of the list of kind `k'` -/
def moved (L : Option SlabKind → List ℕ) (k k' : SlabKind) (x : ℕ) : Option SlabKind → List ℕ :=
  let L₁ := update L (some k) ((L (some k)).erase x)
  update L₁ (some k') (x :: L₁ (some k'))

section Lists

variable {nslabs : ℕ} {L : Option SlabKind → List ℕ} {k : SlabKind} {x : ℕ}

theorem mem_erased (hs : Split nslabs L) (hx : x ∈ L (some k)) (q : Option SlabKind) (y : ℕ) :
    y ∈ update L (some k) ((L (some k)).erase x) q ↔ y ≠ x ∧ y ∈ L q := by
  by_cases hq : q = some k
  · subst hq
    rw [update_self, (hs.nodup _).mem_erase_iff]
  · rw [update_of_ne hq]
    exact ⟨fun hy => ⟨fun h => hq (hs.disj q _ x (h ▸ hy) hx), hy⟩, fun hy => hy.2⟩

theorem mem_moved (hs : Split nslabs L) (hx : x ∈ L (some k)) (k' : SlabKind) (q : Option SlabKind) (y : ℕ) :
    y ∈ moved L k k' x q ↔ (y = x ∧ q = some k') ∨ (y ≠ x ∧ y ∈ L q) := by
  unfold moved
  by_cases hq : q = some k'
  · subst hq
    rw [update_self, List.mem_cons, mem_erased hs hx]
    simp
  · rw [update_of_ne hq, mem_erased hs hx]
    simp [hq]

theorem moved_none (L : Option SlabKind → List ℕ) (k k' : SlabKind) (x : ℕ) : moved L k k' x none = L none := by
  simp [moved]

variable {fs : Flexalloc} {ndx : ℕ}

theorem moveSlab_eq {k k' : SlabKind} {h₁ : ℕ} {hd₁ hd₂ : ℕ → SlabHeader}
    (hrun₁ : flaHdllRemove fs.nslabs fs.slabs.headers x ((fs.pools.entries ndx).head k) = (0, hd₁, h₁))
    (hrun₂ : flaHdllPrepend fs.nslabs hd₁ x (((fs.pools.entries ndx).setHead k h₁).head k') = (0, hd₂, x)) :
    moveSlab fs x (ndx, k) (ndx, k') =
      (0, fs.withLists ndx (((fs.pools.entries ndx).setHead k h₁).setHead k' x) hd₂) := by
  have hop : (fs.onList ndx k fun hd head => flaHdllRemove fs.nslabs hd x head) = _ := onList_eq fs ndx k _ hrun₁
  unfold moveSlab
  simp only [hop, ne_eq, not_true_eq_false, if_false]
  set fs₁ := fs.withLists ndx ((fs.pools.entries ndx).setHead k h₁) hd₁ with hfs₁
  have hent : fs₁.pools.entries ndx = (fs.pools.entries ndx).setHead k h₁ := by
    simp [hfs₁, Flexalloc.withLists, Flexalloc.setEntry]
  have hrun₂' : flaHdllPrepend fs₁.nslabs fs₁.slabs.headers x ((fs₁.pools.entries ndx).head k') = (0, hd₂, x) := by
    rw [hent]
    exact hrun₂
  rw [onList_eq fs₁ ndx k' (fun hd head => flaHdllPrepend fs₁.nslabs hd x head) hrun₂', hent, hfs₁, withLists_withLists]

/-- **Moving a slab** between two lists of a pool. -/
theorem moveSlab_spec (hn : fs.nslabs ≤ flaLinkedListNull)
    (hc : Chains fs.nslabs fs.slabs (fs.pools.entries ndx).head L) (hx : x ∈ L (some k)) (k' : SlabKind) :
    ∃ e hd, moveSlab fs x (ndx, k) (ndx, k') = (0, fs.withLists ndx e hd) ∧ e.rest = (fs.pools.entries ndx).rest ∧
      SameMarks fs.slabs.headers hd ∧ Chains fs.nslabs { fs.slabs with headers := hd } e.head (moved L k k' x) := by
  obtain ⟨hd₁, h₁, hrun₁, hm₁, hc₁⟩ := hc.remove hn hx
  rw [← setHead_head] at hc₁
  have hnew : ∀ q, x ∉ update L (some k) ((L (some k)).erase x) q := fun q hq =>
    ((mem_erased hc.toSplit hx q x).1 hq).1 rfl
  obtain ⟨hd₂, hrun₂, hm₂, hc₂⟩ := hc₁.prepend hn k' (hc.lt _ x hx) hnew
  rw [← setHead_head] at hc₂
  refine ⟨_, hd₂, ?_, ?_, hm₁.trans hm₂, hc₂⟩
  · exact moveSlab_eq hrun₁ hrun₂
  · simp

/-! ## Releasing slabs -/

/-- **Releasing a slab without objects.** -/
theorem releaseSlab_spec {heads : SlabKind → ℕ} (hn : fs.nslabs ≤ flaLinkedListNull)
    (hc : Chains fs.nslabs fs.slabs heads L) (hx : x < fs.nslabs) (hnew : ∀ q, x ∉ L q)
    (hr : (fs.header x).refcount = 0) :
    ∃ hd head, flaReleaseSlab fs x = (0, { flaSlabCacheElemDrop fs x with
        slabs := ⟨hd, u32 (fs.slabs.fslabNum + 1), head, x⟩ }) ∧
      LinksOnly (L none ++ [x]) fs.slabs.headers hd ∧
      Chains fs.nslabs ⟨hd, u32 (fs.slabs.fslabNum + 1), head, x⟩ heads (update L none (L none ++ [x])) := by
  obtain ⟨p, hF⟩ := hc.exists_free
  obtain ⟨hd, head, hrun, hf, hF'⟩ := hF.release hn hx (hnew none) hr
  refine ⟨hd, head, hrun, hf, hc.refill hF' hf fun y hy q hq => ?_⟩
  rw [List.mem_singleton.1 hy] at hq
  exact hnew q hq

/-- what a walk over slabs without objects leaves: all of them at the end of the free queue, none of them cached -/
structure Released (fs fs' : Flexalloc) (heads : SlabKind → ℕ) (L : Option SlabKind → List ℕ) (l : List ℕ) : Prop where
  same : fs' = { fs with slabs := fs'.slabs, cache := fs'.cache }
  marks : SameMarks fs.slabs.headers fs'.slabs.headers
  chains : Chains fs.nslabs fs'.slabs heads (update L none (L none ++ l))
  num : fs.slabs.fslabNum + l.length < 2 ^ 32 → fs'.slabs.fslabNum = fs.slabs.fslabNum + l.length
  cache : ∀ y, fs'.cache y = if y ∈ l then ⟨.stale, none⟩ else fs.cache y

/-- **The loop of `fla_hdll_remove_all`**, on a list that has been detached from `L`: when no slab of it has objects, all
of them are released. -/
theorem removeAllLoop_spec {heads : SlabKind → ℕ} (l : List ℕ) {n p head : ℕ} (hn : fs.nslabs ≤ flaLinkedListNull)
    (hc : Chains fs.nslabs fs.slabs heads L) (hl : Linked fs.slabs.headers p head l) (hlt : ∀ y ∈ l, y < fs.nslabs)
    (hnd : l.Nodup) (hnew : ∀ y ∈ l, ∀ q, y ∉ L q) (hr : ∀ y ∈ l, (fs.header y).refcount = 0) (hfuel : l.length ≤ n) :
    ∃ fs', hdllRemoveAllLoop n head fs = (0, flaLinkedListNull, fs') ∧ Released fs fs' heads L l := by
  obtain ⟨q, hF⟩ := hc.exists_free
  obtain ⟨fs', hrun, hR⟩ := removeAllLoop_released hn l hF hl hlt hnd (fun y hy => hnew y hy none) hr hfuel
  exact ⟨fs', hrun, hR.same, hR.links.sameMarks, hc.refill hR.free hR.links hnew, hR.num, hR.cache⟩

/-- a list whose first slab has objects is refused, with the head already on its successor -/
theorem removeAllLoop_refused {n head : ℕ} (hn : fs.nslabs ≤ flaLinkedListNull) (hh : head < fs.nslabs)
    (hr : (fs.header head).refcount ≠ 0) : hdllRemoveAllLoop (n + 1) head fs = (1, (fs.header head).next, fs) := by
  unfold hdllRemoveAllLoop
  rw [if_neg (lt_null hn hh), rangeCheck_of_lt (nslabs_lt hn) hh, if_neg Bool.false_ne_true]
  simp only [flaReleaseSlab, if_pos hr]
  rfl

end Lists

/-! ## Emptying the lists of a pool -/

/-- the slabs of some lists of pool `ndx` have gone to the free queue -/
structure Cleared (fs fs' : Flexalloc) (ndx : ℕ) (L L' : Option SlabKind → List ℕ) : Prop where
  same : SlabsOnly ndx fs fs'
  marks : SameMarks fs.slabs.headers fs'.slabs.headers
  chains : Chains fs.nslabs fs'.slabs (fs'.pools.entries ndx).head L'
  num : fs.slabs.fslabNum = (L none).length → fs'.slabs.fslabNum = (L' none).length
  free : ∀ y ∈ L none, y ∈ L' none
  all : ∀ y, (∃ q, y ∈ L' q) ↔ ∃ q, y ∈ L q
  cached : ∀ y, y ∈ L none ∨ y ∉ L' none → fs'.cache y = fs.cache y
  dropped : ∀ y ∈ L' none, y ∉ L none → fs'.cache y = ⟨.stale, none⟩

section Clear

variable {fs fs' fs'' : Flexalloc} {ndx : ℕ} {L L' L'' : Option SlabKind → List ℕ} {k : SlabKind}

theorem Cleared.refl (hc : Chains fs.nslabs fs.slabs (fs.pools.entries ndx).head L) : Cleared fs fs ndx L L where
  same := .refl ndx fs
  marks _ := ⟨rfl, rfl⟩
  chains := hc
  num := id
  free _ h := h
  all _ := Iff.rfl
  cached _ _ := rfl
  dropped _ h h' := absurd h h'

theorem Cleared.trans (h : Cleared fs fs' ndx L L') (h' : Cleared fs' fs'' ndx L' L'') : Cleared fs fs'' ndx L L'' where
  same := h.same.trans h'.same
  marks := h.marks.trans h'.marks
  chains := by
    have hvol : fs'.nslabs = fs.nslabs := by rw [Flexalloc.nslabs, h.same.vol]
    exact hvol ▸ h'.chains
  num hn := h'.num (h.num hn)
  free y hy := h'.free y (h.free y hy)
  all y := (h'.all y).trans (h.all y)
  cached y hy := by
    rcases hy with hy | hy
    · exact (h'.cached y (Or.inl (h.free y hy))).trans (h.cached y (Or.inl hy))
    · exact (h'.cached y (Or.inr hy)).trans (h.cached y (Or.inr fun hm => hy (h'.free y hm)))
  dropped y hy hny := by
    by_cases hm : y ∈ L' none
    · exact (h'.cached y (Or.inl hm)).trans (h.dropped y hm hny)
    · exact h'.dropped y hy hm

theorem Chains.detach {nslabs : ℕ} {sl : Slabs} {heads : SlabKind → ℕ} (hc : Chains nslabs sl heads L) (k : SlabKind) :
    Chains nslabs sl (update heads k flaLinkedListNull) (update L (some k) []) :=
  hc.replaceList (LinksOnly.refl _ _) (by simp) List.nodup_nil (by simp) rfl

/-- **`fla_hdll_remove_all`** on a list without objects -/
theorem removeAll_spec (hn : fs.nslabs ≤ flaLinkedListNull)
    (hc : Chains fs.nslabs fs.slabs (fs.pools.entries ndx).head L)
    (hr : ∀ y ∈ L (some k), (fs.header y).refcount = 0) :
    ∃ fs', flaHdllRemoveAll fs ndx k = (0, fs') ∧
      Cleared fs fs' ndx L (update (update L (some k) []) none (L none ++ L (some k))) := by
  have hnew : ∀ y ∈ L (some k), ∀ q, y ∉ update L (some k) [] q := fun y hy q hq => by
    by_cases h : q = some k
    · subst h; rw [update_self] at hq; cases hq
    · rw [update_of_ne h] at hq
      exact h (hc.disj q _ y hq hy)
  obtain ⟨fs₁, hrun, hR⟩ := removeAllLoop_spec (L (some k)) hn (hc.detach k) (hc.linked k) (hc.lt _) (hc.nodup _) hnew hr
    (length_le_of_lt (hc.nodup _) (hc.lt _))
  have hnone : update L (some k) [] none = L none := update_of_ne (by simp) _ _
  have hent : fs₁.pools = fs.pools := by rw [hR.same]
  have hchains := hR.chains
  rw [hnone] at hchains
  refine ⟨fs₁.setEntry ndx ((fs.pools.entries ndx).setHead k flaLinkedListNull), ?_, ⟨⟨_, setHead_rest _ k flaLinkedListNull, ?_⟩,
    hR.marks, ?_, fun hnum => ?_, fun y hy => ?_, fun y => ?_, fun y hy => ?_, fun y hy hny => ?_⟩⟩
  · simp only [flaHdllRemoveAll, hrun, hent]
  · rw [hR.same]
    rfl
  · have : (fs₁.setEntry ndx ((fs.pools.entries ndx).setHead k flaLinkedListNull)).pools.entries ndx =
        (fs.pools.entries ndx).setHead k flaLinkedListNull := by simp [Flexalloc.setEntry]
    rw [this, setHead_head]
    exact hchains
  · have hlen := length_le_of_lt (hchains.nodup none) (hchains.lt none)
    have h32 := nslabs_lt hn
    rw [update_self, List.length_append] at hlen
    rw [update_self, List.length_append, ← hnum]
    exact hR.num (by omega)
  · rw [update_self]
    exact List.mem_append_left _ hy
  · constructor
    · rintro ⟨q, hq⟩
      by_cases hqn : q = none
      · subst hqn
        rw [update_self] at hq
        rcases List.mem_append.1 hq with h | h
        · exact ⟨none, h⟩
        · exact ⟨some k, h⟩
      · rw [update_of_ne hqn] at hq
        by_cases hqk : q = some k
        · subst hqk; rw [update_self] at hq; cases hq
        · rw [update_of_ne hqk] at hq; exact ⟨q, hq⟩
    · rintro ⟨q, hq⟩
      by_cases hqn : q = none ∨ q = some k
      · refine ⟨none, ?_⟩
        rw [update_self]
        rcases hqn with rfl | rfl
        · exact List.mem_append_left _ hq
        · exact List.mem_append_right _ hq
      · rw [not_or] at hqn
        exact ⟨q, by rw [update_of_ne hqn.1, update_of_ne hqn.2]; exact hq⟩
  · have hnot : y ∉ L (some k) := by
      rcases hy with hy | hy
      · exact fun h => absurd (hc.disj _ _ y hy h) (by simp)
      · rw [update_self] at hy
        exact fun h => hy (List.mem_append_right _ h)
    exact (hR.cache y).trans (if_neg hnot)
  · rw [update_self] at hy
    rcases List.mem_append.1 hy with h | h
    · exact absurd h hny
    · exact (hR.cache y).trans (if_pos h)

/-- **`fla_pool_release_all_slabs`** on a pool without objects -/
theorem releaseAll_spec (hn : fs.nslabs ≤ flaLinkedListNull)
    (hc : Chains fs.nslabs fs.slabs (fs.pools.entries ndx).head L)
    (hr : ∀ k, ∀ y ∈ L (some k), (fs.header y).refcount = 0) :
    ∃ fs' L', flaPoolReleaseAllSlabs fs ndx = (0, fs') ∧ Cleared fs fs' ndx L L' ∧ ∀ k, L' (some k) = [] := by
  obtain ⟨fs₁, hrun₁, h₁⟩ := removeAll_spec hn hc (hr .empty)
  have hn₁ : fs₁.nslabs = fs.nslabs := by rw [Flexalloc.nslabs, h₁.same.vol]
  have hc₁ := h₁.chains
  rw [← hn₁] at hc₁
  have hr₁ : ∀ k y, y ∈ L (some k) → (fs₁.header y).refcount = 0 := fun k y hy =>
    (h₁.marks y).2.trans (hr k y hy)
  obtain ⟨fs₂, hrun₂, h₂⟩ := removeAll_spec (k := .full) (hn₁ ▸ hn) hc₁ fun y hy => hr₁ .full y (by simpa using hy)
  have hn₂ : fs₂.nslabs = fs.nslabs := by rw [Flexalloc.nslabs, h₂.same.vol]; exact hn₁
  have hc₂ := h₂.chains
  rw [hn₁, ← hn₂] at hc₂
  obtain ⟨fs₃, hrun₃, h₃⟩ := removeAll_spec (k := .part) (hn₂ ▸ hn) hc₂ fun y hy =>
    (h₂.marks y).2.trans (hr₁ .part y (by simpa using hy))
  refine ⟨fs₃, _, ?_, (h₁.trans h₂).trans h₃, fun k => ?_⟩
  · simp only [flaPoolReleaseAllSlabs, hrun₁, hrun₂, hrun₃, ne_eq, not_true_eq_false, if_false]
  · cases k <;> simp

theorem removeAll_null (h : (fs.pools.entries ndx).head k = flaLinkedListNull) : flaHdllRemoveAll fs ndx k = (0, fs) := by
  have hloop : ∀ n, hdllRemoveAllLoop n flaLinkedListNull fs = (0, flaLinkedListNull, fs) := fun n => by
    cases n <;> simp [hdllRemoveAllLoop]
  have hself : (fs.pools.entries ndx).setHead k flaLinkedListNull = fs.pools.entries ndx := by
    cases k <;> simp only [PoolEntry.head] at h <;> simp only [PoolEntry.setHead, ← h]
  simp only [flaHdllRemoveAll, h, hloop, hself]
  simp [Flexalloc.setEntry]

theorem releaseAll_null (h : ∀ k, (fs.pools.entries ndx).head k = flaLinkedListNull) :
    flaPoolReleaseAllSlabs fs ndx = (0, fs) := by
  simp only [flaPoolReleaseAllSlabs, removeAll_null (h _), ne_eq, not_true_eq_false, if_false]

/-- the first slab of a list has objects: refused, and the head has moved on -/
theorem removeAll_first (hn : fs.nslabs ≤ flaLinkedListNull) {x : ℕ} (hhead : (fs.pools.entries ndx).head k = x)
    (hx : x < fs.nslabs) (hr : (fs.header x).refcount ≠ 0) :
    flaHdllRemoveAll fs ndx k = (1, fs.setEntry ndx ((fs.pools.entries ndx).setHead k (fs.header x).next)) := by
  obtain ⟨n, hfuel⟩ : ∃ n, fs.nslabs = n + 1 := ⟨fs.nslabs - 1, by omega⟩
  have hloop : hdllRemoveAllLoop fs.nslabs ((fs.pools.entries ndx).head k) fs = (1, (fs.header x).next, fs) := by
    rw [hhead, hfuel]
    exact removeAllLoop_refused hn hx hr
  simp only [flaHdllRemoveAll, hloop]

theorem setHead_entry (fs : Flexalloc) (ndx : ℕ) (k : SlabKind) (x : ℕ) :
    ((fs.setEntry ndx ((fs.pools.entries ndx).setHead k x)).pools.entries ndx).head k = x := by
  simp [Flexalloc.setEntry, setHead_head]

/-- in a well-formed list the head that has moved on is another one -/
theorem removeAll_refused (hn : fs.nslabs ≤ flaLinkedListNull)
    (hc : Chains fs.nslabs fs.slabs (fs.pools.entries ndx).head L) {x : ℕ} {l : List ℕ} (hL : L (some k) = x :: l)
    (hr : (fs.header x).refcount ≠ 0) :
    ∃ fs', flaHdllRemoveAll fs ndx k = (1, fs') ∧
      (fs'.pools.entries ndx).head k ≠ (fs.pools.entries ndx).head k := by
  have hlinked := hc.linked k
  have hlt := hc.lt (some k)
  have hnd := hc.nodup (some k)
  rw [hL] at hlinked hlt hnd
  obtain ⟨hhead, -, hrest⟩ := hlinked
  have hx : x < fs.nslabs := hlt x List.mem_cons_self
  refine ⟨_, removeAll_first hn hhead hx hr, ?_⟩
  rw [setHead_entry, hhead]
  -- the successor of the first slab is another one, or the end
  have hnext : (fs.header x).next = l.headD flaLinkedListNull := Linked.head_eq hrest
  rw [hnext]
  cases l with
  | nil => exact (lt_null hn hx).symm
  | cons y l =>
    rintro rfl
    exact (List.nodup_cons.1 hnd).1 List.mem_cons_self

/-- **`fla_pool_release_all_slabs` on a pool with objects**: refused, and a list head is not what it was. -/
theorem releaseAll_refused (hn : fs.nslabs ≤ flaLinkedListNull)
    (hc : Chains fs.nslabs fs.slabs (fs.pools.entries ndx).head L)
    (hE : ∀ y ∈ L (some .empty), (fs.header y).refcount = 0) (hU : ∀ y ∈ L (some .full), (fs.header y).refcount ≠ 0)
    (hP : ∀ y ∈ L (some .part), (fs.header y).refcount ≠ 0) (hne : L (some .full) ≠ [] ∨ L (some .part) ≠ []) :
    ∃ fs', flaPoolReleaseAllSlabs fs ndx = (1, fs') ∧ fs' ≠ fs := by
  obtain ⟨fs₁, hrun₁, h₁⟩ := removeAll_spec hn hc hE
  have hn₁ : fs₁.nslabs = fs.nslabs := by rw [Flexalloc.nslabs, h₁.same.vol]
  have hc₁ := h₁.chains
  rw [← hn₁] at hc₁
  have hhead : ∀ q, q ≠ .empty → (fs₁.pools.entries ndx).head q = (fs.pools.entries ndx).head q := fun q hq => by
    rw [(hc₁.linked q).head_eq, (hc.linked q).head_eq]
    simp [hq]
  cases hUl : L (some .full) with
  | cons x l =>
    have hL₁ : update (update L (some .empty) []) none (L none ++ L (some .empty)) (some .full) = x :: l := by
      simpa using hUl
    obtain ⟨fs₂, hrun₂, hmoved⟩ := removeAll_refused (hn₁ ▸ hn) hc₁ hL₁
      (by rw [Flexalloc.header, (h₁.marks x).2]; exact hU x (hUl ▸ List.mem_cons_self))
    refine ⟨fs₂, by simp only [flaPoolReleaseAllSlabs, hrun₁, hrun₂, ne_eq, not_true_eq_false, if_false]; rfl,
      fun h => hmoved ?_⟩
    rw [h, hhead .full (by decide)]
  | nil =>
    obtain ⟨fs₂, hrun₂, h₂⟩ := removeAll_spec (k := .full) (hn₁ ▸ hn) hc₁ fun y hy => by
      have : y ∈ L (some .full) := by simpa using hy
      rw [hUl] at this
      cases this
    have hn₂ : fs₂.nslabs = fs.nslabs := by rw [Flexalloc.nslabs, h₂.same.vol]; exact hn₁
    have hc₂ := h₂.chains
    rw [hn₁, ← hn₂] at hc₂
    obtain ⟨x, l, hPl⟩ := List.exists_cons_of_ne_nil (hne.resolve_left fun h => h hUl)
    have hL₂ : update (update (update (update L (some .empty) []) none (L none ++ L (some .empty))) (some .full) []) none
        (update (update L (some .empty) []) none (L none ++ L (some .empty)) none ++
          update (update L (some .empty) []) none (L none ++ L (some .empty)) (some .full)) (some .part) = x :: l := by
      simpa using hPl
    have hhead₂ : (fs₂.pools.entries ndx).head .part = (fs.pools.entries ndx).head .part := by
      rw [(hc₂.linked .part).head_eq, (hc.linked .part).head_eq, hL₂, hPl]
    obtain ⟨fs₃, hrun₃, hmoved⟩ := removeAll_refused (hn₂ ▸ hn) hc₂ hL₂
      (by rw [Flexalloc.header, (h₂.marks x).2, (h₁.marks x).2]; exact hP x (hPl ▸ List.mem_cons_self))
    refine ⟨fs₃, by simp only [flaPoolReleaseAllSlabs, hrun₁, hrun₂, hrun₃, ne_eq, not_true_eq_false, if_false],
      fun h => hmoved ?_⟩
    rw [h, hhead₂]

end Clear

end FlexAlloc
