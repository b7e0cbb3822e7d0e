/-
The lists of slabs as sequences.

`HeadList nslabs hd head l` says that the headers hold the list `l` from `head`, linked both ways, with no slab twice;
`EndsList` that its last element is known too. `Unaffected nslabs l hd hd'` is what the other lists of the array rely on:
no header off `l` changes, and so neither does a list that shares no slab with `l`.

- `list_ops`: each operation of `flexalloc_ll.c` is the operation on sequences it is named after, and leaves all other
  lists unaffected.
- `removeAllLoop_released`: the walk of `fla_hdll_remove_all`, one release at a time (`FreeFrom.release`).
-/
import FlexAlloc.Slab

namespace FlexAlloc

open FlexAlloc.Core Function

/-- the headers hold the list `l` of slabs from `head` -/
structure HeadList (nslabs : ℕ) (hd : ℕ → SlabHeader) (head : ℕ) (l : List ℕ) : Prop where
  linked : Linked hd flaLinkedListNull head l
  nodup : l.Nodup
  lt : ∀ x ∈ l, x < nslabs

/-- the headers hold the list `l` of slabs from `head` to `tail` -/
structure EndsList (nslabs : ℕ) (hd : ℕ → SlabHeader) (head tail : ℕ) (l : List ℕ) : Prop extends
    HeadList nslabs hd head l where
  tail_eq : tail = lastOr flaLinkedListNull l

/-- nothing off `l` changes: no header, and no list of other slabs -/
structure Unaffected (nslabs : ℕ) (l : List ℕ) (hd hd' : ℕ → SlabHeader) : Prop where
  headers : ∀ x ∉ l, hd' x = hd x
  lists : ∀ head m, HeadList nslabs hd head m → (∀ x ∈ m, x ∉ l) → HeadList nslabs hd' head m
  queues : ∀ head tail m, EndsList nslabs hd head tail m → (∀ x ∈ m, x ∉ l) → EndsList nslabs hd' head tail m

/-- the operations of `flexalloc_ll.c` on sequences of slabs -/
structure ListOps (nslabs : ℕ) : Prop where
  prepend : ∀ hd head l s, HeadList nslabs hd head l → s < nslabs → s ∉ l →
    ∃ hd', flaHdllPrepend nslabs hd s head = (0, hd', s) ∧ HeadList nslabs hd' s (s :: l) ∧
      Unaffected nslabs (s :: l) hd hd'
  remove : ∀ hd head l s, HeadList nslabs hd head l → s ∈ l →
    ∃ hd' head', flaHdllRemove nslabs hd s head = (0, hd', head') ∧ HeadList nslabs hd' head' (l.erase s) ∧
      Unaffected nslabs l hd hd'
  removeHead : ∀ hd head tail s l, EndsList nslabs hd head tail (s :: l) →
    ∃ hd' head' tail', flaEdllRemoveHead nslabs hd head tail = (0, hd', head', tail', s) ∧
      EndsList nslabs hd' head' tail' l ∧ (l = [] → head' = flaLinkedListNull ∧ tail' = flaLinkedListNull) ∧
      Unaffected nslabs (s :: l) hd hd'
  addTail : ∀ hd head tail l s, EndsList nslabs hd head tail l → s < nslabs → s ∉ l →
    ∃ hd' head', flaEdllAddTail nslabs hd head tail s = (0, hd', head', s) ∧ EndsList nslabs hd' head' s (l ++ [s]) ∧
      Unaffected nslabs (l ++ [s]) hd hd'
  removeAll : ∀ fs ndx k l F, fs.nslabs = nslabs → HeadList nslabs fs.slabs.headers ((fs.pools.entries ndx).head k) l →
    EndsList nslabs fs.slabs.headers fs.slabs.fslabHead fs.slabs.fslabTail F → (∀ x ∈ l, x ∉ F) →
    (∀ x ∈ l, (fs.header x).refcount = 0) →
    ∃ fs', flaHdllRemoveAll fs ndx k = (0, fs') ∧
      fs'.pools.entries = update fs.pools.entries ndx ((fs.pools.entries ndx).setHead k flaLinkedListNull) ∧
      EndsList nslabs fs'.slabs.headers fs'.slabs.fslabHead fs'.slabs.fslabTail (F ++ l) ∧
      Unaffected nslabs (F ++ l) fs.slabs.headers fs'.slabs.headers

/-! ## The frame -/

section Frame

variable {nslabs head tail : ℕ} {hd hd' : ℕ → SlabHeader} {l m : List ℕ}

theorem HeadList.frame (h : HeadList nslabs hd head m) (hf : LinksOnly l hd hd') (hdisj : ∀ x ∈ m, x ∉ l) :
    HeadList nslabs hd' head m :=
  ⟨h.linked.frame hf hdisj, h.nodup, h.lt⟩

theorem LinksOnly.unaffected (hf : LinksOnly l hd hd') (nslabs : ℕ) : Unaffected nslabs l hd hd' := by
  constructor
  · exact hf.off
  · intro head m h hdisj
    exact h.frame hf hdisj
  · intro head tail m h hdisj
    exact ⟨h.toHeadList.frame hf hdisj, h.tail_eq⟩

theorem length_le_of_lt {n : ℕ} {l : List ℕ} (hnd : l.Nodup) (hlt : ∀ y ∈ l, y < n) : l.length ≤ n := by
  have := (hnd.subperm fun y hy => List.mem_range.2 (hlt y hy)).length_le
  rwa [List.length_range] at this

end Frame

/-! ## Releasing slabs -/

/-- the free slabs are `F`, in order; `p` is what the first of them points back to -/
structure FreeFrom (nslabs : ℕ) (sl : Slabs) (p : ℕ) (F : List ℕ) : Prop where
  linked : Linked sl.headers p sl.fslabHead F
  empty : F = [] → p = flaLinkedListNull
  tail_eq : sl.fslabTail = lastOr flaLinkedListNull F
  nodup : F.Nodup
  lt : ∀ x ∈ F, x < nslabs

theorem EndsList.free {nslabs : ℕ} {sl : Slabs} {F : List ℕ}
    (h : EndsList nslabs sl.headers sl.fslabHead sl.fslabTail F) : FreeFrom nslabs sl flaLinkedListNull F :=
  ⟨h.linked, fun _ => rfl, h.tail_eq, h.nodup, h.lt⟩

theorem FreeFrom.ends {nslabs : ℕ} {sl : Slabs} {F : List ℕ} (h : FreeFrom nslabs sl flaLinkedListNull F) :
    EndsList nslabs sl.headers sl.fslabHead sl.fslabTail F :=
  ⟨⟨h.linked, h.nodup, h.lt⟩, h.tail_eq⟩

theorem Queue.exists_free {nslabs : ℕ} {sl : Slabs} {F : List ℕ} (hq : Queue sl.headers sl.fslabHead sl.fslabTail F)
    (hnd : F.Nodup) (hlt : ∀ x ∈ F, x < nslabs) : ∃ p, FreeFrom nslabs sl p F := by
  obtain ⟨p, hl, hp⟩ := hq.exists_linked
  exact ⟨p, hl, hp, hq.tail_eq, hnd, hlt⟩

theorem FreeFrom.queue {nslabs p : ℕ} {sl : Slabs} {F : List ℕ} (h : FreeFrom nslabs sl p F) :
    Queue sl.headers sl.fslabHead sl.fslabTail F := ⟨⟨p, h.linked⟩, h.tail_eq⟩

/-- what a walk that releases the slabs `l` in order leaves: all of them behind the free ones, none of them cached -/
structure ReleasedTo (fs fs' : Flexalloc) (p : ℕ) (F l : List ℕ) : Prop where
  same : fs' = { fs with slabs := fs'.slabs, cache := fs'.cache }
  links : LinksOnly (F ++ l) fs.slabs.headers fs'.slabs.headers
  free : FreeFrom fs.nslabs fs'.slabs p (F ++ l)
  num : fs.slabs.fslabNum + l.length < 2 ^ 32 → fs'.slabs.fslabNum = fs.slabs.fslabNum + l.length
  cache : ∀ y, fs'.cache y = if y ∈ l then ⟨.stale, none⟩ else fs.cache y

section Release

variable {fs : Flexalloc} {p x : ℕ} {F : List ℕ} (hn : fs.nslabs ≤ flaLinkedListNull)

include hn

/-- **Releasing a slab without objects** puts it behind the free ones. -/
theorem FreeFrom.release (hF : FreeFrom fs.nslabs fs.slabs p F) (hx : x < fs.nslabs) (hnew : x ∉ F)
    (hr : (fs.header x).refcount = 0) :
    ∃ hd head, flaReleaseSlab fs x = (0, { flaSlabCacheElemDrop fs x with
        slabs := ⟨hd, u32 (fs.slabs.fslabNum + 1), head, x⟩ }) ∧
      LinksOnly (F ++ [x]) fs.slabs.headers hd ∧
      FreeFrom fs.nslabs ⟨hd, u32 (fs.slabs.fslabNum + 1), head, x⟩ p (F ++ [x]) := by
  obtain ⟨hd, head, hrun, hl, hf⟩ := addTail_linked hn hF.linked hF.empty hF.tail_eq hF.lt hF.nodup hx hnew
  refine ⟨hd, head, ?_, hf, hl, by simp, by simp, ?_, ?_⟩
  · unfold flaReleaseSlab
    rw [if_neg (by simpa using hr), rangeCheck_of_lt (nslabs_lt hn) hx, if_neg Bool.false_ne_true]
    have hrun' : flaEdllAddTail (flaSlabCacheElemDrop fs x).nslabs (flaSlabCacheElemDrop fs x).slabs.headers
        (flaSlabCacheElemDrop fs x).slabs.fslabHead (flaSlabCacheElemDrop fs x).slabs.fslabTail x = (0, hd, head, x) :=
      hrun
    simp only [hrun', ne_eq, not_true_eq_false, if_false]
    rfl
  · apply List.nodup_append.2
    refine ⟨hF.nodup, List.nodup_singleton x, ?_⟩
    intro y hy z hz h
    rw [List.mem_singleton.1 hz] at h
    exact hnew (h ▸ hy)
  · intro y hy
    rcases List.mem_append.1 hy with hy | hy
    · exact hF.lt y hy
    · rw [List.mem_singleton.1 hy]
      exact hx

/-- **The loop of `fla_hdll_remove_all`**, on slabs without objects -/
theorem removeAllLoop_released (l : List ℕ) {n q head : ℕ} (hF : FreeFrom fs.nslabs fs.slabs p F)
    (hl : Linked fs.slabs.headers q head l) (hlt : ∀ y ∈ l, y < fs.nslabs) (hnd : l.Nodup) (hnew : ∀ y ∈ l, y ∉ F)
    (hr : ∀ y ∈ l, (fs.header y).refcount = 0) (hfuel : l.length ≤ n) :
    ∃ fs', hdllRemoveAllLoop n head fs = (0, flaLinkedListNull, fs') ∧ ReleasedTo fs fs' p F l := by
  induction l generalizing fs F n q head with
  | nil =>
    have hh : head = flaLinkedListNull := hl
    refine ⟨fs, ?_, rfl, LinksOnly.refl _ _, ?_, fun _ => rfl, fun _ => by simp⟩
    · cases n <;> simp [hdllRemoveAllLoop, hh]
    · rw [List.append_nil]
      exact hF
  | cons x l ih =>
    obtain ⟨rfl, -, hrest⟩ := hl
    obtain ⟨n, rfl⟩ : ∃ m, n = m + 1 := ⟨n - 1, by rw [List.length_cons] at hfuel; omega⟩
    have hx := hlt head List.mem_cons_self
    have hxl := (List.nodup_cons.1 hnd).1
    obtain ⟨hd, qh, hrel, hf, hF₁⟩ := hF.release hn hx (hnew head List.mem_cons_self) (hr head List.mem_cons_self)
    set fs₁ : Flexalloc := { flaSlabCacheElemDrop fs head with slabs := ⟨hd, u32 (fs.slabs.fslabNum + 1), qh, head⟩ }
      with hfs₁
    -- the rest of the list is apart from what the release rewrites
    have hnot : ∀ y ∈ l, y ∉ F ++ [head] := by
      intro y hy hm
      rcases List.mem_append.1 hm with hm | hm
      · exact hnew y (List.mem_cons_of_mem _ hy) hm
      · exact hxl (List.mem_singleton.1 hm ▸ hy)
    have hn₁ : fs₁.nslabs ≤ flaLinkedListNull := hn
    have hrest₁ : Linked fs₁.slabs.headers head (fs.header head).next l := Linked.frame hrest hf hnot
    obtain ⟨fs', hrun, hR⟩ := ih (n := n) hn₁ hF₁ hrest₁ (fun y hy => hlt y (List.mem_cons_of_mem _ hy))
      (List.nodup_cons.1 hnd).2 hnot (fun y hy => (hf.refcount y).trans (hr y (List.mem_cons_of_mem _ hy)))
      (by rw [List.length_cons] at hfuel; omega)
    have hcat : F ++ [head] ++ l = F ++ head :: l := by rw [List.append_assoc, List.singleton_append]
    refine ⟨fs', ?_, ?_, ?_, hcat ▸ hR.free, ?_, ?_⟩
    · unfold hdllRemoveAllLoop
      rw [if_neg (lt_null hn hx), rangeCheck_of_lt (nslabs_lt hn) hx, if_neg Bool.false_ne_true]
      simp only [hrel, ne_eq, not_true_eq_false, if_false]
      exact hrun
    · rw [hR.same]
      rfl
    · exact (hf.mono fun y hy => hcat ▸ List.mem_append_left l hy).trans (hcat ▸ hR.links)
    · intro hsum
      rw [List.length_cons] at hsum
      have hu : u32 (fs.slabs.fslabNum + 1) = fs.slabs.fslabNum + 1 := u32_of_lt (by omega)
      have hnum := hR.num
      simp only [hfs₁, hu] at hnum
      rw [hnum (by omega), List.length_cons]
      omega
    · intro y
      rw [hR.cache y]
      by_cases hy : y ∈ l
      · rw [if_pos hy, if_pos (List.mem_cons_of_mem _ hy)]
      · rw [if_neg hy]
        by_cases hyx : y = head
        · subst hyx
          simp [hfs₁, flaSlabCacheElemDrop, Flexalloc.setElem]
        · rw [if_neg (by simp [hyx, hy])]
          simp [hfs₁, flaSlabCacheElemDrop, Flexalloc.setElem, update_of_ne hyx]

end Release

/-! ## The operations -/

/-- **The list operations are the operations on sequences**, and leave every other list of the array as it is. -/
theorem list_ops {nslabs : ℕ} (hn : nslabs ≤ flaLinkedListNull) : ListOps nslabs := by
  constructor
  · intro hd head l s h hs hsl
    obtain ⟨hd', hrun, hl, hf⟩ := prepend_spec hn h.linked h.lt h.nodup hs hsl
    refine ⟨hd', hrun, ⟨hl, List.nodup_cons.2 ⟨hsl, h.nodup⟩, ?_⟩, hf.unaffected nslabs⟩
    intro x hx
    rcases List.mem_cons.1 hx with rfl | hx
    · exact hs
    · exact h.lt x hx
  · intro hd head l s h hsl
    obtain ⟨hd', head', hrun, hl, hf⟩ := remove_spec hn h.linked h.lt h.nodup hsl
    refine ⟨hd', head', hrun, ⟨hl, h.nodup.erase s, ?_⟩, ?_⟩
    · intro x hx
      exact h.lt x (List.mem_of_mem_erase hx)
    · exact (hf.mono fun x hx => List.mem_of_mem_erase hx).unaffected nslabs
  · intro hd head tail s l h
    obtain ⟨hd', head', tail', hrun, hl, htail, hf⟩ := removeHead_linked (nslabs_lt hn) h.linked h.tail_eq h.lt h.nodup
    refine ⟨hd', head', tail', hrun, ⟨⟨hl, (List.nodup_cons.1 h.nodup).2, ?_⟩, htail⟩, ?_, ?_⟩
    · intro x hx
      exact h.lt x (List.mem_cons_of_mem _ hx)
    · rintro rfl
      exact ⟨hl, htail⟩
    · exact (hf.mono fun x hx => List.mem_cons_of_mem _ hx).unaffected nslabs
  · intro hd head tail l s h hs hsl
    obtain ⟨hd', head', hrun, hl, hf⟩ := addTail_linked hn h.linked (fun _ => rfl) h.tail_eq h.lt h.nodup hs hsl
    refine ⟨hd', head', hrun, ⟨⟨hl, ?_, ?_⟩, by simp⟩, hf.unaffected nslabs⟩
    · exact h.nodup.append (List.nodup_singleton s) (by simpa using hsl)
    · intro x hx
      rcases List.mem_append.1 hx with hx | hx
      · exact h.lt x hx
      · rw [List.mem_singleton.1 hx]
        exact hs
  · rintro fs ndx k l F rfl hl hF hnew hr
    obtain ⟨fs', hrun, hR⟩ := removeAllLoop_released hn l hF.free hl.linked hl.lt hl.nodup hnew hr
      (length_le_of_lt hl.nodup hl.lt)
    have hpools : fs'.pools = fs.pools := by rw [hR.same]
    refine ⟨fs'.setEntry ndx ((fs'.pools.entries ndx).setHead k flaLinkedListNull), ?_, ?_, hR.free.ends,
      hR.links.unaffected _⟩
    · rw [flaHdllRemoveAll, hrun]
    · rw [← hpools]
      rfl

/-- the three slabs of a formatted device, without the middle one -/
theorem list_ops_three : ∃ hd' head', flaHdllRemove 3 (mkfsHeaders 3) 1 0 = (0, hd', head') ∧
    HeadList 3 hd' head' [0, 2] := by
  have hlast : (mkfsHeaders 3 2).next = flaLinkedListNull := by decide
  have h : HeadList 3 (mkfsHeaders 3) 0 [0, 1, 2] :=
    ⟨⟨rfl, by decide, by decide, by decide, by decide, by decide, hlast⟩, by decide, by simp⟩
  have hops : ListOps 3 := list_ops (by decide)
  obtain ⟨hd', head', hrun, hl, -⟩ := hops.remove _ _ _ 1 h (by simp)
  exact ⟨hd', head', hrun, hl⟩

end FlexAlloc
