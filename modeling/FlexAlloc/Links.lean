/-
The list operations on slabs whose links stay among themselves.

Where the lists of several pools run through the same headers, no list need be well formed. What the operations still
rely on is weaker: a set `A` of slabs that no link leaves (`Closed`). Then putting a slab of `A` in front of a list and
taking one out never fail, they write to slabs of `A` only, and no link leaves `A` afterwards.

- `prepend_rewired`, `remove_rewired`: the two list operations.
- `moveSlab_rewired`: a slab changes from one list to another.
-/
import FlexAlloc.Chains

namespace FlexAlloc

open FlexAlloc.Core Function

/-- the end of a list, or a slab of `A` -/
def LinkTo (A : Set ℕ) (x : ℕ) : Prop := x = flaLinkedListNull ∨ x ∈ A

/-- no link of a slab of `A` leaves `A` -/
def Closed (A : Set ℕ) (hd : ℕ → SlabHeader) : Prop := ∀ x ∈ A, LinkTo A (hd x).prev ∧ LinkTo A (hd x).next

/-- links of slabs of `A` were rewritten, none leaves `A` -/
structure Rewired (A : Set ℕ) (hd hd' : ℕ → SlabHeader) : Prop where
  off : ∀ x ∉ A, hd' x = hd x
  marks : SameMarks hd hd'
  closed : Closed A hd'

section Links

variable {A : Set ℕ} {nslabs head x y prev next : ℕ} {hd hd' hd'' : ℕ → SlabHeader}

theorem linkTo_null (A : Set ℕ) : LinkTo A flaLinkedListNull := Or.inl rfl

theorem Closed.set (hc : Closed A hd) (x : ℕ) {h : SlabHeader} (hprev : LinkTo A h.prev) (hnext : LinkTo A h.next) :
    Closed A (update hd x h) := fun y hy => by
  by_cases hyx : y = x
  · rw [hyx, update_self]
    exact ⟨hprev, hnext⟩
  · rw [update_of_ne hyx]
    exact hc y hy

theorem Closed.rewired (hc : Closed A hd) : Rewired A hd hd := ⟨fun _ _ => rfl, fun _ => ⟨rfl, rfl⟩, hc⟩

theorem Rewired.trans (h : Rewired A hd hd') (h' : Rewired A hd' hd'') : Rewired A hd hd'' :=
  ⟨fun x hx => (h'.off x hx).trans (h.off x hx), h.marks.trans h'.marks, h'.closed⟩

theorem Closed.rewired_update (hc : Closed A hd) (hx : x ∈ A) (hprev : LinkTo A prev) (hnext : LinkTo A next) :
    Rewired A hd (update hd x ⟨(hd x).pool, prev, next, (hd x).refcount⟩) := by
  have hlinks : LinksOnly [x] hd _ := linksOnly_update (List.mem_singleton_self x) next prev
  refine ⟨fun y hy => hlinks.off y ?_, hlinks.sameMarks, hc.set x hprev hnext⟩
  rw [List.mem_singleton]
  rintro rfl
  exact hy hx

variable (hn : nslabs ≤ flaLinkedListNull) (hA : ∀ x ∈ A, x < nslabs)

include hn hA

theorem LinkTo.check (hx : LinkTo A x) (hne : x ≠ flaLinkedListNull) : x ∈ A ∧ flaSlabRangeCheckId nslabs x = false := by
  have hmem := hx.resolve_left hne
  exact ⟨hmem, rangeCheck_of_lt (nslabs_lt hn) (hA x hmem)⟩

/-- **Prepend.** -/
theorem prepend_rewired (hc : Closed A hd) (hx : x ∈ A) (hhead : LinkTo A head) :
    ∃ hd', flaHdllPrepend nslabs hd x head = (0, hd', x) ∧ Rewired A hd hd' := by
  unfold flaHdllPrepend
  rw [rangeCheck_of_lt (nslabs_lt hn) (hA x hx), if_neg Bool.false_ne_true]
  by_cases hnull : head = flaLinkedListNull
  · rw [if_neg (not_not.2 hnull)]
    exact ⟨_, rfl, hc.rewired_update hx (linkTo_null A) hhead⟩
  · obtain ⟨hmem, hck⟩ := hhead.check hn hA hnull
    rw [if_pos hnull, hck, if_neg Bool.false_ne_true]
    have hfirst := hc.rewired_update hmem (Or.inr hx) (hc head hmem).2
    exact ⟨_, rfl, hfirst.trans (hfirst.closed.rewired_update hx (linkTo_null A) hhead)⟩

theorem removeNext_rewired (hc : Closed A hd) (hx : x ∈ A) (head : ℕ) :
    ∃ hd', hdllRemoveNext nslabs hd x head = (0, hd', head) ∧ Rewired A hd hd' := by
  obtain ⟨hprev, hnext⟩ := hc x hx
  unfold hdllRemoveNext
  by_cases hnull : (hd x).next = flaLinkedListNull
  · rw [if_pos hnull]
    exact ⟨hd, rfl, hc.rewired⟩
  · obtain ⟨hmem, hck⟩ := hnext.check hn hA hnull
    rw [if_neg hnull, hck, if_neg Bool.false_ne_true]
    exact ⟨_, rfl, hc.rewired_update hmem hprev (hc _ hmem).2⟩

/-- **Remove.** -/
theorem remove_rewired (hc : Closed A hd) (hx : x ∈ A) (hhead : LinkTo A head) :
    ∃ hd' head', flaHdllRemove nslabs hd x head = (0, hd', head') ∧ Rewired A hd hd' ∧ LinkTo A head' := by
  obtain ⟨hprev, hnext⟩ := hc x hx
  unfold flaHdllRemove
  by_cases hnull : (hd x).prev = flaLinkedListNull
  · obtain ⟨hd', hrun, hr⟩ := removeNext_rewired hn hA hc hx (hd x).next
    rw [if_pos hnull, hrun]
    exact ⟨hd', _, rfl, hr, hnext⟩
  · obtain ⟨hmem, hck⟩ := hprev.check hn hA hnull
    have hfirst := hc.rewired_update hmem (hc _ hmem).1 hnext
    obtain ⟨hd', hrun, hr⟩ := removeNext_rewired hn hA hfirst.closed hx head
    rw [if_neg hnull, hck, if_neg Bool.false_ne_true]
    exact ⟨hd', head, hrun, hfirst.trans hr, hhead⟩

end Links

section Move

variable {A : Set ℕ} {fs : Flexalloc} {ndx x : ℕ}

/-- **A slab changes lists**, within one pool. -/
theorem moveSlab_rewired (hn : fs.nslabs ≤ flaLinkedListNull) (hA : ∀ x ∈ A, x < fs.nslabs)
    (hc : Closed A fs.slabs.headers) (hheads : ∀ k, LinkTo A ((fs.pools.entries ndx).head k)) (hx : x ∈ A)
    (k k' : SlabKind) :
    ∃ e hd, moveSlab fs x (ndx, k) (ndx, k') = (0, fs.withLists ndx e hd) ∧ e.rest = (fs.pools.entries ndx).rest ∧
      (∀ q, LinkTo A (e.head q)) ∧ Rewired A fs.slabs.headers hd := by
  obtain ⟨hd₁, h₁, hrun₁, hr₁, hh₁⟩ := remove_rewired hn hA hc hx (hheads k)
  have hheads₁ : ∀ q, LinkTo A (((fs.pools.entries ndx).setHead k h₁).head q) := fun q => by
    rw [setHead_head]
    by_cases hq : q = k
    · rw [hq, update_self]
      exact hh₁
    · rw [update_of_ne hq]
      exact hheads q
  obtain ⟨hd₂, hrun₂, hr₂⟩ := prepend_rewired hn hA hr₁.closed hx (hheads₁ k')
  refine ⟨((fs.pools.entries ndx).setHead k h₁).setHead k' x, hd₂, ?_, by simp, fun q => ?_, hr₁.trans hr₂⟩
  · exact moveSlab_eq hrun₁ hrun₂
  · rw [setHead_head]
    by_cases hq : q = k'
    · rw [hq, update_self]
      exact Or.inr hx
    · rw [update_of_ne hq]
      exact hheads₁ q

end Move

end FlexAlloc
