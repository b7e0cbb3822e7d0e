/-
`flexalloc_ll.c`: the intrusive lists of slabs.

All lists run through the `next` and `prev` fields of one array of slab headers. A pool keeps its slabs in lists with a
head (`fla_hdll_*`); the free slabs are a queue with a head and a tail (`fla_edll_*`). `Linked hd p head l` says that
the list from `head` is `l` and ends in `FLA_LINKED_LIST_NULL`; `p` is what the first element points back to.

Each operation is specified on the sequence it works on (`prepend_spec`, `remove_spec`, `removeHead_linked`,
`addTail_linked`), together with its frame: headers outside the sequence are untouched, and no operation changes a pool
field or a reference count.
-/
import FlexAlloc.State
import FlexAlloc.Core.DList

namespace FlexAlloc

open FlexAlloc.Core Function

def flaSlabRangeCheckId (nslabs sId : ℕ) : Bool := decide (sub32 nslabs 1 < sId)

/-- `fla_hdll_prepend`: the return value, the headers and the head -/
def flaHdllPrepend (nslabs : ℕ) (hd : ℕ → SlabHeader) (slab head : ℕ) : ℤ × (ℕ → SlabHeader) × ℕ :=
  if flaSlabRangeCheckId nslabs slab then (1, hd, head)
  else if head ≠ flaLinkedListNull then
    if flaSlabRangeCheckId nslabs head then (1, hd, head)
    else
      let hd := update hd head { hd head with prev := slab }
      (0, update hd slab { hd slab with next := head, prev := flaLinkedListNull }, slab)
  else (0, update hd slab { hd slab with next := head, prev := flaLinkedListNull }, slab)

/-- the second half of `fla_hdll_remove`: the element after `slab` -/
def hdllRemoveNext (nslabs : ℕ) (hd : ℕ → SlabHeader) (slab head : ℕ) : ℤ × (ℕ → SlabHeader) × ℕ :=
  if (hd slab).next = flaLinkedListNull then (0, hd, head)
  else if flaSlabRangeCheckId nslabs (hd slab).next then (1, hd, head)
  else (0, update hd (hd slab).next { hd (hd slab).next with prev := (hd slab).prev }, head)

def flaHdllRemove (nslabs : ℕ) (hd : ℕ → SlabHeader) (slab head : ℕ) : ℤ × (ℕ → SlabHeader) × ℕ :=
  if (hd slab).prev = flaLinkedListNull then hdllRemoveNext nslabs hd slab (hd slab).next
  else if flaSlabRangeCheckId nslabs (hd slab).prev then (1, hd, head)
  else hdllRemoveNext nslabs (update hd (hd slab).prev { hd (hd slab).prev with next := (hd slab).next }) slab head

/-- `fla_edll_remove_head`: the return value, the headers, head and tail, and the slab taken off -/
def flaEdllRemoveHead (nslabs : ℕ) (hd : ℕ → SlabHeader) (head tail : ℕ) :
    ℤ × (ℕ → SlabHeader) × ℕ × ℕ × ℕ :=
  if flaSlabRangeCheckId nslabs head then (-1, hd, head, tail, head)
  else if head = tail then (0, hd, flaLinkedListNull, flaLinkedListNull, head)
  else if flaSlabRangeCheckId nslabs (hd head).next then (-1, hd, head, tail, head)
  else
    let newHead := (hd head).next
    (0, update hd newHead { hd newHead with prev := flaLinkedListNull }, newHead, tail, head)

/-- `fla_edll_add_tail`: the return value, the headers, head and tail -/
def flaEdllAddTail (nslabs : ℕ) (hd : ℕ → SlabHeader) (head tail rSlab : ℕ) : ℤ × (ℕ → SlabHeader) × ℕ × ℕ :=
  if flaSlabRangeCheckId nslabs rSlab then (1, hd, head, tail)
  else
    let hd := update hd rSlab { hd rSlab with next := flaLinkedListNull }
    if head = tail ∧ head = flaLinkedListNull then
      (0, update hd rSlab { hd rSlab with prev := flaLinkedListNull }, rSlab, rSlab)
    else if flaSlabRangeCheckId nslabs tail then (1, hd, head, tail)
    else
      let hd := update hd tail { hd tail with next := rSlab }
      (0, update hd rSlab { hd rSlab with prev := tail }, head, rSlab)

/-! ## Lists and their frame -/

/-- the list from `head` is `l` -/
def Linked (hd : ℕ → SlabHeader) (p head : ℕ) (l : List ℕ) : Prop :=
  Seg (fun s => (hd s).next) (fun s => (hd s).prev) p head l flaLinkedListNull

/-- only links change, and only those of `l` -/
structure LinksOnly (l : List ℕ) (hd hd' : ℕ → SlabHeader) : Prop where
  off : ∀ x ∉ l, hd' x = hd x
  pool : ∀ x, (hd' x).pool = (hd x).pool
  refcount : ∀ x, (hd' x).refcount = (hd x).refcount

theorem LinksOnly.refl (l : List ℕ) (hd : ℕ → SlabHeader) : LinksOnly l hd hd :=
  ⟨fun _ _ => rfl, fun _ => rfl, fun _ => rfl⟩

theorem LinksOnly.trans {l : List ℕ} {a b c : ℕ → SlabHeader} (h : LinksOnly l a b) (h' : LinksOnly l b c) :
    LinksOnly l a c :=
  ⟨fun x hx => (h'.off x hx).trans (h.off x hx), fun x => (h'.pool x).trans (h.pool x),
    fun x => (h'.refcount x).trans (h.refcount x)⟩

theorem LinksOnly.mono {l l' : List ℕ} {a b : ℕ → SlabHeader} (h : LinksOnly l a b) (hl : ∀ x ∈ l, x ∈ l') :
    LinksOnly l' a b :=
  ⟨fun x hx => h.off x fun hm => hx (hl x hm), h.pool, h.refcount⟩

theorem linksOnly_update {l : List ℕ} {hd : ℕ → SlabHeader} {s : ℕ} (hs : s ∈ l) (next prev : ℕ) :
    LinksOnly l hd (update hd s ⟨(hd s).pool, prev, next, (hd s).refcount⟩) := by
  refine ⟨fun x hx => ?_, fun x => ?_, fun x => ?_⟩
  · have hne : x ≠ s := fun h => hx (h ▸ hs)
    rw [update_of_ne hne]
  · by_cases h : x = s
    · subst h; rw [update_self]
    · rw [update_of_ne h]
  · by_cases h : x = s
    · subst h; rw [update_self]
    · rw [update_of_ne h]

/-- the frame rule for lists -/
theorem Linked.frame {hd hd' : ℕ → SlabHeader} {p head : ℕ} {l m : List ℕ} (h : Linked hd p head l)
    (hf : LinksOnly m hd hd') (hdisj : ∀ x ∈ l, x ∉ m) : Linked hd' p head l :=
  Seg.congr h (fun x hx => by rw [hf.off x (hdisj x hx)]) (fun x hx => by rw [hf.off x (hdisj x hx)])

theorem rangeCheck_of_lt {nslabs s : ℕ} (hn : nslabs < 2 ^ 32) (h : s < nslabs) :
    flaSlabRangeCheckId nslabs s = false := by
  rw [flaSlabRangeCheckId, sub32_of_le (by omega) hn]
  exact decide_eq_false (by omega)

/-- the head of a list is its first element, or null -/
theorem Linked.head_eq {hd : ℕ → SlabHeader} {p head : ℕ} {l : List ℕ} (h : Linked hd p head l) :
    head = l.headD flaLinkedListNull := by
  cases l with
  | nil => exact h
  | cons x l => exact h.1

section Spec

variable {nslabs : ℕ} {hd : ℕ → SlabHeader} {head tail p s : ℕ} {l : List ℕ}
variable (hn : nslabs ≤ flaLinkedListNull)

include hn

theorem lt_null {x : ℕ} (hx : x < nslabs) : x ≠ flaLinkedListNull := by omega

theorem nslabs_lt : nslabs < 2 ^ 32 := hn.trans_lt (by decide)

/-- **Prepend.** -/
theorem prepend_spec (hl : Linked hd p head l) (hlt : ∀ x ∈ l, x < nslabs) (hnd : l.Nodup) (hs : s < nslabs)
    (hsl : s ∉ l) :
    ∃ hd', flaHdllPrepend nslabs hd s head = (0, hd', s) ∧ Linked hd' flaLinkedListNull s (s :: l) ∧
      LinksOnly (s :: l) hd hd' := by
  have hck := rangeCheck_of_lt (nslabs_lt hn) hs
  unfold flaHdllPrepend
  rw [hck, if_neg Bool.false_ne_true]
  cases l with
  | nil =>
    have hh : head = flaLinkedListNull := hl
    rw [if_neg (by simpa using hh)]
    refine ⟨_, rfl, ⟨rfl, ?_, ?_⟩, linksOnly_update List.mem_cons_self _ _⟩
    · simp
    · simp [hh]
  | cons y l =>
    obtain ⟨rfl, hy⟩ := hl
    have hylt : head < nslabs := hlt _ List.mem_cons_self
    have hne : s ≠ head := fun h => hsl (h ▸ List.mem_cons_self)
    rw [if_pos (lt_null hn hylt), rangeCheck_of_lt (nslabs_lt hn) hylt, if_neg Bool.false_ne_true]
    refine ⟨_, rfl, ?_, (linksOnly_update (List.mem_cons_of_mem _ List.mem_cons_self) _ _).trans
      (linksOnly_update List.mem_cons_self _ _)⟩
    have hoff : ∀ x ∈ l, x ≠ s ∧ x ≠ head := fun x hx =>
      ⟨fun h => hsl (h ▸ List.mem_cons_of_mem _ hx), fun h => (List.nodup_cons.1 hnd).1 (h ▸ hx)⟩
    have hseg : Seg (fun s => (hd s).next) (fun s => (hd s).prev) p head (head :: l) flaLinkedListNull := ⟨rfl, hy⟩
    refine hseg.prepend (by simp) (by simp) ?_ ?_ ?_
    · intro x hx
      rcases List.mem_cons.1 hx with rfl | hx
      · simp [update_of_ne hne.symm]
      · simp [update_of_ne (hoff x hx).1, update_of_ne (hoff x hx).2]
    · intro x hx
      simp only [List.head?_cons, Option.some.injEq] at hx
      subst hx
      simp [update_of_ne hne.symm]
    · intro x hx
      have hx' : x ∈ l := hx
      simp [update_of_ne (hoff x hx').1, update_of_ne (hoff x hx').2]

omit hn in
theorem Linked.around {a b : List ℕ} (hl : Linked hd flaLinkedListNull head (a ++ s :: b)) :
    (hd s).prev = lastOr flaLinkedListNull a ∧ (hd s).next = b.headD flaLinkedListNull := by
  obtain ⟨m, -, rfl, hps, hb⟩ := Seg.append.1 hl
  exact ⟨hps, Linked.head_eq hb⟩

omit hn in
/-- the headers after the links around `s` have been closed -/
def bypassed (hd : ℕ → SlabHeader) (a b : List ℕ) (s x : ℕ) : SlabHeader where
  pool := (hd x).pool
  prev := if b.head? = some x then (hd s).prev else (hd x).prev
  next := if a ≠ [] ∧ x = lastOr flaLinkedListNull a then (hd s).next else (hd x).next
  refcount := (hd x).refcount

omit hn in
theorem bypassed_linked {a b : List ℕ} (hl : Linked hd flaLinkedListNull head (a ++ s :: b))
    (hnd : (a ++ s :: b).Nodup) :
    Linked (bypassed hd a b s) flaLinkedListNull (if a = [] then (hd s).next else head) (a ++ b) := by
  refine Seg.bypass hl hnd (fun x _ hx => ?_) (fun ha => ?_) (fun x _ hx => ?_) (fun x hx => ?_)
  · exact if_neg fun h => hx h.1 h.2
  · exact if_pos ⟨ha, rfl⟩
  · exact if_neg hx
  · exact if_pos hx

omit hn in
theorem bypassed_linksOnly {a b : List ℕ} : LinksOnly (a ++ b) hd (bypassed hd a b s) := by
  refine ⟨fun x hx => ?_, fun _ => rfl, fun _ => rfl⟩
  have h1 : b.head? ≠ some x := fun h => hx (List.mem_append_right _ (List.mem_of_mem_head? h))
  have h2 : ¬ (a ≠ [] ∧ x = lastOr flaLinkedListNull a) := fun h =>
    hx (List.mem_append_left _ (h.2 ▸ lastOr_mem _ h.1))
  unfold bypassed
  rw [if_neg h1, if_neg h2]

theorem remove_eq {a b : List ℕ} (hl : Linked hd flaLinkedListNull head (a ++ s :: b))
    (hlt : ∀ x ∈ a ++ s :: b, x < nslabs) (hnd : (a ++ s :: b).Nodup) :
    flaHdllRemove nslabs hd s head = (0, bypassed hd a b s, if a = [] then (hd s).next else head) := by
  obtain ⟨hprev, hnext⟩ := hl.around
  have hck : ∀ x ∈ a ++ s :: b, flaSlabRangeCheckId nslabs x = false := fun x hx =>
    rangeCheck_of_lt (nslabs_lt hn) (hlt x hx)
  have hsb : s ∉ b := (List.nodup_cons.1 (List.nodup_append.1 hnd).2.1).1
  have hsa : s ∉ a := fun h => (List.nodup_append.1 hnd).2.2 s h s List.mem_cons_self rfl
  -- the successor, on headers whose links at `s` are still the old ones
  have hsucc : ∀ (hd₁ : ℕ → SlabHeader) (head₁ : ℕ), hd₁ s = hd s →
      hdllRemoveNext nslabs hd₁ s head₁ =
        (0, fun x => { hd₁ x with prev := if b.head? = some x then (hd s).prev else (hd₁ x).prev }, head₁) := by
    intro hd₁ head₁ h₁
    unfold hdllRemoveNext
    rw [h₁]
    cases b with
    | nil =>
      rw [if_pos (by rw [hnext]; rfl)]
      rfl
    | cons z b =>
      have hz : (hd s).next = z := hnext
      have hmem : z ∈ a ++ s :: z :: b := by simp
      rw [hz, if_neg (lt_null hn (hlt z hmem)), hck z hmem, if_neg Bool.false_ne_true]
      refine congrArg (fun h => ((0 : ℤ), h, head₁)) (funext fun x => ?_)
      by_cases hx : x = z
      · subst hx; simp
      · rw [update_of_ne hx]
        have : ¬ (z :: b).head? = some x := by simpa using fun h => hx h.symm
        rw [if_neg this]
  unfold flaHdllRemove
  by_cases ha : a = []
  · subst ha
    have hprev' : (hd s).prev = flaLinkedListNull := hprev
    rw [if_pos hprev', hsucc hd _ rfl, if_pos rfl]
    refine congrArg (fun h => ((0 : ℤ), h, (hd s).next)) (funext fun x => ?_)
    simp [bypassed]
  · have hmem : (hd s).prev ∈ a := hprev ▸ lastOr_mem _ ha
    have hne : s ≠ (hd s).prev := fun h => hsa (h ▸ hmem)
    have hmem' : (hd s).prev ∈ a ++ s :: b := List.mem_append_left _ hmem
    rw [if_neg (lt_null hn (hlt _ hmem')), hck _ hmem', if_neg Bool.false_ne_true, hsucc _ _ (update_of_ne hne _ _),
      if_neg ha]
    refine congrArg (fun h => ((0 : ℤ), h, head)) (funext fun x => ?_)
    unfold bypassed
    rw [← hprev]
    by_cases hx : x = (hd s).prev
    · subst hx; simp [ha]
    · simp [hx]

/-- **Remove.** -/
theorem remove_spec (hl : Linked hd flaLinkedListNull head l) (hlt : ∀ x ∈ l, x < nslabs) (hnd : l.Nodup)
    (hsl : s ∈ l) :
    ∃ hd' head', flaHdllRemove nslabs hd s head = (0, hd', head') ∧
      Linked hd' flaLinkedListNull head' (l.erase s) ∧ LinksOnly (l.erase s) hd hd' := by
  obtain ⟨a, b, rfl⟩ := List.append_of_mem hsl
  have hsa : s ∉ a := fun h => (List.nodup_append.1 hnd).2.2 s h s List.mem_cons_self rfl
  rw [List.erase_append_right _ hsa, List.erase_cons_head]
  exact ⟨_, _, remove_eq hn hl hlt hnd, bypassed_linked hl hnd, bypassed_linksOnly⟩

/-! ## The free queue -/

/-- the free slabs: a list whose tail is known, and whose head may point back anywhere -/
structure Queue (hd : ℕ → SlabHeader) (head tail : ℕ) (l : List ℕ) : Prop where
  linked : ∃ p, Linked hd p head l
  tail_eq : tail = lastOr flaLinkedListNull l

omit hn in
theorem Queue.frame {hd' : ℕ → SlabHeader} {m : List ℕ} (h : Queue hd head tail l) (hf : LinksOnly m hd hd')
    (hdisj : ∀ x ∈ l, x ∉ m) : Queue hd' head tail l := by
  obtain ⟨p, hp⟩ := h.linked
  exact ⟨⟨p, hp.frame hf hdisj⟩, h.tail_eq⟩

omit hn in
/-- **Remove the head** of a queue that is not empty; the new head points back to nothing. -/
theorem removeHead_linked (hn : nslabs < 2 ^ 32) (hl : Linked hd p head (s :: l))
    (htail : tail = lastOr flaLinkedListNull (s :: l)) (hlt : ∀ x ∈ s :: l, x < nslabs) (hnd : (s :: l).Nodup) :
    ∃ hd' head' tail', flaEdllRemoveHead nslabs hd head tail = (0, hd', head', tail', s) ∧
      Linked hd' flaLinkedListNull head' l ∧ tail' = lastOr flaLinkedListNull l ∧ LinksOnly l hd hd' := by
  obtain ⟨rfl, -, hl⟩ := hl
  have hck := rangeCheck_of_lt hn (hlt head List.mem_cons_self)
  unfold flaEdllRemoveHead
  rw [hck, if_neg Bool.false_ne_true]
  cases l with
  | nil =>
    have htail' : head = tail := htail.symm
    rw [if_pos htail']
    exact ⟨hd, _, _, rfl, rfl, rfl, LinksOnly.refl _ _⟩
  | cons y l =>
    have htm : tail ∈ y :: l := htail ▸ lastOr_mem head (l := y :: l) (by simp)
    have hne : head ≠ tail := fun h => (List.nodup_cons.1 hnd).1 (h ▸ htm)
    have hy : (hd head).next = y := hl.1
    have hylt : y < nslabs := hlt y (by simp)
    rw [if_neg hne, hy, rangeCheck_of_lt hn hylt, if_neg Bool.false_ne_true]
    refine ⟨_, _, _, rfl, ?_, htail, linksOnly_update List.mem_cons_self _ _⟩
    have hnd' := (List.nodup_cons.1 (List.nodup_cons.1 hnd).2).1
    have hl' : Seg (fun s => (hd s).next) (fun s => (hd s).prev) head y (y :: l) flaLinkedListNull := by
      rw [← hy] at hl ⊢; exact hl
    refine hl'.retarget_start (fun x hx => ?_) (fun x hx => ?_) (fun x hx => ?_)
    · by_cases h : x = y
      · subst h; simp
      · simp [update_of_ne h]
    · simp only [List.head?_cons, Option.some.injEq] at hx
      subst hx; simp
    · have h : x ≠ y := fun h => hnd' (h ▸ hx)
      simp [update_of_ne h]

omit hn in
theorem removeHead_spec (hn : nslabs < 2 ^ 32) (hq : Queue hd head tail (s :: l)) (hlt : ∀ x ∈ s :: l, x < nslabs)
    (hnd : (s :: l).Nodup) : ∃ hd' head' tail',
    flaEdllRemoveHead nslabs hd head tail = (0, hd', head', tail', s) ∧ Queue hd' head' tail' l ∧
      LinksOnly l hd hd' := by
  obtain ⟨⟨p, hl⟩, htail⟩ := hq
  obtain ⟨hd', head', tail', hrun, hl', htail', hf⟩ := removeHead_linked hn hl htail hlt hnd
  exact ⟨hd', head', tail', hrun, ⟨⟨_, hl'⟩, htail'⟩, hf⟩

/-- **Add at the tail**; the first element of an empty queue points back to nothing. -/
theorem addTail_linked (hl : Linked hd p head l) (hp : l = [] → p = flaLinkedListNull)
    (htail : tail = lastOr flaLinkedListNull l) (hlt : ∀ x ∈ l, x < nslabs) (hnd : l.Nodup) (hs : s < nslabs)
    (hsl : s ∉ l) :
    ∃ hd' head', flaEdllAddTail nslabs hd head tail s = (0, hd', head', s) ∧ Linked hd' p head' (l ++ [s]) ∧
      LinksOnly (l ++ [s]) hd hd' := by
  have hck := rangeCheck_of_lt (nslabs_lt hn) hs
  unfold flaEdllAddTail
  rw [hck, if_neg Bool.false_ne_true]
  by_cases hne : l = []
  · obtain rfl := hp hne
    subst hne
    have hh : head = flaLinkedListNull := hl
    have ht : tail = flaLinkedListNull := htail
    rw [if_pos ⟨hh.trans ht.symm, hh⟩]
    refine ⟨_, _, rfl, ?_, (linksOnly_update (by simp) _ _).trans (linksOnly_update (by simp) _ _)⟩
    exact ⟨rfl, by simp, by simp⟩
  · have htm : tail ∈ l := htail ▸ lastOr_mem _ hne
    have htne : tail ≠ flaLinkedListNull := lt_null hn (hlt tail htm)
    have hst : s ≠ tail := fun h => hsl (h ▸ htm)
    have hcond : ¬ (head = tail ∧ head = flaLinkedListNull) := fun h => htne (h.1.symm.trans h.2)
    rw [if_neg hcond, rangeCheck_of_lt (nslabs_lt hn) (hlt tail htm), if_neg Bool.false_ne_true]
    refine ⟨_, _, rfl, ?_, ((linksOnly_update (by simp) _ _).trans
      (linksOnly_update (List.mem_append_left _ htm) _ _)).trans (linksOnly_update (by simp) _ _)⟩
    have hlast : lastOr p l = tail := by
      rw [htail]
      cases l with
      | nil => exact absurd rfl hne
      | cons x l => rfl
    have hxs : ∀ x ∈ l, x ≠ s := fun x hx h => hsl (h ▸ hx)
    refine Seg.snoc hl hne hnd (fun x hx hxl => ?_) ?_ (fun x hx => ?_) ?_ ?_
    · rw [hlast] at hxl
      simp [update_of_ne (hxs x hx), update_of_ne hxl]
    · rw [hlast]; simp [update_of_ne hst.symm]
    · by_cases h : x = tail
      · subst h; simp [update_of_ne (hxs x hx)]
      · simp [update_of_ne (hxs x hx), update_of_ne h]
    · simp [update_of_ne hst]
    · rw [hlast]; simp

omit hn in
/-- an empty queue may be taken to point back to nothing -/
theorem Queue.exists_linked (hq : Queue hd head tail l) :
    ∃ p, Linked hd p head l ∧ (l = [] → p = flaLinkedListNull) := by
  obtain ⟨p, hl⟩ := hq.linked
  cases l with
  | nil => exact ⟨flaLinkedListNull, hl, fun _ => rfl⟩
  | cons x l => exact ⟨p, hl, fun h => absurd h (by simp)⟩

end Spec

end FlexAlloc
