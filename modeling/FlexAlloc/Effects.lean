/-
What a call can change.

Whatever it returns, a base function changes an open system by a chain of elementary writes, which `Effect` lists with
what is known of the values written. `P` is any property of link values that the links of the system have and that every
value the code has checked has (`LinksIn`): with `P` always true a chain says what stays as it is, with `P` the check of
the code itself it says that links stay in range.

- `Effects.linksIn`: the links keep the property.
- `objectCreate_effects`, `objectOpen_effects`, `objectDestroy_effects`, `poolCreate_effects`, `poolDestroy_effects`,
  `setRootObject_effects`, `flush_effects`: every call is a chain of effects.
-/
import FlexAlloc.Chains
import FlexAlloc.Layout
import FlexAlloc.Pool
import FlexAlloc.Sync

namespace FlexAlloc

open FlexAlloc.Core Function

/-! ## Links -/

/-- the end of a list, or a slab that passes `fla_slab_range_check_id` -/
def Within (nslabs v : ℕ) : Prop := v = flaLinkedListNull ∨ flaSlabRangeCheckId nslabs v = false

/-- headers with the marks they had; links are as before, or back to a value that was checked and on to one with `P` -/
structure Relinked (P : ℕ → Prop) (nslabs : ℕ) (hd hd' : ℕ → SlabHeader) : Prop where
  marks : SameMarks hd hd'
  prev : ∀ s, (hd' s).prev = (hd s).prev ∨ Within nslabs (hd' s).prev
  next : ∀ s, (hd' s).next = (hd s).next ∨ P (hd' s).next

section Relinked

variable {P : ℕ → Prop} {n x head head' : ℕ} {hd hd' hd'' : ℕ → SlabHeader} {err : ℤ}

theorem Relinked.refl (P : ℕ → Prop) (n : ℕ) (hd : ℕ → SlabHeader) : Relinked P n hd hd :=
  ⟨fun _ => ⟨rfl, rfl⟩, fun _ => .inl rfl, fun _ => .inl rfl⟩

theorem Relinked.trans (h : Relinked P n hd hd') (h' : Relinked P n hd' hd'') : Relinked P n hd hd'' := by
  refine ⟨h.marks.trans h'.marks, fun s => ?_, fun s => ?_⟩
  · rcases h'.prev s with heq | hw
    · rw [heq]
      exact h.prev s
    · exact .inr hw
  · rcases h'.next s with heq | hp
    · rw [heq]
      exact h.next s
    · exact .inr hp

theorem relinked_update (hd : ℕ → SlabHeader) (x : ℕ) {prev next : ℕ} (hprev : prev = (hd x).prev ∨ Within n prev)
    (hnext : next = (hd x).next ∨ P next) :
    Relinked P n hd (update hd x ⟨(hd x).pool, prev, next, (hd x).refcount⟩) := by
  refine ⟨(linksOnly_update (List.mem_singleton_self x) next prev).sameMarks, fun s => ?_, fun s => ?_⟩
  · by_cases hs : s = x
    · subst hs
      rw [update_self]
      exact hprev
    · rw [update_of_ne hs]
      exact .inl rfl
  · by_cases hs : s = x
    · subst hs
      rw [update_self]
      exact hnext
    · rw [update_of_ne hs]
      exact .inl rfl

theorem within_of_check (h : ¬ flaSlabRangeCheckId n x = true) : Within n x := .inr (Bool.not_eq_true _ ▸ h)

theorem within_null (n : ℕ) : Within n flaLinkedListNull := .inl rfl

variable (hP : ∀ v, Within n v → P v)

include hP

theorem hdllPrepend_relinked (hhead : P head) (h : flaHdllPrepend n hd x head = (err, hd', head')) :
    Relinked P n hd hd' ∧ P head' := by
  unfold flaHdllPrepend at h
  split_ifs at h with hx hnull hck
  · cases h
    exact ⟨.refl P n hd, hhead⟩
  · cases h
    exact ⟨.refl P n hd, hhead⟩
  · cases h
    have hfirst := relinked_update (P := P) (n := n) hd head (.inr (within_of_check hx)) (.inl rfl)
    exact ⟨hfirst.trans (relinked_update _ x (.inr (within_null n)) (.inr hhead)), hP x (within_of_check hx)⟩
  · cases h
    exact ⟨relinked_update _ x (.inr (within_null n)) (.inr hhead), hP x (within_of_check hx)⟩

omit hP in
theorem hdllRemoveNext_relinked (hprev : Within n (hd x).prev) (h : hdllRemoveNext n hd x head = (err, hd', head')) :
    Relinked P n hd hd' ∧ head' = head := by
  unfold hdllRemoveNext at h
  split_ifs at h
  · cases h
    exact ⟨.refl P n hd, rfl⟩
  · cases h
    exact ⟨.refl P n hd, rfl⟩
  · cases h
    exact ⟨relinked_update hd _ (.inr hprev) (.inl rfl), rfl⟩

omit hP in
theorem hdllRemove_relinked (hnext : P (hd x).next) (hhead : P head)
    (h : flaHdllRemove n hd x head = (err, hd', head')) : Relinked P n hd hd' ∧ P head' := by
  unfold flaHdllRemove at h
  split_ifs at h with hnull hck
  · obtain ⟨hr, rfl⟩ := hdllRemoveNext_relinked (P := P) (.inl hnull) h
    exact ⟨hr, hnext⟩
  · cases h
    exact ⟨.refl P n hd, hhead⟩
  · have hw : Within n (hd x).prev := within_of_check hck
    have hfirst : Relinked P n hd (update hd (hd x).prev { hd (hd x).prev with next := (hd x).next }) :=
      relinked_update hd _ (.inl rfl) (.inr hnext)
    have hprev : Within n (update hd (hd x).prev { hd (hd x).prev with next := (hd x).next } x).prev := by
      rcases hfirst.prev x with heq | hin
      · rw [heq]
        exact hw
      · exact hin
    obtain ⟨hr, rfl⟩ := hdllRemoveNext_relinked (P := P) hprev h
    exact ⟨hfirst.trans hr, hhead⟩

theorem edllRemoveHead_relinked {tail tail' slab : ℕ} (hhead : P head) (htail : P tail) (hnext : ∀ s, P (hd s).next)
    (h : flaEdllRemoveHead n hd head tail = (err, hd', head', tail', slab)) :
    Relinked P n hd hd' ∧ P head' ∧ P tail' := by
  unfold flaEdllRemoveHead at h
  split_ifs at h
  · cases h
    exact ⟨.refl P n hd, hhead, htail⟩
  · cases h
    exact ⟨.refl P n hd, hP _ (within_null n), hP _ (within_null n)⟩
  · cases h
    exact ⟨.refl P n hd, hhead, htail⟩
  · cases h
    exact ⟨relinked_update hd _ (.inr (within_null n)) (.inl rfl), hnext _, htail⟩

theorem edllAddTail_relinked {tail tail' : ℕ} (hhead : P head) (htail : P tail)
    (h : flaEdllAddTail n hd head tail x = (err, hd', head', tail')) : Relinked P n hd hd' ∧ P head' ∧ P tail' := by
  unfold flaEdllAddTail at h
  have hend : Relinked P n hd (update hd x { hd x with next := flaLinkedListNull }) :=
    relinked_update hd x (.inl rfl) (.inr (hP _ (within_null n)))
  have hpx : ¬ flaSlabRangeCheckId n x = true → P x := fun hx => hP x (within_of_check hx)
  split_ifs at h with hx hempty hck
  · cases h
    exact ⟨.refl P n hd, hhead, htail⟩
  · cases h
    exact ⟨hend.trans (relinked_update _ x (.inr (within_null n)) (.inl rfl)), hpx hx, hpx hx⟩
  · cases h
    exact ⟨hend, hhead, htail⟩
  · cases h
    have hlink := relinked_update (P := P) (n := n) (update hd x { hd x with next := flaLinkedListNull }) tail
      (.inl rfl) (.inr (hpx hx))
    exact ⟨(hend.trans hlink).trans (relinked_update _ x (.inr (within_of_check hck)) (.inl rfl)), hhead, hpx hx⟩

end Relinked

/-! ## Effects -/

/-- the length of the freelist in element `s`, of the freelist of objects of some size, or of those of some pool -/
def KnownLen (fs : Flexalloc) (s len : ℕ) : Prop :=
  (∃ buf, (fs.cache s).freelist = some buf ∧ buf.flist.len = len) ∨
    (∃ objNlb, flaCalcObjsInSlab fs.vol objNlb = .ok len) ∨ ∃ i, len = (fs.pools.entries i).slabNobj

/-- a hash table after a name was entered or removed -/
def HtblAfter (t t' : Htbl) : Prop :=
  (∃ name ndx err, htblInsert flaHashing t name ndx = .ok (err, t')) ∨ ∃ name, htblRemove flaHashing t name = .ok t'

/-- one write to an open system -/
inductive Effect (P : ℕ → Prop) (fs : Flexalloc) : Flexalloc → Prop
  /-- a list of a pool -/
  | list (ndx : ℕ) (k : SlabKind) (hd : ℕ → SlabHeader) (v : ℕ) (hhd : Relinked P fs.nslabs fs.slabs.headers hd)
      (hv : P v) : Effect P fs
        { fs.setEntry ndx ((fs.pools.entries ndx).setHead k v) with slabs := { fs.slabs with headers := hd } }
  /-- the free queue -/
  | queue (hd : ℕ → SlabHeader) (num head tail : ℕ) (hhd : Relinked P fs.nslabs fs.slabs.headers hd)
      (hnum : num = fs.slabs.fslabNum ∨ num < 2 ^ 32) (hhead : P head) (htail : P tail) :
      Effect P fs { fs with slabs := ⟨hd, num, head, tail⟩ }
  /-- a slab is formatted -/
  | format (s : ℕ) : Effect P fs (fs.setHeader s ⟨0, flaLinkedListNull, flaLinkedListNull, 0⟩)
  /-- the objects of a slab are counted -/
  | count (s n : ℕ) (hn : n < 2 ^ 32) : Effect P fs (fs.setHeader s { fs.header s with refcount := n })
  | elem (s : ℕ) (e : CacheElem) (he : ∀ buf, e.freelist = some buf → KnownLen fs s buf.flist.len) :
      Effect P fs (fs.setElem s e)
  | root (ndx v : ℕ) : Effect P fs (fs.setEntry ndx { fs.pools.entries ndx with rootObjHndl := v })
  | flist (fl : Freelist) (hlen : fl.len = fs.pools.freelist.len) :
      Effect P fs { fs with pools := { fs.pools with freelist := fl } }
  | htbl (t : Htbl) (ht : HtblAfter fs.pools.htbl t) : Effect P fs { fs with pools := { fs.pools with htbl := t } }
  | dispatch (ndx : ℕ) : Effect P fs { fs with pools := flaPoolInitializeEntrieFunc fs.pools ndx }
  /-- an entry is reset for a new pool -/
  | entry (ndx : ℕ) (e : PoolEntry) (arg : PoolCreateArg) (n : ℕ) (hcalc : flaCalcObjsInSlab fs.vol arg.objNlb = .ok n)
      (he : flaPoolEntryResetDefault env (fs.pools.entries ndx) arg n = .ok e) : Effect P fs (fs.setEntry ndx e)
  /-- parts are written to the device -/
  | flushed (fs' : Flexalloc) (h : Flushed fs fs') : Effect P fs fs'

/-- a chain of writes -/
abbrev Effects (P : ℕ → Prop) : Flexalloc → Flexalloc → Prop := Relation.ReflTransGen (Effect P)

/-- the links of a system that lead on have `P`, and so has every value that passes the checks -/
structure LinksIn (P : ℕ → Prop) (fs : Flexalloc) : Prop where
  checked : ∀ v, Within fs.nslabs v → P v
  next : ∀ s, P (fs.header s).next
  heads : ∀ i k, P ((fs.pools.entries i).head k)
  queue : P fs.slabs.fslabHead ∧ P fs.slabs.fslabTail

theorem linksIn_true (fs : Flexalloc) : LinksIn (fun _ => True) fs :=
  ⟨fun _ _ => trivial, fun _ => trivial, fun _ _ => trivial, trivial, trivial⟩

section Effects

variable {P : ℕ → Prop} {fs fs' : Flexalloc}

theorem head_setHead (e : PoolEntry) (k k' : SlabKind) (v : ℕ) :
    (e.setHead k v).head k' = if k' = k then v else e.head k' := by
  cases k <;> cases k' <;> rfl

theorem setEntry_forall {Q : PoolEntry → Prop} (h : ∀ i, Q (fs.pools.entries i)) (ndx : ℕ) {e : PoolEntry} (he : Q e)
    (i : ℕ) : Q ((fs.setEntry ndx e).pools.entries i) := by
  show Q (update fs.pools.entries ndx e i)
  by_cases hi : i = ndx
  · rw [hi, update_self]
    exact he
  · rw [update_of_ne hi]
    exact h i

theorem setHeader_forall {Q : SlabHeader → Prop} (h : ∀ s, Q (fs.header s)) (x : ℕ) {hd : SlabHeader} (hx : Q hd)
    (s : ℕ) : Q ((fs.setHeader x hd).header s) := by
  show Q (update fs.slabs.headers x hd s)
  by_cases hs : s = x
  · rw [hs, update_self]
    exact hx
  · rw [update_of_ne hs]
    exact h s

theorem LinksIn.setEntry (hl : LinksIn P fs) (ndx : ℕ) {e : PoolEntry} (he : ∀ k, P (e.head k)) (i : ℕ) (k : SlabKind) :
    P (((fs.setEntry ndx e).pools.entries i).head k) :=
  setEntry_forall (Q := fun e => ∀ k, P (e.head k)) hl.heads ndx he i k

theorem LinksIn.setHeader (hl : LinksIn P fs) (x : ℕ) {h : SlabHeader} (hh : P h.next) (s : ℕ) :
    P ((fs.setHeader x h).header s).next := setHeader_forall (Q := fun h => P h.next) hl.next x hh s

theorem LinksIn.relinked (hl : LinksIn P fs) {hd : ℕ → SlabHeader} (hhd : Relinked P fs.nslabs fs.slabs.headers hd)
    (s : ℕ) : P (hd s).next := by
  rcases hhd.next s with heq | hp
  · rw [heq]
    exact hl.next s
  · exact hp

theorem Effect.vol (h : Effect P fs fs') : fs'.vol = fs.vol := by
  cases h with
  | flushed _ h => exact h.vol
  | _ => rfl

theorem Effect.linksIn (hl : LinksIn P fs) (h : Effect P fs fs') : LinksIn P fs' := by
  have hnull : P flaLinkedListNull := hl.checked _ (within_null _)
  cases h with
  | list ndx k hd v hhd hv =>
    refine ⟨hl.checked, hl.relinked hhd, hl.setEntry ndx fun k' => ?_, hl.queue⟩
    rw [head_setHead]
    split_ifs
    · exact hv
    · exact hl.heads ndx k'
  | queue hd num head tail hhd _ hhead htail => exact ⟨hl.checked, hl.relinked hhd, hl.heads, hhead, htail⟩
  | format s => exact ⟨hl.checked, hl.setHeader s hnull, hl.heads, hl.queue⟩
  | count s n _ => exact ⟨hl.checked, hl.setHeader s (hl.next s), hl.heads, hl.queue⟩
  | elem s e _ => exact ⟨hl.checked, hl.next, hl.heads, hl.queue⟩
  | root ndx v =>
    refine ⟨hl.checked, hl.next, hl.setEntry ndx fun k => ?_, hl.queue⟩
    have hk := hl.heads ndx k
    cases k <;> exact hk
  | flist fl _ => exact ⟨hl.checked, hl.next, hl.heads, hl.queue⟩
  | htbl t _ => exact ⟨hl.checked, hl.next, hl.heads, hl.queue⟩
  | dispatch ndx => exact ⟨hl.checked, hl.next, hl.heads, hl.queue⟩
  | entry ndx e arg n _ he =>
    obtain ⟨name, -, he⟩ := bind_eq_ok he
    cases he
    exact ⟨hl.checked, hl.next, hl.setEntry ndx fun k => by cases k <;> exact hnull, hl.queue⟩
  | flushed _ h =>
    obtain ⟨m, hp⟩ := h.pools
    refine ⟨?_, fun s => ?_, fun i k => ?_, ?_⟩
    · rw [Flexalloc.nslabs, h.vol]
      exact hl.checked
    · rw [Flexalloc.header, h.slabs]
      exact hl.next s
    · rw [hp]
      exact hl.heads i k
    · rw [h.slabs]
      exact hl.queue

/-- an invariant of effects is one of chains -/
theorem Effects.inv {I : Flexalloc → Prop} (hI : ∀ a b, Effect P a b → I a → I b) (h : Effects P fs fs') (hi : I fs) :
    I fs' := by
  induction h with
  | refl => exact hi
  | tail _ hstep ih => exact hI _ _ hstep ih

theorem Effects.linksIn (hl : LinksIn P fs) (h : Effects P fs fs') : LinksIn P fs' :=
  h.inv (fun _ _ he hl => he.linksIn hl) hl

theorem Effects.vol (h : Effects P fs fs') : fs'.vol = fs.vol :=
  h.inv (I := fun a => a.vol = fs.vol) (fun _ _ he hi => he.vol.trans hi) rfl

end Effects

/-! ## Slabs -/

section Slabs

variable {P : ℕ → Prop} {env : Env} {fs fs' : Flexalloc} {err : ℤ} {ndx slab : ℕ} (hl : LinksIn P fs)

theorem onList_effects {k : SlabKind} {op : (ℕ → SlabHeader) → ℕ → ℤ × (ℕ → SlabHeader) × ℕ}
    (hop : ∀ err hd head, op fs.slabs.headers ((fs.pools.entries ndx).head k) = (err, hd, head) →
      Relinked P fs.nslabs fs.slabs.headers hd ∧ P head) (h : fs.onList ndx k op = (err, fs')) : Effects P fs fs' := by
  obtain ⟨hd, head, hrun, rfl⟩ := onList_inv h
  obtain ⟨hhd, hhead⟩ := hop err hd head hrun
  exact .single (.list ndx k hd head hhd hhead)

include hl

theorem moveSlab_effects {src dst : ℕ × SlabKind} (h : moveSlab fs slab src dst = (err, fs')) : Effects P fs fs' := by
  unfold moveSlab at h
  cases hsrc : fs.onList src.1 src.2 fun hd head => flaHdllRemove fs.nslabs hd slab head with
  | mk err₁ fs₁ =>
    have h1 : Effects P fs fs₁ :=
      onList_effects (fun _ _ _ hrun => hdllRemove_relinked (hl.next slab) (hl.heads _ _) hrun) hsrc
    have hl₁ := h1.linksIn hl
    rw [hsrc] at h
    dsimp only at h
    split_ifs at h
    · cases h
      exact h1
    · exact h1.trans (onList_effects (fun _ _ _ hrun => hdllPrepend_relinked hl₁.checked (hl₁.heads _ _) hrun) h)

theorem releaseSlab_effects (h : flaReleaseSlab fs slab = (err, fs')) : Effects P fs fs' := by
  have hdrop : Effects P fs (flaSlabCacheElemDrop fs slab) := .single (.elem slab _ fun _ h => by cases h)
  have hl₁ := hdrop.linksIn hl
  unfold flaReleaseSlab at h
  generalize flaSlabCacheElemDrop fs slab = fs₁ at hdrop hl₁ h
  split_ifs at h
  · cases h
    exact .refl
  · cases h
    exact .refl
  · dsimp only at h
    cases hq : flaEdllAddTail fs₁.nslabs fs₁.slabs.headers fs₁.slabs.fslabHead fs₁.slabs.fslabTail slab with
    | mk err₁ q =>
      obtain ⟨hd, head, tail⟩ := q
      obtain ⟨hhd, hhead, htail⟩ := edllAddTail_relinked hl₁.checked hl₁.queue.1 hl₁.queue.2 hq
      rw [hq] at h
      split_ifs at h
      · cases h
        exact hdrop.tail (.queue hd _ head tail hhd (.inl rfl) hhead htail)
      · cases h
        exact hdrop.tail (.queue hd _ head tail hhd (.inr (u32_lt _)) hhead htail)

theorem removeAllLoop_effects (n : ℕ) {head head' : ℕ} (hhead : P head)
    (h : hdllRemoveAllLoop n head fs = (err, head', fs')) : Effects P fs fs' ∧ P head' := by
  induction n generalizing head fs with
  | zero =>
    cases h
    exact ⟨.refl, hhead⟩
  | succ n ih =>
    rw [hdllRemoveAllLoop] at h
    cases hrel : flaReleaseSlab fs head with
    | mk err₁ fs₁ =>
      have h1 := releaseSlab_effects hl hrel
      have hnext := hl.next head
      rw [hrel] at h
      split_ifs at h
      · cases h
        exact ⟨.refl, hhead⟩
      · cases h
        exact ⟨.refl, hhead⟩
      · dsimp only at h
        split_ifs at h
        · cases h
          exact ⟨h1, hnext⟩
        · obtain ⟨h2, hp⟩ := ih (h1.linksIn hl) hnext h
          exact ⟨h1.trans h2, hp⟩

theorem removeAll_effects {k : SlabKind} (h : flaHdllRemoveAll fs ndx k = (err, fs')) : Effects P fs fs' := by
  unfold flaHdllRemoveAll at h
  cases hloop : hdllRemoveAllLoop fs.nslabs ((fs.pools.entries ndx).head k) fs with
  | mk err₁ r =>
    obtain ⟨head, fs₁⟩ := r
    obtain ⟨h1, hhead⟩ := removeAllLoop_effects hl _ (hl.heads ndx k) hloop
    rw [hloop] at h
    cases h
    exact h1.tail (.list ndx k _ head (.refl ..) hhead)

theorem releaseAll_effects (h : flaPoolReleaseAllSlabs fs ndx = (err, fs')) : Effects P fs fs' := by
  unfold flaPoolReleaseAllSlabs at h
  cases h1 : flaHdllRemoveAll fs ndx .empty with
  | mk err₁ fs₁ =>
    have hc1 := removeAll_effects hl h1
    rw [h1] at h
    cases h2 : flaHdllRemoveAll fs₁ ndx .full with
    | mk err₂ fs₂ =>
      have hc2 : Effects P fs fs₂ := hc1.trans (removeAll_effects (hc1.linksIn hl) h2)
      dsimp only at h
      rw [h2] at h
      split_ifs at h
      · cases h
        exact hc1
      · cases h
        exact hc2
      · exact hc2.trans (removeAll_effects (hc2.linksIn hl) h)

omit hl in
theorem formatSlab_effects {objNlb : ℕ} (h : flaFormatSlab env fs slab objNlb = .ok (err, fs')) : Effects P fs fs' := by
  unfold flaFormatSlab at h
  cases hcalc : flaCalcObjsInSlab fs.vol objNlb with
  | error f =>
    rw [hcalc] at h
    cases h
  | ok n =>
    rw [hcalc] at h
    have hfmt : Effects P fs (fs.setHeader slab ⟨0, flaLinkedListNull, flaLinkedListNull, 0⟩) := .single (.format slab)
    dsimp only at h
    split_ifs at h
    · cases h
      exact .refl
    · cases h
      exact hfmt
    · unfold flaSlabCacheElemInit at h
      split_ifs at h
      · cases h
        exact hfmt
      · cases h
        refine hfmt.tail (.elem slab _ fun buf hbuf => ?_)
        cases hbuf
        exact .inr (.inl ⟨objNlb, hcalc⟩)
      · cases h
        exact hfmt

theorem acquireSlab_effects {objNlb : ℕ} (h : flaAcquireSlab env fs objNlb = .ok (err, slab, fs')) : Effects P fs fs' := by
  unfold flaAcquireSlab at h
  split_ifs at h
  · cases h
    exact .refl
  cases hq : flaEdllRemoveHead fs.nslabs fs.slabs.headers fs.slabs.fslabHead fs.slabs.fslabTail with
  | mk err₁ q =>
    obtain ⟨hd, head, tail, x⟩ := q
    obtain ⟨hhd, hhead, htail⟩ := edllRemoveHead_relinked hl.checked hl.queue.1 hl.queue.2 hl.next hq
    have h1 : Effects P fs (fs.unlinked hd head tail) := .single (.queue hd _ head tail hhd (.inl rfl) hhead htail)
    rw [hq] at h
    dsimp only at h
    rw [← Flexalloc.unlinked] at h
    split_ifs at h
    · cases h
      exact h1
    cases hfmt : flaFormatSlab env (fs.unlinked hd head tail) x objNlb with
    | error f =>
      rw [hfmt] at h
      cases h
    | ok r =>
      obtain ⟨err₂, fs₂⟩ := r
      have h2 : Effects P fs fs₂ := h1.trans (formatSlab_effects hfmt)
      have hl₂ := h2.linksIn hl
      rw [hfmt] at h
      dsimp only at h
      split_ifs at h
      · cases h
        exact h2
      · cases h
        exact h2.tail (.queue _ _ _ _ (.refl ..) (.inr (u32_lt _)) hl₂.queue.1 hl₂.queue.2)

theorem addEmpty_effects {x : ℕ} (h : poolAddEmpty fs ndx x = (err, slab, fs')) : Effects P fs fs' := by
  unfold poolAddEmpty at h
  cases hon : fs.onList ndx .empty fun hd head => flaHdllPrepend fs.nslabs hd x head with
  | mk err₁ fs₁ =>
    have h1 : Effects P fs fs₁ :=
      onList_effects (fun _ _ _ hrun => hdllPrepend_relinked hl.checked (hl.heads _ _) hrun) hon
    rw [hon] at h
    dsimp only at h
    cases hrel : flaReleaseSlab fs₁ x with
    | mk err₂ fs₂ =>
      rw [hrel] at h
      split_ifs at h
      · cases h
        exact h1.trans (releaseSlab_effects (h1.linksIn hl) hrel)
      · cases h
        exact h1

theorem nextAvailableSlab_effects (h : flaPoolNextAvailableSlab env fs ndx = .ok (err, slab, fs')) :
    Effects P fs fs' := by
  unfold flaPoolNextAvailableSlab at h
  split_ifs at h
  · cases hacq : flaAcquireSlab env fs (fs.pools.entries ndx).objNlb with
    | error f =>
      rw [hacq] at h
      cases h
    | ok r =>
      obtain ⟨err₁, x, fs₁⟩ := r
      have h1 := acquireSlab_effects hl hacq
      rw [hacq] at h
      dsimp only at h
      split_ifs at h
      · cases h
        exact h1
      · exact h1.trans (addEmpty_effects (h1.linksIn hl) (Except.ok.inj h))
  · cases h
    exact .refl
  · cases h
    exact .refl

end Slabs

/-! ## Objects -/

section Objects

variable {P : ℕ → Prop} {env : Env} {fs fs' : Flexalloc} {err : ℤ} {ndx slab : ℕ}

theorem elemLoad_effects (h : flaSlabCacheElemLoad env fs slab (fs.pools.entries ndx).slabNobj = .ok (err, fs')) :
    Effects P fs fs' := by
  obtain ⟨rfl, -⟩ | ⟨-, -, -, -, buf, -, -, rfl⟩ := elemLoad_inv h
  · exact .refl
  · refine .single (.elem slab _ fun b hb => ?_)
    cases hb
    exact .inr (.inr ⟨ndx, rfl⟩)

theorem elem_effects {buf : FlistBuf} (hbuf : (fs.cache slab).freelist = some buf) (st : ElemState) {fl : Freelist}
    (hlen : fl.len = buf.flist.len) : Effects P fs (fs.setElem slab ⟨st, some { buf with flist := fl }⟩) := by
  refine .single (.elem slab _ fun b hb => ?_)
  cases hb
  exact .inl ⟨buf, hbuf, hlen.symm⟩

theorem objAlloc_effects {n : ℕ} {obj : Option Obj} (h : flaSlabCacheObjAlloc fs slab n = .ok (err, obj, fs')) :
    Effects P fs fs' := by
  unfold flaSlabCacheObjAlloc at h
  dsimp only at h
  split_ifs at h
  · cases h
    exact .refl
  cases hbuf : (fs.cache slab).freelist with
  | none =>
    rw [hbuf] at h
    cases h
  | some buf =>
    rw [hbuf] at h
    dsimp only at h
    split_ifs at h
    · cases h
      exact elem_effects hbuf _ (entriesAlloc_len _ _)
    · cases h
      exact elem_effects hbuf _ (entriesAlloc_len _ _)

theorem objFree_effects {n : ℕ} {obj : Obj} (h : flaSlabCacheObjFree fs obj n = .ok (err, fs')) : Effects P fs fs' := by
  unfold flaSlabCacheObjFree at h
  dsimp only at h
  split_ifs at h
  · cases h
    exact .refl
  cases hbuf : (fs.cache obj.slabId).freelist with
  | none =>
    rw [hbuf] at h
    cases h
  | some buf =>
    rw [hbuf] at h
    dsimp only at h
    cases hfree : flaFlistEntriesFree buf.flist obj.entryNdx n with
    | error f =>
      rw [hfree] at h
      cases h
    | ok r =>
      obtain ⟨err₁, fl⟩ := r
      rw [hfree] at h
      dsimp only at h
      split_ifs at h
      · cases h
        exact elem_effects hbuf _ (entriesFree_len hfree)
      · cases h
        exact elem_effects hbuf _ (entriesFree_len hfree)

theorem nextAvailableObj_effects {n : ℕ} {obj : Option Obj}
    (h : flaSlabNextAvailableObj fs slab n = .ok (err, obj, fs')) : Effects P fs fs' := by
  unfold flaSlabNextAvailableObj at h
  split_ifs at h
  · cases h
    exact .refl
  cases halloc : flaSlabCacheObjAlloc fs slab n with
  | error f =>
    rw [halloc] at h
    cases h
  | ok r =>
    obtain ⟨err₁, obj₁, fs₁⟩ := r
    have h1 : Effects P fs fs₁ := objAlloc_effects halloc
    rw [halloc] at h
    dsimp only at h
    split_ifs at h
    · cases h
      exact h1
    split at h
    · cases h
      exact h1.tail (.count slab _ (u32_lt _))
    · cases h
    · cases h

theorem objectOpen_effects {obj : Obj} (h : flaBaseObjectOpen env fs ndx obj = .ok (err, fs')) : Effects P fs fs' := by
  unfold flaBaseObjectOpen at h
  split_ifs at h
  · cases h
    exact .refl
  obtain ⟨e, he, h⟩ := bind_eq_ok h
  obtain rfl := entryAt_eq he
  obtain ⟨⟨err₁, fs₁⟩, hload, h⟩ := bind_eq_ok h
  cases h
  exact elemLoad_effects hload

variable (hl : LinksIn P fs)

include hl

theorem objectCreateIn_effects {obj : Option Obj} (h : objectCreateIn env fs ndx slab = .ok (err, obj, fs')) :
    Effects P fs fs' := by
  unfold objectCreateIn at h
  split_ifs at h
  · cases h
    exact .refl
  obtain ⟨⟨err₁, fs₁⟩, hload, h⟩ := bind_eq_ok h
  have h1 : Effects P fs fs₁ := elemLoad_effects hload
  dsimp only at h
  split_ifs at h
  · cases h
    exact h1
  obtain ⟨src, -, h⟩ := bind_eq_ok h
  obtain ⟨fnc, -, h⟩ := bind_eq_ok h
  obtain ⟨⟨err₂, obj₂, fs₂⟩, hnext, h⟩ := bind_eq_ok h
  have h2 : Effects P fs fs₂ := h1.trans (nextAvailableObj_effects hnext)
  dsimp only at h
  split_ifs at h
  · cases h
    exact h2
  obtain ⟨dst, -, h⟩ := bind_eq_ok h
  split_ifs at h
  · cases h
    exact h2
  · cases hmove : moveSlab fs₂ slab src dst with
    | mk err₃ fs₃ =>
      rw [hmove] at h
      cases h
      exact h2.trans (moveSlab_effects (h2.linksIn hl) hmove)

theorem objectCreate_effects {obj : Option Obj} (h : flaBaseObjectCreate env fs ndx = .ok (err, obj, fs')) :
    Effects P fs fs' := by
  obtain ⟨e, -, h⟩ := bind_eq_ok h
  obtain ⟨⟨err₁, slab, fs₁⟩, hnext, h⟩ := bind_eq_ok h
  have h1 := nextAvailableSlab_effects hl hnext
  dsimp only at h
  split_ifs at h
  · cases h
    exact h1
  · exact h1.trans (objectCreateIn_effects (h1.linksIn hl) h)

theorem objectDestroy_effects {obj : Obj} (h : flaBaseObjectDestroy env fs ndx obj = .ok (err, fs')) :
    Effects P fs fs' := by
  obtain ⟨err₁, -, h⟩ := bind_eq_ok h
  split_ifs at h
  · cases h
    exact .refl
  · cases h
    exact .refl
  obtain ⟨src, -, h⟩ := bind_eq_ok h
  obtain ⟨fnc, -, h⟩ := bind_eq_ok h
  obtain ⟨n, -, h⟩ := bind_eq_ok h
  obtain ⟨⟨err₂, fs₂⟩, hfree, h⟩ := bind_eq_ok h
  have h1 : Effects P fs fs₂ := objFree_effects hfree
  dsimp only at h
  split_ifs at h
  · cases h
    exact h1
  obtain ⟨dst, -, h⟩ := bind_eq_ok h
  have h2 : Effects P fs (fs₂.subRefcount obj.slabId n) := h1.tail (.count obj.slabId _ (u32_lt _))
  exact h2.trans (moveSlab_effects (h2.linksIn hl) (Except.ok.inj h))

end Objects

/-! ## Pools -/

section Pools

variable {P : ℕ → Prop} {env : Env} {fs fs' : Flexalloc} {err : ℤ} {ndx : ℕ}

theorem poolForget_effects (h : poolForget fs ndx = .ok (err, fs')) : Effects P fs fs' := by
  obtain ⟨⟨err₁, fl⟩, hfree, h⟩ := bind_eq_ok h
  have h1 : Effects P fs { fs with pools := { fs.pools with freelist := fl } } := .single (.flist fl (entriesFree_len hfree))
  dsimp only at h
  split_ifs at h
  · cases h
    exact h1
  · obtain ⟨tbl, htbl, h⟩ := bind_eq_ok h
    cases h
    exact h1.tail (.htbl tbl (.inr ⟨_, htbl⟩))

theorem poolDestroy_effects (hl : LinksIn P fs) {handle : PoolHandle}
    (h : flaBasePoolDestroy fs handle = .ok (err, fs')) : Effects P fs fs' := by
  obtain ⟨err₁, -, h⟩ := bind_eq_ok h
  split_ifs at h
  · cases h
    exact .refl
  cases hrel : flaPoolReleaseAllSlabs fs handle.ndx with
  | mk err₂ fs₂ =>
    have h1 := releaseAll_effects hl hrel
    rw [hrel] at h
    dsimp only at h
    split_ifs at h
    · cases h
      exact h1
    · exact h1.trans (poolForget_effects h)

theorem setRootObject_effects {obj : Obj} {act : RootObjSetAction}
    (h : flaBasePoolSetRootObject fs ndx obj act = .ok (err, fs')) : Effects P fs fs' := by
  obtain ⟨e, he, h⟩ := bind_eq_ok h
  obtain rfl := entryAt_eq he
  split at h
  · cases h
    exact .refl
  · cases h
    exact .single (.root ndx _)

theorem flush_effects (h : flaFlush env fs = .ok (err, fs')) : Effects P fs fs' := .single (.flushed fs' (flush_flushed h))

theorem poolCreateAt_effects {arg : PoolCreateArg} {handle : Option PoolHandle} {n : ℕ}
    (h : poolCreateAt env fs arg ndx n = .ok (err, handle, fs')) (hcalc : flaCalcObjsInSlab fs.vol arg.objNlb = .ok n) :
    Effects P fs fs' := by
  obtain ⟨e, -, h⟩ := bind_eq_ok h
  dsimp only at h
  obtain ⟨⟨err₁, tbl⟩, hins, h⟩ := bind_eq_ok h
  have h1 : Effects P fs { fs with pools := flaPoolInitializeEntrieFunc fs.pools ndx } := .single (.dispatch ndx)
  have h2 : Effects P fs { fs with pools := { flaPoolInitializeEntrieFunc fs.pools ndx with htbl := tbl } } :=
    h1.tail (.htbl tbl (.inl ⟨_, _, _, hins⟩))
  split_ifs at h
  · obtain ⟨⟨err₂, fl⟩, hfree, h⟩ := bind_eq_ok h
    cases h
    exact h2.tail (.flist fl (entriesFree_len hfree))
  obtain ⟨fnc, hfnc, h⟩ := bind_eq_ok h
  -- the entry was dispatched to the default functions just before
  obtain rfl : fnc = .dflt := by
    unfold Flexalloc.fncAt at hfnc
    split_ifs at hfnc
    rw [initializeEntrieFunc_eq] at hfnc
    dsimp only at hfnc
    rw [update_self] at hfnc
    exact (Except.ok.inj hfnc).symm
  obtain ⟨e', hreset, h⟩ := bind_eq_ok h
  cases h
  exact h2.tail (.entry ndx e' arg n hcalc hreset)

theorem poolCreate_effects {arg : PoolCreateArg} {handle : Option PoolHandle}
    (h : flaBasePoolCreate env fs arg = .ok (err, handle, fs')) : Effects P fs fs' := by
  obtain ⟨⟨err₁, found⟩, -, h⟩ := bind_eq_ok h
  split at h
  · obtain ⟨e, -, h⟩ := bind_eq_ok h
    split_ifs at h
    · cases h
      exact .refl
    · cases h
      exact .refl
  split at h
  · cases h
    exact .refl
  obtain ⟨n, hcalc, h⟩ := bind_eq_ok h
  split at h
  · cases h
    exact .refl
  split at h
  · cases h
    exact .refl
  split at h
  · cases h
    exact .refl
  have h1 : Effects P fs { fs with pools := { fs.pools with freelist := (flaFlistEntriesAlloc fs.pools.freelist 1).2 } } :=
    .single (.flist _ (entriesAlloc_len _ _))
  dsimp only at h
  split_ifs at h
  · cases h
    exact h1
  · exact h1.trans (poolCreateAt_effects h hcalc)

end Pools

end FlexAlloc
