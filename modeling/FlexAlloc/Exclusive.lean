/-
No two clients hold the same object.

A client holds an object from the answer that it created it to the answer to its destroy of it, whatever that answer is: also
a destroy that failed ends the holding. The clients are careful: one destroys only an object it holds, and a pool is
destroyed only when nobody holds an object. What carries the result is one fact about the base functions: an entry that is
reserved in a freelist that is loaded stays so, in whatever pool and whatever list its slab is, until that object is destroyed
or slabs are released.

- `baseCall_reserved`: what each call does to reserved entries, and that a created object was not one.
- `clients_exclusive`: in every run of careful clients the objects they hold are all different.
-/
import FlexAlloc.Clients
import FlexAlloc.Steady
import FlexAlloc.Striping

namespace FlexAlloc

open FlexAlloc.Core Function

/-! ## Reserved entries -/

/-- the entry of an object is not free in the freelist of its slab, which is loaded -/
def Reserved (fs : Flexalloc) (o : Obj) : Prop :=
  (fs.cache o.slabId).state ≠ .stale ∧ ∃ buf, (fs.cache o.slabId).freelist = some buf ∧ buf.flist.isFree o.entryNdx = false

/-- every reserved entry but those of `gone` stays reserved -/
def Keeps (gone : Set Obj) (fs fs' : Flexalloc) : Prop := ∀ o, o ∉ gone → Reserved fs o → Reserved fs' o

/-- at most the freelist of slab `x` changes, and only if it is not loaded -/
def StaleOnly (x : ℕ) (fs fs' : Flexalloc) : Prop :=
  fs'.cache = fs.cache ∨ ((fs.cache x).state = .stale ∧ ∀ y, y ≠ x → fs'.cache y = fs.cache y)

section Reserved

variable {env : Env} {fs fs' fs'' : Flexalloc} {ndx x slab n : ℕ} {err : ℤ} {obj : Obj} {gone : Set Obj}

theorem Keeps.refl (gone : Set Obj) (fs : Flexalloc) : Keeps gone fs fs := fun _ _ h => h

theorem Keeps.trans (h : Keeps gone fs fs') (h' : Keeps gone fs' fs'') : Keeps gone fs fs'' := fun o ho hr =>
  h' o ho (h o ho hr)

theorem Keeps.of_cache (h : fs'.cache = fs.cache) : Keeps gone fs fs' := by
  intro o _ hr
  unfold Reserved
  rw [h]
  exact hr

theorem StaleOnly.keeps (h : StaleOnly x fs fs') : Keeps gone fs fs' := by
  rcases h with h | ⟨hst, h⟩
  · exact Keeps.of_cache h
  · intro o _ hr
    have hne : o.slabId ≠ x := fun he => hr.1 (he ▸ hst)
    unfold Reserved
    rw [h _ hne]
    exact hr

theorem keeps_setElem {buf buf' : FlistBuf} {st : ElemState} (hst : st ≠ .stale)
    (hbuf : (fs.cache x).freelist = some buf)
    (hfree : ∀ i, (⟨x, i⟩ : Obj) ∉ gone → buf.flist.isFree i = false → buf'.flist.isFree i = false) :
    Keeps gone fs (fs.setElem x ⟨st, some buf'⟩) := by
  intro o ho hr
  obtain ⟨hstale, b, hb, hres⟩ := hr
  by_cases hx : o.slabId = x
  · subst hx
    rw [hbuf] at hb
    cases hb
    unfold Reserved Flexalloc.setElem
    simp only [update_self]
    exact ⟨hst, buf', rfl, hfree _ ho hres⟩
  · unfold Reserved Flexalloc.setElem
    simp only [update_of_ne hx]
    exact ⟨hstale, b, hb, hres⟩

/-! ### Slabs -/

theorem onList_cache {k : SlabKind} {op : (ℕ → SlabHeader) → ℕ → ℤ × (ℕ → SlabHeader) × ℕ}
    (h : fs.onList ndx k op = (err, fs')) : fs'.cache = fs.cache := by
  obtain ⟨hd, head, -, rfl⟩ := onList_inv h
  rfl

/-- a slab that is released is dropped from the cache -/
theorem releaseSlab_cache (h : flaReleaseSlab fs x = (err, fs')) : ∀ y, y ≠ x → fs'.cache y = fs.cache y := by
  intro y hy
  unfold flaReleaseSlab at h
  split_ifs at h
  · cases h
    rfl
  · cases h
    rfl
  · dsimp only at h
    split_ifs at h
    · cases h
      exact update_of_ne hy _ _
    · cases h
      exact update_of_ne hy _ _

/-- a slab is formatted only when its freelist is not loaded -/
theorem formatSlab_cache {objNlb : ℕ} (h : flaFormatSlab env fs x objNlb = .ok (err, fs')) :
    (fs'.cache = fs.cache ∧ err ≠ 0) ∨ ((fs.cache x).state = .stale ∧ ∀ y, y ≠ x → fs'.cache y = fs.cache y) := by
  unfold flaFormatSlab at h
  cases hcalc : flaCalcObjsInSlab fs.vol objNlb with
  | error f =>
    rw [hcalc] at h
    cases h
  | ok m =>
    rw [hcalc] at h
    dsimp only at h
    unfold flaSlabCacheElemInit at h
    split_ifs at h with hm hck hst hbuf
    · cases h
      exact Or.inl ⟨rfl, by decide⟩
    · cases h
      exact Or.inl ⟨rfl, by decide⟩
    · cases h
      exact Or.inl ⟨rfl, by decide⟩
    · cases h
      exact Or.inr ⟨not_ne_iff.1 hst, fun y hy => update_of_ne hy _ _⟩
    · cases h
      exact Or.inl ⟨rfl, by decide⟩

theorem acquireSlab_cache {objNlb : ℕ} (h : flaAcquireSlab env fs objNlb = .ok (err, slab, fs')) :
    (fs'.cache = fs.cache ∧ err ≠ 0) ∨ ((fs.cache slab).state = .stale ∧ ∀ y, y ≠ slab → fs'.cache y = fs.cache y) := by
  unfold flaAcquireSlab at h
  split_ifs at h
  · cases h
    exact Or.inl ⟨rfl, by decide⟩
  cases hrun : flaEdllRemoveHead fs.nslabs fs.slabs.headers fs.slabs.fslabHead fs.slabs.fslabTail with
  | mk err₁ r =>
    obtain ⟨hd, head, tail, s⟩ := r
    rw [hrun] at h
    dsimp only at h
    split_ifs at h with herr
    · cases h
      exact Or.inl ⟨rfl, herr⟩
    · cases hfmt : flaFormatSlab env { fs with slabs := ⟨hd, fs.slabs.fslabNum, head, tail⟩ } s objNlb with
      | error f =>
        rw [hfmt] at h
        cases h
      | ok r =>
        obtain ⟨err₂, fs₂⟩ := r
        rw [hfmt] at h
        have hcache := formatSlab_cache hfmt
        dsimp only at h
        split_ifs at h with herr₂
        · cases h
          exact hcache
        · cases h
          exact hcache.imp (fun hc => absurd hc.2 herr₂) id

theorem nextAvailableSlab_cache (h : flaPoolNextAvailableSlab env fs ndx = .ok (err, slab, fs')) :
    StaleOnly slab fs fs' := by
  unfold flaPoolNextAvailableSlab at h
  split_ifs at h
  · cases hacq : flaAcquireSlab env fs (fs.pools.entries ndx).objNlb with
    | error f =>
      rw [hacq] at h
      cases h
    | ok r =>
      obtain ⟨err₁, x, fs₁⟩ := r
      rw [hacq] at h
      have hcache := acquireSlab_cache hacq
      dsimp only at h
      split_ifs at h with herr
      · cases h
        exact hcache.imp (·.1) id
      -- the slab is put in a list, or else released again
      have hnew : (fs.cache x).state = .stale ∧ ∀ y, y ≠ x → fs₁.cache y = fs.cache y := by
        rcases hcache with ⟨-, hne⟩ | hnew
        · exact absurd hne herr
        · exact hnew
      unfold poolAddEmpty at h
      cases hon : fs₁.onList ndx .empty fun hd head => flaHdllPrepend fs₁.nslabs hd x head with
      | mk err₂ fs₂ =>
        rw [hon] at h
        have hsame := onList_cache hon
        dsimp only at h
        split_ifs at h
        · cases h
          refine Or.inr ⟨hnew.1, fun y hy => ?_⟩
          calc (flaReleaseSlab fs₂ slab).2.cache y = fs₂.cache y := releaseSlab_cache rfl y hy
            _ = fs₁.cache y := by rw [hsame]
            _ = fs.cache y := hnew.2 y hy
        · cases h
          refine Or.inr ⟨hnew.1, fun y hy => ?_⟩
          rw [hsame]
          exact hnew.2 y hy
  · cases h
    exact Or.inl rfl
  · cases h
    exact Or.inl rfl

theorem elemLoad_staleOnly (h : flaSlabCacheElemLoad env fs x n = .ok (err, fs')) : StaleOnly x fs fs' := by
  rcases elemLoad_inv h with ⟨rfl, -⟩ | ⟨-, hst, -, -, buf, -, -, rfl⟩
  · exact Or.inl rfl
  · exact Or.inr ⟨hst, fun y hy => update_of_ne hy _ _⟩

/-! ### Errors -/

/-- an error that is not 0 is not 0 as an `int` either -/
def IsInt (err : ℤ) : Prop := cint err = 0 → err = 0

/-- what `xnvme_nvm_read` returns is an `int` -/
def Env.IntReads (env : Env) : Prop := ∀ slba, IsInt (env.nvmRead slba)

theorem seqLoop_int {ret : ℕ → ℤ} {xfer : ℕ → ℕ → ℕ → Bytes → Bytes} {lb mdts elba : ℕ} (hret : ∀ slba, IsInt (ret slba))
    (fuel slba pos : ℕ) {dst dst' : Bytes} (h : seqLoop ret xfer lb mdts elba fuel slba pos dst = .ok (err, dst')) :
    IsInt err := by
  induction fuel generalizing slba pos dst with
  | zero => cases h
  | succ fuel ih =>
    unfold seqLoop at h
    dsimp only at h
    split_ifs at h
    · cases h
      exact fun _ => rfl
    · cases h
      exact hret slba
    · exact ih _ _ h

theorem elemLoad_int (henv : env.IntReads) (h : flaSlabCacheElemLoad env fs x n = .ok (err, fs')) : IsInt err := by
  unfold flaSlabCacheElemLoad at h
  split at h
  · cases h
    exact fun h => absurd h (by decide)
  split at h
  · cases h
    exact fun h => absurd h (by decide)
  dsimp only at h
  split at h
  · cases h
    exact fun _ => rfl
  split at h
  · cases h
    exact fun h => absurd h (by decide)
  split at h
  · cases h
  · rename_i err₁ buf hread
    split_ifs at h
    · cases h
      exact seqLoop_int henv _ _ _ hread
    · cases h
      exact fun h => absurd h (by decide)
    · cases h
      exact fun _ => rfl

theorem formatSlab_int {objNlb : ℕ} (h : flaFormatSlab env fs x objNlb = .ok (err, fs')) : IsInt err := by
  unfold flaFormatSlab flaSlabCacheElemInit at h
  split at h
  · cases h
  dsimp only at h
  split_ifs at h
  all_goals
    cases h
    first
    | exact fun _ => rfl
    | exact fun h => absurd h (by decide)

theorem acquireSlab_int {objNlb : ℕ} (h : flaAcquireSlab env fs objNlb = .ok (err, slab, fs')) : IsInt err := by
  unfold flaAcquireSlab at h
  split_ifs at h
  · cases h
    exact fun h => absurd h (by decide)
  cases hrun : flaEdllRemoveHead fs.nslabs fs.slabs.headers fs.slabs.fslabHead fs.slabs.fslabTail with
  | mk err₁ r =>
    obtain ⟨hd, head, tail, s⟩ := r
    rw [hrun] at h
    dsimp only at h
    split_ifs at h
    · cases h
      unfold flaEdllRemoveHead at hrun
      split_ifs at hrun
      all_goals
        cases hrun
        first
        | exact fun _ => rfl
        | exact fun h => absurd h (by decide)
    · split at h
      · cases h
      · rename_i err₂ fs₂ hfmt
        split_ifs at h
        · cases h
          exact formatSlab_int hfmt
        · cases h
          exact fun _ => rfl

theorem nextAvailableSlab_int (h : flaPoolNextAvailableSlab env fs ndx = .ok (err, slab, fs')) : IsInt err := by
  unfold flaPoolNextAvailableSlab at h
  split_ifs at h
  · split at h
    · cases h
    · rename_i err₁ x fs₁ hacq
      split_ifs at h
      · cases h
        exact acquireSlab_int hacq
      unfold poolAddEmpty at h
      cases hon : fs₁.onList ndx .empty fun hd head => flaHdllPrepend fs₁.nslabs hd x head with
      | mk err₂ fs₂ =>
        rw [hon] at h
        dsimp only at h
        split_ifs at h
        · cases h
          obtain ⟨hd, head, hrun, -⟩ := onList_inv hon
          unfold flaHdllPrepend at hrun
          split_ifs at hrun
          all_goals
            cases hrun
            first
            | exact fun _ => rfl
            | exact fun h => absurd h (by decide)
        · cases h
          exact fun _ => rfl
  · cases h
    exact fun _ => rfl
  · cases h
    exact fun _ => rfl

/-! ### Objects -/

theorem objAlloc_reserved {o : Option Obj} (gone : Set Obj) (hf : NobjFits fs)
    (h : flaSlabCacheObjAlloc fs x 1 = .ok (err, o, fs')) :
    Keeps gone fs fs' ∧ (cint err = 0 → ∃ made, o = some made ∧ ¬ Reserved fs made ∧ Reserved fs' made ∧
      made.slabId = x ∧ made.entryNdx < 2 ^ 31) := by
  by_cases hst : (fs.cache x).state = .stale
  · rw [flaSlabCacheObjAlloc, if_pos hst] at h
    cases h
    exact ⟨Keeps.refl _ _, fun h => absurd h (by decide)⟩
  cases hbuf : (fs.cache x).freelist with
  | none =>
    rw [flaSlabCacheObjAlloc, if_neg hst, hbuf] at h
    cases h
  | some buf =>
    cases htake : takeEntry buf.flist with
    | none =>
      rw [objAlloc_none hst hbuf htake] at h
      cases h
      exact ⟨Keeps.refl _ _, fun h => absurd h (by decide)⟩
    | some r =>
      obtain ⟨i, fl⟩ := r
      obtain ⟨hfree, -, -, hrest⟩ := takeEntry_some htake
      have hstill : ∀ j, buf.flist.isFree j = false → fl.isFree j = false := fun j hj => by rw [hrest, hj, Bool.false_and]
      have hwords := takeEntry_lt_words htake
      have hpad := u32Elems_mul buf.flist.len
      have hlen := hf.cached x buf hbuf
      by_cases hwide : 2 ^ 31 ≤ i
      · rw [objAlloc_wide hst hbuf htake hwide (by omega)] at h
        cases h
        exact ⟨keeps_setElem hst hbuf fun j _ => hstill j, fun h => absurd h (by decide)⟩
      · rw [objAlloc_spec hst hbuf htake (not_le.1 hwide)] at h
        cases h
        have hdirty : ElemState.dirty ≠ .stale := by decide
        refine ⟨keeps_setElem hdirty hbuf fun j _ => hstill j, fun _ => ⟨_, rfl, ?_, ?_, rfl, not_le.1 hwide⟩⟩
        · rintro ⟨-, b, hb, hres⟩
          have hsame : b = buf := Option.some.inj (hb.symm.trans hbuf)
          rw [hsame, hfree] at hres
          cases hres
        · unfold Reserved Flexalloc.setElem
          simp only [update_self]
          refine ⟨hdirty, _, rfl, ?_⟩
          rw [hrest]
          simp

theorem entriesFree_other {fl fl' : Freelist} {i : ℕ} (hi : i < 2 ^ 32) (h : flaFlistEntriesFree fl i 1 = .ok (err, fl'))
    {j : ℕ} (hj : j ≠ i) : fl'.isFree j = fl.isFree j := by
  unfold flaFlistEntriesFree flaFlistEntryFree at h
  rw [u32_of_lt hi] at h
  split_ifs at h with hpast hword
  · cases h
    rfl
  · cases h
    show bit _ j = bit _ j
    rw [bit_set_or fl.words i j (by decide) hword]
    simp [hj]
  · cases h

theorem objFree_keeps (hi : obj.entryNdx < 2 ^ 32) (h : flaSlabCacheObjFree fs obj 1 = .ok (err, fs')) :
    Keeps {obj} fs fs' := by
  by_cases hst : (fs.cache obj.slabId).state = .stale
  · rw [flaSlabCacheObjFree, if_pos hst] at h
    cases h
    exact Keeps.refl _ _
  cases hbuf : (fs.cache obj.slabId).freelist with
  | none =>
    rw [flaSlabCacheObjFree, if_neg hst, hbuf] at h
    cases h
  | some buf =>
    rw [flaSlabCacheObjFree, if_neg hst, hbuf] at h
    dsimp only at h
    cases hfree : flaFlistEntriesFree buf.flist obj.entryNdx 1 with
    | error f =>
      rw [hfree] at h
      cases h
    | ok r =>
      obtain ⟨err₁, fl⟩ := r
      rw [hfree] at h
      have hother : ∀ i, (⟨obj.slabId, i⟩ : Obj) ∉ ({obj} : Set Obj) → buf.flist.isFree i = false →
          fl.isFree i = false := by
        intro i hi' hres
        have hne : i ≠ obj.entryNdx := by
          rintro rfl
          exact hi' rfl
        rw [entriesFree_other hi hfree hne]
        exact hres
      dsimp only at h
      split_ifs at h
      · cases h
        exact keeps_setElem hst hbuf hother
      · cases h
        have hdirty : ElemState.dirty ≠ .stale := by decide
        exact keeps_setElem hdirty hbuf hother

theorem nextAvailableObj_reserved {o : Option Obj} (gone : Set Obj) (hn : NoStripes fs)
    (h : flaSlabNextAvailableObj fs x 1 = .ok (err, o, fs')) :
    Keeps gone fs fs' ∧ (cint err = 0 → ∃ made, o = some made ∧ ¬ Reserved fs made ∧ Reserved fs' made ∧
      made.slabId = x ∧ made.entryNdx < 2 ^ 31) := by
  unfold flaSlabNextAvailableObj at h
  split_ifs at h
  · cases h
    exact ⟨Keeps.refl _ _, fun h => absurd h (by decide)⟩
  cases halloc : flaSlabCacheObjAlloc fs x 1 with
  | error f =>
    rw [halloc] at h
    cases h
  | ok r =>
    obtain ⟨err₁, o₁, fs₁⟩ := r
    rw [halloc] at h
    have hres := objAlloc_reserved gone hn.fits halloc
    dsimp only at h
    split_ifs at h with herr
    · cases h
      exact hres
    obtain rfl := not_ne_iff.1 herr
    split at h
    · cases h
      -- only the count of the slab changes
      exact hres
    · cases h
    · cases h

theorem objectCreateIn_reserved {o : Option Obj} (gone : Set Obj) (hn : NoStripes fs) (henv : env.IntReads)
    (h : objectCreateIn env fs ndx x = .ok (err, o, fs')) :
    Keeps gone fs fs' ∧ (cint err = 0 → ∃ made, o = some made ∧ ¬ Reserved fs made ∧ Reserved fs' made ∧ made.Fits) := by
  unfold objectCreateIn at h
  split_ifs at h with hck
  · cases h
    exact ⟨Keeps.refl _ _, fun h => absurd h (by decide)⟩
  obtain ⟨⟨err₁, fs₁⟩, hload, h⟩ := bind_eq_ok h
  have hn₁ := hn.plain (elemLoad_effects (P := fun _ => True) hload).plain
  have hkeep : ∀ gone, Keeps gone fs fs₁ := fun gone => (elemLoad_staleOnly hload).keeps
  dsimp only at h
  split_ifs at h with herr₁
  · cases h
    -- the error is not 0
    exact ⟨hkeep gone, fun herr => absurd (elemLoad_int henv hload herr) herr₁.1⟩
  obtain ⟨src, -, h⟩ := bind_eq_ok h
  obtain ⟨fnc, hfnc, h⟩ := bind_eq_ok h
  obtain rfl := hn₁.fnc hfnc
  obtain ⟨⟨err₂, o₂, fs₂⟩, hobj, h⟩ := bind_eq_ok h
  obtain ⟨hkeep₂, hmade⟩ := nextAvailableObj_reserved gone hn₁ hobj
  have hkeeps : Keeps gone fs fs₂ := (hkeep gone).trans hkeep₂
  have hfresh : cint err₂ = 0 → ∃ made, o₂ = some made ∧ ¬ Reserved fs made ∧ Reserved fs₂ made ∧ made.Fits := by
    intro herr
    obtain ⟨made, ho, hnew, hres, rfl, hlt⟩ := hmade herr
    have hid : made.slabId ≤ sub32 fs.nslabs 1 := by simpa [flaSlabRangeCheckId] using hck
    exact ⟨made, ho, fun hr => hnew (hkeep ∅ made (Set.notMem_empty _) hr), hres, hid.trans_lt (u32_lt _),
      hlt.trans (by norm_num)⟩
  dsimp only at h
  split_ifs at h with herr₂
  · cases h
    exact ⟨hkeeps, hfresh⟩
  obtain rfl := not_ne_iff.1 herr₂
  obtain ⟨made, rfl, hnew, hres, hfits⟩ := hfresh rfl
  obtain ⟨dst, -, h⟩ := bind_eq_ok h
  split_ifs at h
  · cases h
    exact ⟨hkeeps, fun _ => ⟨made, rfl, hnew, hres, hfits⟩⟩
  · cases hm : moveSlab fs₂ x src dst with
    | mk err₃ fs₃ =>
      rw [hm] at h
      cases h
      have hcache := (moveSlab_same hm).1
      refine ⟨hkeeps.trans (Keeps.of_cache hcache), fun _ => ⟨made, rfl, hnew, ?_, hfits⟩⟩
      have hkeep₃ : Keeps ∅ fs₂ fs₃ := Keeps.of_cache hcache
      exact hkeep₃ made (Set.notMem_empty _) hres

/-- **Creating an object**: reserved entries stay so, and the new object was not one of them. -/
theorem objectCreate_reserved {o : Option Obj} (gone : Set Obj) (hn : NoStripes fs) (henv : env.IntReads)
    (h : flaBaseObjectCreate env fs ndx = .ok (err, o, fs')) :
    Keeps gone fs fs' ∧ (cint err = 0 → ∃ made, o = some made ∧ ¬ Reserved fs made ∧ Reserved fs' made ∧ made.Fits) := by
  obtain ⟨e, -, h⟩ := bind_eq_ok h
  obtain ⟨⟨err₁, slab, fs₁⟩, hnext, h⟩ := bind_eq_ok h
  have hkeep : ∀ gone, Keeps gone fs fs₁ := fun gone => (nextAvailableSlab_cache hnext).keeps
  have hn₁ := hn.plain (nextAvailableSlab_effects (linksIn_true fs) hnext).plain
  dsimp only at h
  split_ifs at h with herr₁
  · cases h
    exact ⟨hkeep gone, fun herr => absurd (nextAvailableSlab_int hnext herr) herr₁⟩
  obtain ⟨hkeep₁, hmade⟩ := objectCreateIn_reserved gone hn₁ henv h
  refine ⟨(hkeep gone).trans hkeep₁, fun herr => ?_⟩
  obtain ⟨made, rfl, hnew, hres, hfits⟩ := hmade herr
  exact ⟨made, rfl, fun hr => hnew (hkeep ∅ made (Set.notMem_empty _) hr), hres, hfits⟩

theorem objectDestroy_keeps (hn : NoStripes fs) (hi : obj.entryNdx < 2 ^ 32)
    (h : flaBaseObjectDestroy env fs ndx obj = .ok (err, fs')) : Keeps {obj} fs fs' := by
  obtain ⟨err₁, -, h⟩ := bind_eq_ok h
  split_ifs at h
  · cases h
    exact Keeps.refl _ _
  · cases h
    exact Keeps.refl _ _
  obtain ⟨src, -, h⟩ := bind_eq_ok h
  obtain ⟨fnc, hfnc, h⟩ := bind_eq_ok h
  obtain rfl := hn.fnc hfnc
  obtain ⟨m, hm, h⟩ := bind_eq_ok h
  obtain rfl : m = 1 := numFlaObjsAt_eq hm
  obtain ⟨⟨err₂, fs₂⟩, hfree, h⟩ := bind_eq_ok h
  have hkeep := objFree_keeps hi hfree
  dsimp only at h
  split_ifs at h
  · cases h
    exact hkeep
  obtain ⟨dst, -, h⟩ := bind_eq_ok h
  have hcache : fs'.cache = fs₂.cache := (moveSlab_same (Except.ok.inj h)).1
  exact hkeep.trans (Keeps.of_cache hcache)

/-! ### The other calls -/

theorem objectOpen_keeps (h : flaBaseObjectOpen env fs ndx obj = .ok (err, fs')) : Keeps gone fs fs' := by
  unfold flaBaseObjectOpen at h
  split_ifs at h
  · cases h
    exact Keeps.refl _ _
  obtain ⟨e, -, h⟩ := bind_eq_ok h
  obtain ⟨⟨err₁, fs₁⟩, hload, h⟩ := bind_eq_ok h
  cases h
  exact (elemLoad_staleOnly hload).keeps

theorem flush_keeps (h : flaFlush env fs = .ok (err, fs')) : Keeps gone fs fs' := by
  have hf := flush_flushed h
  rintro o - ⟨hst, buf, hbuf, hres⟩
  refine ⟨fun hs => hst ((hf.stale _).1 hs), buf, ?_, hres⟩
  rw [hf.flist]
  exact hbuf

/-- what a call that is not to destroy a pool may free -/
def Call.frees : Call → Set Obj
  | .objectDestroy _ obj => {obj}
  | _ => ∅

/-- **What a call does to reserved entries**: all but that of a destroyed object stay so, and a created object had an entry
that was not reserved and is now. -/
theorem baseCall_reserved {c : Call} {res : Res} (hn : NoStripes fs) (henv : env.IntReads)
    (hfits : ∀ pool obj, c = .objectDestroy pool obj → obj.Fits) (hother : ∀ handle, c ≠ .poolDestroy handle)
    (h : baseCall env fs c = .ok (res, fs')) :
    Keeps c.frees fs fs' ∧ ∀ pool, c = .objectCreate pool → ∀ made, res = .object made →
      ¬ Reserved fs made ∧ Reserved fs' made := by
  cases c with
  | poolDestroy handle => exact absurd rfl (hother handle)
  | sync =>
    obtain ⟨⟨err, fs₁⟩, hrun, h⟩ := bind_eq_ok h
    cases h
    exact ⟨flush_keeps hrun, nofun⟩
  | poolOpen name =>
    obtain ⟨r, -, h⟩ := bind_eq_ok h
    cases h
    exact ⟨Keeps.refl _ _, nofun⟩
  | poolCreate arg =>
    obtain ⟨⟨err, handle, fs₁⟩, hrun, h⟩ := bind_eq_ok h
    cases h
    exact ⟨Keeps.of_cache (poolCreate_poolsOnly hrun).cache, nofun⟩
  | objectOpen pool obj =>
    obtain ⟨⟨err, fs₁⟩, hrun, h⟩ := bind_eq_ok h
    cases h
    exact ⟨objectOpen_keeps hrun, nofun⟩
  | objectDestroy pool obj =>
    obtain ⟨⟨err, fs₁⟩, hrun, h⟩ := bind_eq_ok h
    cases h
    exact ⟨objectDestroy_keeps hn (hfits pool obj rfl).2 hrun, nofun⟩
  | poolSetRootObject pool obj act =>
    obtain ⟨⟨err, fs₁⟩, hrun, h⟩ := bind_eq_ok h
    cases h
    exact ⟨Keeps.of_cache (setRootObject_poolsOnly hrun).cache, nofun⟩
  | poolGetRootObject pool =>
    obtain ⟨r, -, h⟩ := bind_eq_ok h
    cases h
    exact ⟨Keeps.refl _ _, nofun⟩
  | objectCreate pool =>
    obtain ⟨⟨err, o, fs₁⟩, hrun, h⟩ := bind_eq_ok h
    cases h
    obtain ⟨hkeep, hmade⟩ := objectCreate_reserved ∅ hn henv hrun
    refine ⟨hkeep, fun p _ made hres => ?_⟩
    unfold Res.ofObj Res.of at hres
    split_ifs at hres with herr
    obtain ⟨o', rfl, hnew, hres', hfits'⟩ := hmade herr
    have hsame : made = o' := by
      rw [← Res.object.inj hres, Option.getD_some, Obj.stored, u32_of_lt hfits'.1, u32_of_lt hfits'.2]
    rw [hsame]
    exact ⟨hnew, hres'⟩

end Reserved

/-! ## What clients hold -/

/-- what a client holds once it is told of a call; any answer to a destroy ends the holding -/
def holdsStep (l : List Obj) : Call × Res → List Obj
  | (.objectCreate _, .object obj) => obj :: l
  | (.objectDestroy _ obj, _) => l.erase obj
  | _ => l

/-- the objects whose create was answered with the object, and whose destroy was not answered at all -/
def holds (told : List (Call × Res)) : List Obj := told.foldl holdsStep []

variable {ι : Type}

def Phase.destroysPool : Phase → Bool
  | .waiting (.poolDestroy _) => true
  | _ => false

/-- a client destroys what it holds, and a pool is destroyed when nobody holds anything -/
def CarefulClient (n : Net ι) : Event ι → Prop
  | .ask i _ (.objectDestroy _ obj) => obj ∈ holds (n.told i)
  | .turn i _ _ => (n.client i).phase.destroysPool → ∀ j, holds (n.told j) = []
  | _ => True

instance [Fintype ι] (n : Net ι) : (e : Event ι) → Decidable (CarefulClient n e)
  | .ask i _ call => by
    cases call with
    | objectDestroy pool obj => exact inferInstanceAs (Decidable (obj ∈ holds (n.told i)))
    | _ => exact isTrue trivial
  | .turn i _ _ => inferInstanceAs (Decidable ((n.client i).phase.destroysPool → ∀ j, holds (n.told j) = []))
  | .close _ => isTrue trivial
  | .deliver _ => isTrue trivial

/-- the daemon reads through an xNVMe that returns ints -/
def Event.IntReads : Event ι → Prop
  | .turn _ env _ => env.IntReads
  | _ => True

/-- the objects held are all different, reserved, and those asked to be destroyed are among them -/
structure Exclusive (n : Net ι) : Prop where
  wired : Wired n
  plain : NoStripes n.daemon.fs
  nodup : ∀ i, (holds (n.told i)).Nodup
  apart : ∀ i j, i ≠ j → (holds (n.told i)).Disjoint (holds (n.told j))
  reserved : ∀ i, ∀ o ∈ holds (n.told i), Reserved n.daemon.fs o
  asked : ∀ i pool obj, n.sent i ≠ none → (n.client i).phase = .waiting (.objectDestroy pool obj) →
    obj ∈ holds (n.told i)

theorem holds_snoc (told : List (Call × Res)) (v : Call × Res) : holds (told ++ [v]) = holdsStep (holds told) v := by
  unfold holds
  rw [List.foldl_append]
  rfl

theorem holdsStep_cases (l : List Obj) (v : Call × Res) :
    (holdsStep l v = l ∧ ∀ pool obj, v.1 ≠ .objectDestroy pool obj) ∨
    (∃ pool obj, v = (.objectCreate pool, .object obj) ∧ holdsStep l v = obj :: l) ∨
    ∃ pool obj, v.1 = .objectDestroy pool obj ∧ holdsStep l v = l.erase obj := by
  obtain ⟨call, res⟩ := v
  cases call with
  | objectDestroy pool obj => exact Or.inr (Or.inr ⟨pool, obj, rfl, rfl⟩)
  | objectCreate pool =>
    cases res with
    | object obj => exact Or.inr (Or.inl ⟨pool, obj, rfl, rfl⟩)
    | _ => exact Or.inl ⟨rfl, nofun⟩
  | _ => exact Or.inl ⟨rfl, nofun⟩

section Exclusive

variable {n n' : Net ι} {i : ι}

theorem Exclusive.quiet (h : Exclusive n) (hw : Wired n') (htold : ∀ j, n'.told j = n.told j)
    (hfs : n'.daemon.fs = n.daemon.fs)
    (hasked : ∀ j pool obj, n'.sent j ≠ none → (n'.client j).phase = .waiting (.objectDestroy pool obj) →
      obj ∈ holds (n.told j)) : Exclusive n' := by
  refine ⟨hw, ?_, fun j => ?_, fun j k hjk => ?_, fun j o ho => ?_, fun j pool obj hs hp => ?_⟩
  · rw [hfs]
    exact h.plain
  · rw [htold]
    exact h.nodup j
  · rw [htold, htold]
    exact h.apart j k hjk
  · rw [hfs]
    rw [htold] at ho
    exact h.reserved j o ho
  · rw [htold]
    exact hasked j pool obj hs hp

variable [DecidableEq ι]

/-- the daemon has made a call for a client, which is told of it, unless it has closed -/
theorem Exclusive.made (h : Exclusive n) {env : Env} {c : Call} {res : Res} (hw : Wired n') (henv : env.IntReads)
    (hfits : ∀ pool obj, c = .objectDestroy pool obj → obj.Fits)
    (hcall : baseCall env n.daemon.fs c = .ok (res, n'.daemon.fs))
    (hother : ∀ handle, c ≠ .poolDestroy handle)
    (hself : holds (n'.told i) = holds (n.told i) ∧ (∀ pool obj, c ≠ .objectDestroy pool obj) ∨
      (∃ pool obj, c = .objectCreate pool ∧ res = .object obj ∧ holds (n'.told i) = obj :: holds (n.told i)) ∨
      ∃ pool obj, c = .objectDestroy pool obj ∧ obj ∈ holds (n.told i) ∧
        holds (n'.told i) = (holds (n.told i)).erase obj)
    (htold : ∀ j, j ≠ i → n'.told j = n.told j)
    (hasked : ∀ j pool obj, n'.sent j ≠ none → (n'.client j).phase = .waiting (.objectDestroy pool obj) →
      j ≠ i ∧ obj ∈ holds (n.told j)) : Exclusive n' := by
  obtain ⟨hkeep, hnew⟩ := baseCall_reserved h.plain henv hfits hother hcall
  have hplain : NoStripes n'.daemon.fs := h.plain.plain (baseCall_effects (linksIn_true n.daemon.fs) hcall).plain
  have hreq : ∀ j pool obj, n'.sent j ≠ none → (n'.client j).phase = .waiting (.objectDestroy pool obj) →
      obj ∈ holds (n'.told j) := fun j pool obj hs hp => by
    obtain ⟨hj, hmem⟩ := hasked j pool obj hs hp
    rw [htold j hj]
    exact hmem
  rcases hself with ⟨hsame, hno⟩ | ⟨pool, obj, rfl, rfl, hcons⟩ | ⟨pool, obj, rfl, hmem, herase⟩
  · -- the objects held are the same, and nothing is freed
    have hheld : ∀ j, holds (n'.told j) = holds (n.told j) := fun j => by
      by_cases hj : j = i
      · rw [hj, hsame]
      · rw [htold j hj]
    have hfrees : c.frees = ∅ := by
      cases c with
      | objectDestroy pool obj => exact absurd rfl (hno pool obj)
      | _ => rfl
    refine ⟨hw, hplain, fun j => ?_, fun j k hjk => ?_, fun j o ho => ?_, hreq⟩
    · rw [hheld]
      exact h.nodup j
    · rw [hheld, hheld]
      exact h.apart j k hjk
    · rw [hheld] at ho
      refine hkeep o ?_ (h.reserved j o ho)
      rw [hfrees]
      exact Set.notMem_empty o
  · -- a new object, whose entry was not reserved
    obtain ⟨hfresh, hres⟩ := hnew pool rfl obj rfl
    have hnot : ∀ j, obj ∉ holds (n.told j) := fun j hm => hfresh (h.reserved j obj hm)
    have hmem : ∀ j o, o ∈ holds (n'.told j) → o ∈ holds (n.told j) ∨ (o = obj ∧ j = i) := by
      intro j o ho
      by_cases hj : j = i
      · subst hj
        rw [hcons] at ho
        rcases List.mem_cons.1 ho with rfl | ho
        · exact Or.inr ⟨rfl, rfl⟩
        · exact Or.inl ho
      · rw [htold j hj] at ho
        exact Or.inl ho
    refine ⟨hw, hplain, fun j => ?_, fun j k hjk => ?_, fun j o ho => ?_, hreq⟩
    · by_cases hj : j = i
      · subst hj
        rw [hcons]
        exact List.nodup_cons.2 ⟨hnot j, h.nodup j⟩
      · rw [htold j hj]
        exact h.nodup j
    · intro o hoj hok
      rcases hmem j o hoj with hoj | ⟨rfl, rfl⟩
      · rcases hmem k o hok with hok | ⟨rfl, rfl⟩
        · exact h.apart j k hjk hoj hok
        · exact hnot j hoj
      · rcases hmem k o hok with hok | ⟨-, rfl⟩
        · exact hnot k hok
        · exact hjk rfl
    · rcases hmem j o ho with ho | ⟨rfl, -⟩
      · exact hkeep o (Set.notMem_empty o) (h.reserved j o ho)
      · exact hres
  · -- an object its holder gives up
    have hmem' : ∀ j o, o ∈ holds (n'.told j) → o ∈ holds (n.told j) ∧ o ≠ obj := by
      intro j o ho
      by_cases hj : j = i
      · subst hj
        rw [herase] at ho
        obtain ⟨hne, ho⟩ := (h.nodup j).mem_erase_iff.1 ho
        exact ⟨ho, hne⟩
      · rw [htold j hj] at ho
        refine ⟨ho, fun he => ?_⟩
        subst he
        exact h.apart j i hj ho hmem
    refine ⟨hw, hplain, fun j => ?_, fun j k hjk o hoj hok => ?_, fun j o ho => ?_, hreq⟩
    · by_cases hj : j = i
      · subst hj
        rw [herase]
        exact (h.nodup j).erase obj
      · rw [htold j hj]
        exact h.nodup j
    · exact h.apart j k hjk (hmem' j o hoj).1 (hmem' k o hok).1
    · obtain ⟨ho, hne⟩ := hmem' j o ho
      exact hkeep o hne (h.reserved j o ho)

theorem Call.Becomes.not_destroy {call made : Call} (h : call.Becomes made) :
    ((∀ pool obj, call ≠ .objectDestroy pool obj) → ∀ pool obj, made ≠ .objectDestroy pool obj) ∧
      ((∀ handle, call ≠ .poolDestroy handle) → ∀ handle, made ≠ .poolDestroy handle) := by
  cases call with
  | poolCreate arg =>
    obtain ⟨arg', rfl⟩ := h
    exact ⟨fun _ => nofun, fun _ => nofun⟩
  | _ =>
    rw [show made = _ from h]
    exact ⟨id, id⟩

theorem Call.Becomes.destroy {call : Call} {pool : PoolHandle} {obj : Obj} (h : call.Becomes (.objectDestroy pool obj)) :
    call = .objectDestroy pool obj := by
  cases call with
  | poolCreate arg =>
    obtain ⟨arg', harg⟩ := h
    cases harg
  | _ => exact h.symm

/-- after a turn, whoever still waits to destroy an object holds it -/
theorem Exclusive.still_asked (h : Exclusive n) (reply : Option MsgBuf) (d : Daemon) (j : ι) (pool : PoolHandle) (obj : Obj)
    (hs : (n.take i reply d).sent j ≠ none) (hp : ((n.take i reply d).client j).phase = .waiting (.objectDestroy pool obj)) :
    j ≠ i ∧ obj ∈ holds (n.told j) := by
  have hj : j ≠ i := by
    rintro rfl
    exact hs (update_self _ _ _)
  have hsent : n.sent j ≠ none := fun he => hs ((update_of_ne hj _ _).trans he)
  exact ⟨hj, h.asked j pool obj hsent hp⟩

theorem Exclusive.turn (h : Exclusive n) {env : Env} {mem : Bytes} {msg : MsgBuf} {reply : Option MsgBuf} {d : Daemon}
    {call : Call} (hsent : n.sent i = some msg) (hphase : (n.client i).phase = .waiting call) (henv : env.IntReads)
    (hcareful : CarefulClient n (.turn i env mem)) (hserve : serve env mem n.daemon msg = .ok (reply, d)) :
    Exclusive (n.take i reply d) := by
  have hmsg := (h.wired.sent i msg hsent).1
  rw [hphase] at hmsg
  obtain ⟨hcall, pad, send, rfl⟩ := hmsg
  have hw : Wired (n.take i reply d) := h.wired.take fun _ _ => ⟨call, hphase⟩
  have htaken := h.wired.taken hsent reply d fun _ _ => ⟨call, hphase⟩
  have hothers : ∀ j, j ≠ i → (n.take i reply d).told j = n.told j := by
    intro j hj
    rw [(htaken j).2, if_neg hj, List.append_nil]
  rcases serve_call hcall hserve with ⟨made, res, msg, hmade, hbase, rfl, htold, -⟩ | ⟨rfl, hfs, -⟩
  · have hself : (n.take i (some msg) d).told i = n.told i ++ [(call, clientValue call (n.client i).recv msg)] := by
      rw [(htaken i).2, if_pos rfl, hphase]
    by_cases hpool : ∃ handle, call = .poolDestroy handle
    · -- nobody holds anything, before or after
      obtain ⟨handle, rfl⟩ := hpool
      have hempty : ∀ j, holds (n.told j) = [] := hcareful (by rw [hphase]; rfl)
      have hnone : ∀ j, holds ((n.take i (some msg) d).told j) = [] := by
        intro j
        by_cases hj : j = i
        · rw [hj, hself, holds_snoc, hempty i]
          rfl
        · rw [hothers j hj]
          exact hempty j
      refine ⟨hw, h.plain.plain (baseCall_effects (linksIn_true n.daemon.fs) hbase).plain, fun j => ?_, fun j k _ => ?_,
        fun j o ho => ?_, fun j pool obj hs hp => ?_⟩
      · rw [hnone]
        exact List.nodup_nil
      · rw [hnone]
        exact List.disjoint_nil_left _
      · rw [hnone] at ho
        exact absurd ho List.not_mem_nil
      · have hmem := (h.still_asked (some msg) d j pool obj hs hp).2
        rw [hempty j] at hmem
        exact absurd hmem List.not_mem_nil
    have hno : ∀ handle, call ≠ .poolDestroy handle := fun handle he => hpool ⟨handle, he⟩
    have hfits : ∀ pool obj, made = .objectDestroy pool obj → obj.Fits := by
      rintro pool obj rfl
      obtain rfl := hmade.destroy
      exact hcall.2
    refine h.made hw henv hfits hbase (hmade.not_destroy.2 hno) ?_ hothers (h.still_asked _ _)
    rw [hself, holds_snoc]
    rcases holdsStep_cases (holds (n.told i)) (call, clientValue call (n.client i).recv msg) with
      ⟨hsame, hnot⟩ | ⟨pool, obj, hv, hcons⟩ | ⟨pool, obj, hv, herase⟩
    · exact Or.inl ⟨hsame, hmade.not_destroy.1 hnot⟩
    · obtain ⟨rfl, hvalue⟩ := Prod.mk.inj hv
      obtain rfl : made = .objectCreate pool := hmade
      have hres : clientValue (.objectCreate pool) (n.client i).recv msg = res := htold _
      exact Or.inr (Or.inl ⟨pool, obj, rfl, hres.symm.trans hvalue, hcons⟩)
    · obtain rfl : call = .objectDestroy pool obj := hv
      have hmem : obj ∈ holds (n.told i) := h.asked i pool obj (by rw [hsent]; exact nofun) hphase
      exact Or.inr (Or.inr ⟨pool, obj, hmade, hmem, herase⟩)
  · refine h.quiet hw (fun j => ?_) hfs fun j pool obj hs hp => (h.still_asked none d j pool obj hs hp).2
    by_cases hj : j = i
    · rw [(htaken j).2, if_pos hj]
      exact List.append_nil _
    · exact hothers j hj

/-- **One event** of careful clients. -/
theorem Exclusive.step (h : Exclusive n) {e : Event ι} (hfits : e.Fits) (henv : e.IntReads) (hcareful : CarefulClient n e)
    (hstep : netStep n e = some n') : Exclusive n' := by
  rcases netStep_cases hstep with ⟨i, pad, call, rfl, hidle, rfl⟩ | ⟨i, rfl, hidle, rfl⟩ |
    ⟨i, env, mem, msg, reply, d, rfl, hsent, hserve, rfl⟩ | ⟨i, reply, call, rfl, hanswer, hphase, rfl⟩
  · -- a client makes a call
    refine h.quiet (h.wired.post hidle ⟨hfits, pad, _, rfl⟩) (fun j => (h.wired.posted hidle _ _ j).2) rfl
      fun j pool obj hs hp => ?_
    by_cases hj : j = i
    · subst hj
      simp only [Net.post, update_self, Phase.waiting.injEq] at hp
      subst hp
      exact hcareful
    · simp only [Net.post, update_of_ne hj] at hs hp
      exact h.asked j pool obj hs hp
  · -- a client closes
    refine h.quiet (h.wired.post hidle ⟨_, rfl⟩) (fun j => (h.wired.posted hidle _ _ j).2) rfl
      fun j pool obj hs hp => ?_
    by_cases hj : j = i
    · subst hj
      simp [Net.post] at hp
    · simp only [Net.post, update_of_ne hj] at hs hp
      exact h.asked j pool obj hs hp
  · -- the daemon takes the message of a client
    cases hphase : (n.client i).phase with
    | idle =>
      have hmsg := (h.wired.sent i msg hsent).1
      rw [hphase] at hmsg
      exact absurd hmsg id
    | waiting call => exact h.turn hsent hphase henv hcareful hserve
    | closed =>
      have hmsg := (h.wired.sent i msg hsent).1
      rw [hphase] at hmsg
      obtain ⟨send, rfl⟩ := hmsg
      obtain ⟨rfl, res, hbase⟩ := serve_close hserve
      have hnone : ∀ reply, (none : Option MsgBuf) = some reply → ∃ call, (n.client i).phase = .waiting call :=
        fun reply h => absurd h (Option.some_ne_none reply).symm
      have htaken := h.wired.taken hsent none d hnone
      have hsame : ∀ j, (n.take i none d).told j = n.told j := by
        intro j
        rw [(htaken j).2]
        by_cases hj : j = i
        · rw [if_pos hj]
          exact List.append_nil _
        · rw [if_neg hj, List.append_nil]
      have hsync : ∀ pool obj, Call.sync ≠ .objectDestroy pool obj := by simp
      have hpool : ∀ handle, Call.sync ≠ .poolDestroy handle := by simp
      exact h.made (i := i) (c := .sync) (h.wired.take hnone) henv (fun pool obj h => absurd h (hsync pool obj)) hbase hpool
        (Or.inl ⟨by rw [hsame], hsync⟩) (fun j _ => hsame j) (h.still_asked none d)
  · -- a client takes its reply
    refine h.quiet (h.wired.receive hanswer) (fun j => (h.wired.received hanswer hphase j).2) rfl
      fun j pool obj hs hp => ?_
    by_cases hj : j = i
    · subst hj
      simp [Net.receive] at hp
    · simp only [Net.receive, update_of_ne hj] at hs hp
      exact h.asked j pool obj hs hp

/-- **Every run** of careful clients. -/
theorem run_exclusive (hn : n.Quiet) (hplain : NoStripes n.daemon.fs) {es : List (Event ι)}
    (hes : ∀ e ∈ es, e.Fits ∧ e.IntReads) (hcareful : along CarefulClient netStep n es) (h : run netStep n es = some n') :
    Exclusive n' := by
  have hnone : ∀ i, n.told i = [] := fun i => by rw [told_of_none (hn i).2.2.2, (hn i).2.1]
  have hstart : Exclusive n := by
    refine ⟨hn.wired, hplain, fun i => ?_, fun i j _ => ?_, fun i o ho => ?_, fun i pool obj hs => ?_⟩
    · rw [hnone]
      exact List.nodup_nil
    · rw [hnone]
      exact List.disjoint_nil_left _
    · rw [hnone] at ho
      exact absurd ho List.not_mem_nil
    · exact absurd (hn i).2.2.1 hs
  exact run_inv_along (R := fun e => e.Fits ∧ e.IntReads)
    (fun _ _ _ hex hc hok hstep => hex.step hok.1 hok.2 hc hstep) hstart hes hcareful h

/-- **No two clients hold the same object.** For any number of clients, pools and slabs: in every run in which clients
destroy only what they hold and a pool is destroyed only when nobody holds anything, the objects that the clients hold are
all different, and the entry of each is reserved. -/
theorem clients_exclusive (hn : n.Quiet) (hplain : NoStripes n.daemon.fs) {es : List (Event ι)}
    (hes : ∀ e ∈ es, e.Fits ∧ e.IntReads) (hcareful : along CarefulClient netStep n es) (h : run netStep n es = some n') :
    (∀ i, (holds (n'.told i)).Nodup) ∧ (∀ i j, i ≠ j → (holds (n'.told i)).Disjoint (holds (n'.told j))) ∧
      ∀ i, ∀ o ∈ holds (n'.told i), Reserved n'.daemon.fs o := by
  have hend := run_exclusive hn hplain hes hcareful h
  exact ⟨hend.nodup, hend.apart, hend.reserved⟩

end Exclusive

/-- the client that asked first destroys its object again -/
def twoThenDestroy : List (Event (Fin 2)) :=
  twoCreates ++ [.ask ⟨0, Nat.two_pos⟩ 0 (.objectDestroy ⟨97, 0⟩ ⟨0, 1⟩), .turn ⟨0, Nat.two_pos⟩ .reliable 0]

theorem clients_exclusive_two : ∃ n n' : Net (Fin 2), twoClients = some n ∧ run netStep n twoThenDestroy = some n' ∧
    holds (n'.told 0) = [] ∧ holds (n'.told 1) = [⟨0, 0⟩] ∧
    ((∀ i, (holds (n'.told i)).Nodup) ∧ (∀ i j, i ≠ j → (holds (n'.told i)).Disjoint (holds (n'.told j))) ∧
      ∀ i, ∀ o ∈ holds (n'.told i), Reserved n'.daemon.fs o) := by
  obtain ⟨n, hn, hval⟩ := Option.map_eq_some_iff.1 (show twoClients.map (fun n =>
    ((run netStep n twoThenDestroy).map fun n' => (holds (n'.told 0), holds (n'.told 1)),
      decide (along CarefulClient netStep n twoThenDestroy))) = some (some ([], [⟨0, 0⟩]), true) by decide +kernel)
  obtain ⟨hrun, hcareful⟩ := Prod.mk.inj hval
  obtain ⟨n', hn', hheld⟩ := Option.map_eq_some_iff.1 hrun
  obtain ⟨h0, h1⟩ := Prod.mk.inj hheld
  have hplain : NoStripes n.daemon.fs := by
    obtain ⟨d, hd, rfl⟩ := Option.map_eq_some_iff.1 hn
    obtain ⟨r, hr, rfl⟩ := Option.map_eq_some_iff.1 hd
    exact small_mounted.noStripes.plain (baseCall_effects (linksIn_true _) (toOption_eq_some hr)).plain
  have hes : ∀ e ∈ twoThenDestroy, e.Fits ∧ e.IntReads := by
    simp [twoThenDestroy, twoCreates, Event.Fits, Event.IntReads, Call.Fits, PoolHandle.Fits, Obj.Fits, Env.IntReads,
      IsInt, Env.reliable]
  exact ⟨n, n', hn, hn', h0, h1, clients_exclusive (twoClients_quiet hn) hplain hes (of_decide_eq_true hcareful) hn'⟩

end FlexAlloc
