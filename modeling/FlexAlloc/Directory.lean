/-
The directory of pools: the pool freelist, the hash table of names, the entries and the dispatch table.

`Dir` is what holds of them in every reachable state, whatever names the clients use: colliding names and names whose
hash is the unset mark are allowed, so nothing here rests on the hash table finding what was inserted. An entry whose
`slab_nobj` is 0 was never used.

- `poolCreate_cases`: a call of `fla_base_pool_create` that returns has either left entries and freelist as they were,
  or has taken the lowest free index for a new entry with no slabs.
- `poolDestroy_cases`: a call of `fla_base_pool_destroy` that returns was refused, or went on to release the slabs of an
  entry that has been used, and on success the index is free again.
-/
import FlexAlloc.System

namespace FlexAlloc

open FlexAlloc.Core Function

/-! ## Values in the hash table -/

section Values

variable {P : ℕ → Prop} {n : ℕ}

/-- every occupied slot has a value in `P` -/
def ValsIn (P : ℕ → Prop) (T : ℕ → HtblEntry) : Prop := ∀ i, Occ T i → P (T i).val

theorem ValsIn.update {T : ℕ → HtblEntry} (h : ValsIn P T) (i : ℕ) {e : HtblEntry}
    (he : e.h2 ≠ flaHtblEntryUnset → P e.val) : ValsIn P (update T i e) := by
  intro j hj
  unfold Occ at hj
  by_cases hji : j = i
  · subst hji
    rw [update_self] at hj ⊢
    exact he hj
  · rw [update_of_ne hji] at hj ⊢
    exact h j hj

theorem insertLoop_vals (fuel : ℕ) {T T' : ℕ → HtblEntry} {ndx : ℕ} {c : HtblEntry} {new : Bool} (h : ValsIn P T)
    (hc : P c.val) (hrun : htblInsertLoop n fuel T ndx c = .ok (T', new)) : ValsIn P T' := by
  induction fuel generalizing T ndx c with
  | zero => cases hrun
  | succ fuel ih =>
    simp only [htblInsertLoop] at hrun
    split_ifs at hrun with hunset hrich hsame
    · cases hrun
      exact h.update _ fun _ => hc
    · refine ih (h.update ndx fun _ => hc) ?_ hrun
      exact h ndx hunset
    · cases hrun
      exact h.update _ fun _ => hc
    · refine ih h ?_ hrun
      exact hc

theorem removeLoop_vals (fuel : ℕ) {T T' : ℕ → HtblEntry} {e : ℕ} (h : ValsIn P T)
    (hrun : htblRemoveLoop n fuel T e = .ok T') : ValsIn P T' := by
  induction fuel generalizing T e with
  | zero => cases hrun
  | succ fuel ih =>
    simp only [htblRemoveLoop] at hrun
    split_ifs at hrun with hhome
    · cases hrun
      exact h.update _ fun ho => absurd rfl ho
    · refine ih (h.update e ?_) hrun
      exact fun ho => h (next n e) ho

theorem lookupLoop_key {T : ℕ → HtblEntry} {x : ℕ} (fuel : ℕ) {ndx psl i : ℕ}
    (hrun : htblLookupLoop T n x fuel ndx psl = .ok (some i)) : (T i).h2 = x := by
  induction fuel generalizing ndx psl with
  | zero => cases hrun
  | succ fuel ih =>
    simp only [htblLookupLoop] at hrun
    split_ifs at hrun with hkey hstop
    · cases hrun; exact hkey
    · cases hrun
    · exact ih hrun

theorem lookupLoop_lt {T : ℕ → HtblEntry} {x : ℕ} (fuel : ℕ) {ndx psl i : ℕ} (hndx : ndx < n)
    (hrun : htblLookupLoop T n x fuel ndx psl = .ok (some i)) : i < n := by
  induction fuel generalizing ndx psl with
  | zero => cases hrun
  | succ fuel ih =>
    simp only [htblLookupLoop] at hrun
    split_ifs at hrun with hkey hstop
    · cases hrun; exact hndx
    · cases hrun
    · exact ih (next_lt hndx) hrun

theorem insert_vals {κ : Type} {H : Hashing κ} {t t' : Htbl} {key : κ} {val : ℕ} {r : ℤ} (h : ValsIn P t.tbl)
    (hv : P val) (hrun : htblInsert H t key val = .ok (r, t')) : ValsIn P t'.tbl := by
  unfold htblInsert at hrun
  split_ifs at hrun with hzero hfull
  · cases hrun; exact h
  · obtain ⟨⟨T', new⟩, hloop, hres⟩ := bind_eq_ok hrun
    cases hres
    exact insertLoop_vals _ h hv hloop

theorem lookup_key {κ : Type} {H : Hashing κ} {t : Htbl} {key : κ} {i : ℕ}
    (hrun : htblLookup H t key = .ok (some i)) : (t.tbl i).h2 = H.h2 key := by
  unfold htblLookup at hrun
  split_ifs at hrun with hzero
  exact lookupLoop_key _ hrun

theorem lookup_lt {κ : Type} {H : Hashing κ} {t : Htbl} {key : κ} {i : ℕ}
    (hrun : htblLookup H t key = .ok (some i)) : i < t.tblSize := by
  unfold htblLookup at hrun
  split_ifs at hrun with hzero
  exact lookupLoop_lt _ (Nat.mod_lt _ (Nat.pos_of_ne_zero hzero)) hrun

theorem remove_vals {κ : Type} {H : Hashing κ} {t t' : Htbl} {key : κ} (h : ValsIn P t.tbl)
    (hrun : htblRemove H t key = .ok t') : ValsIn P t'.tbl := by
  unfold htblRemove at hrun
  obtain ⟨slot, -, hrun⟩ := bind_eq_ok hrun
  cases slot with
  | none => cases hrun; exact h
  | some e =>
    obtain ⟨T', hloop, hres⟩ := bind_eq_ok hrun
    cases hres
    exact removeLoop_vals _ h hloop

end Values

/-! ## The invariant of the directory -/

structure Dir (fs : Flexalloc) : Prop where
  len : fs.pools.freelist.len = fs.npools
  ok : fs.pools.freelist.Ok
  used : ∀ i, fs.PoolLive i → (fs.pools.entries i).slabNobj ≠ 0
  fnc : ∀ i, (fs.pools.entries i).slabNobj ≠ 0 → fs.pools.entrieFuncs i = some .dflt
  unused : ∀ i, (fs.pools.entries i).slabNobj = 0 → cstr (fs.pools.entries i).name = []
  vals : ValsIn (fun i => (fs.pools.entries i).slabNobj ≠ 0) fs.pools.htbl.tbl

theorem poolLive_iff {fs : Flexalloc} (hlen : fs.pools.freelist.len = fs.npools) (i : ℕ) :
    fs.PoolLive i ↔ i < fs.npools ∧ fs.pools.freelist.isFree i = false := by
  rw [Flexalloc.PoolLive, mem_reserved, hlen]

theorem Dir.entryAt {fs : Flexalloc} (hd : Dir fs) {i : ℕ} (hi : fs.PoolLive i) :
    fs.entryAt i = .ok (fs.pools.entries i) := if_pos ((poolLive_iff hd.len i).1 hi).1

theorem Dir.fncAt {fs : Flexalloc} (hd : Dir fs) {i : ℕ} (hi : fs.PoolLive i) : fs.fncAt i = .ok .dflt := by
  rw [Flexalloc.fncAt, if_pos ((poolLive_iff hd.len i).1 hi).1, hd.fnc i (hd.used i hi)]

theorem Fresh.dir {v : Volume} {fs : Flexalloc} (h : Fresh v fs) (hnp : v.super.npools = v.geo.npools) : Dir fs := by
  have hlen : fs.pools.freelist.len = fs.npools := by
    rw [h.pools, Flexalloc.npools, h.vol, hnp]
    rfl
  have hnone : ∀ i, ¬ fs.PoolLive i := fun i hi => by
    have hi' := (poolLive_iff hlen i).1 hi
    have hfree : fs.pools.freelist.isFree i = decide (i < v.geo.npools) := by
      rw [h.pools]
      exact init_isFree v.geo.npools i
    rw [Flexalloc.npools, h.vol, hnp] at hi'
    rw [hfree, decide_eq_true hi'.1] at hi'
    exact absurd hi'.2 (by decide)
  refine ⟨hlen, ?_, fun i hi => absurd hi (hnone i), fun i hi => ?_, fun i _ => ?_, fun i hi => ?_⟩
  · rw [h.pools]
    exact init_ok v.geo.npools
  · rw [h.pools] at hi
    exact absurd rfl hi
  · rw [h.pools]
    show cstr (List.replicate flaNameSizePool 0) = []
    decide
  · rw [h.pools] at hi
    exact absurd rfl hi

theorem mkfs_dir (dev : Dev) (geo : Geo) (disk : Bytes) : Dir (flaMkfs dev geo disk) := (mkfs_fresh dev geo disk).dir rfl

theorem entryReset_spec {e e' : PoolEntry} {arg : PoolCreateArg} {n : ℕ}
    (h : flaPoolEntryResetDefault env e arg n = .ok e') :
    e'.slabNobj = n ∧ e'.objNlb = arg.objNlb ∧ ∀ k, e'.head k = flaLinkedListNull := by
  obtain ⟨name, -, hres⟩ := bind_eq_ok h
  cases hres
  exact ⟨rfl, rfl, fun k => by cases k <;> rfl⟩

/-! ## Creating a pool -/

/-- what `fla_base_pool_create` did when it took index `k` -/
structure Created (fs fs' : Flexalloc) (arg : PoolCreateArg) (k : ℕ) (e : PoolEntry) : Prop where
  lt : k < fs.npools
  fresh : ¬ fs.PoolLive k
  lowest : ∀ j < k, fs.PoolLive j
  live : ∀ i, fs'.PoolLive i ↔ i = k ∨ fs.PoolLive i
  entries : fs'.pools.entries = update fs.pools.entries k e
  objNlb : e.objNlb = arg.objNlb
  nobj : flaCalcObjsInSlab fs.vol arg.objNlb = .ok e.slabNobj
  nobj_pos : e.slabNobj ≠ 0
  heads : ∀ q, e.head q = flaLinkedListNull

section Create

variable {fs fs' : Flexalloc} {arg : PoolCreateArg} {fl : Freelist} {k n : ℕ}

/-- the second half of `fla_base_pool_create`, from a freelist with index `k` taken out -/
theorem poolCreateAt_cases (hd : Dir fs) (hnp : fs.npools < 2 ^ 32) (hk : k < fs.npools)
    (hfree : fs.pools.freelist.isFree k = true) (hlow : ∀ j < k, fs.pools.freelist.isFree j = false)
    (hlen : fl.len = fs.pools.freelist.len)
    (hfl : ∀ j, fl.isFree j = (fs.pools.freelist.isFree j && decide (j ≠ k))) (hn : n ≠ 0)
    (hcalc : flaCalcObjsInSlab fs.vol arg.objNlb = .ok n) {err : ℤ} {h : Option PoolHandle}
    (hrun : poolCreateAt env { fs with pools := { fs.pools with freelist := fl } } arg k n = .ok (err, h, fs')) :
    (∃ p, fs' = { fs with pools := p }) ∧ Dir fs' ∧
      ((err ≠ 0 ∧ fs'.pools.entries = fs.pools.entries ∧ ∀ i, fs'.PoolLive i ↔ fs.PoolLive i) ∨
        (err = 0 ∧ ∃ e, Created fs fs' arg k e)) := by
  have hnotlive : ¬ fs.PoolLive k := fun hl => by
    rw [((poolLive_iff hd.len k).1 hl).2] at hfree
    exact absurd hfree (by decide)
  obtain ⟨-, -, hrun⟩ := bind_eq_ok hrun
  rw [initializeEntrieFunc_eq] at hrun
  obtain ⟨⟨err₁, htbl⟩, hins, hrun⟩ := bind_eq_ok hrun
  by_cases herr : err₁ ≠ 0
  · -- the name could not be entered: the index is given back
    simp only [herr, ne_eq, not_false_eq_true, if_true] at hrun
    have hins' : htbl = fs.pools.htbl := by
      unfold htblInsert at hins
      split_ifs at hins with hzero hfull
      · cases hins; rfl
      · obtain ⟨r, -, hres⟩ := bind_eq_ok hins
        cases hres
        exact absurd rfl herr
    obtain ⟨⟨err₂, fl'⟩, hback, hrun⟩ := bind_eq_ok hrun
    cases hrun
    have hkl : k < fl.len := by rw [hlen, hd.len]; exact hk
    obtain ⟨fl'', hback', hlen', hfl'⟩ := entriesFree_one hkl (hk.trans hnp)
    rw [hback'] at hback
    cases hback
    have hsame : ∀ j, fl'.isFree j = fs.pools.freelist.isFree j := fun j => by
      rw [hfl', hfl]
      by_cases hj : j = k
      · subst hj; simp [hfree]
      · simp [hj]
    have hlive : ∀ i, i ∈ fl'.reserved ↔ i ∈ fs.pools.freelist.reserved := fun i => by
      rw [mem_reserved, mem_reserved, hlen', hlen, hsame]
    refine ⟨⟨_, rfl⟩, ⟨hlen'.trans (hlen.trans hd.len), fun i hi => ?_, fun i hi => hd.used i ((hlive i).1 hi),
      fun i hi => ?_, hd.unused, ?_⟩, Or.inl ⟨herr, rfl, hlive⟩⟩
    · exact (hsame i).trans (hd.ok i (by rw [hlen', hlen] at hi; exact hi))
    · show update fs.pools.entrieFuncs k (some .dflt) i = some .dflt
      by_cases hik : i = k
      · rw [hik, update_self]
      · rw [update_of_ne hik]; exact hd.fnc i hi
    · rw [hins']; exact hd.vals
  · simp only [herr, if_false] at hrun
    obtain ⟨fnc, hfnc, hrun⟩ := bind_eq_ok hrun
    have hfnc' : fnc = .dflt := by
      rw [Flexalloc.fncAt, if_pos hk] at hfnc
      simp only [update_self, Except.ok.injEq] at hfnc
      exact hfnc.symm
    subst hfnc'
    obtain ⟨e, hreset, hrun⟩ := bind_eq_ok hrun
    cases hrun
    obtain ⟨henobj, heobj, heheads⟩ := entryReset_spec hreset
    have hlive : ∀ i, i ∈ fl.reserved ↔ i = k ∨ i ∈ fs.pools.freelist.reserved := fun i => by
      rw [mem_reserved, mem_reserved, hlen, hfl]
      by_cases hik : i = k
      · subst hik
        simp [hd.len, hk]
      · simp [hik]
    have hused : ∀ i, (fs.pools.entries i).slabNobj ≠ 0 → (update fs.pools.entries k e i).slabNobj ≠ 0 := fun i hi => by
      by_cases hik : i = k
      · rw [hik, update_self, henobj]; exact hn
      · rw [update_of_ne hik]; exact hi
    have hk' : (update fs.pools.entries k e k).slabNobj ≠ 0 := by rw [update_self, henobj]; exact hn
    refine ⟨⟨_, rfl⟩, ⟨hlen.trans hd.len, fun i hi => ?_, fun i hi => ?_, fun i hi => ?_, fun i hi => ?_, ?_⟩,
      Or.inr ⟨rfl, e, hk, hnotlive, fun j hj => ?_, hlive, rfl, heobj, henobj ▸ hcalc, henobj ▸ hn, heheads⟩⟩
    · show fl.isFree i = false
      have hi' : fl.len ≤ i := hi
      rw [hfl, hd.ok i (hlen ▸ hi')]
      rfl
    · rcases (hlive i).1 hi with rfl | hi
      · exact hk'
      · exact hused i (hd.used i hi)
    · show update fs.pools.entrieFuncs k (some .dflt) i = some .dflt
      by_cases hik : i = k
      · rw [hik, update_self]
      · rw [update_of_ne hik]
        refine hd.fnc i ?_
        have hi' : (update fs.pools.entries k e i).slabNobj ≠ 0 := hi
        rwa [update_of_ne hik] at hi'
    · have hi' : (update fs.pools.entries k e i).slabNobj = 0 := hi
      have hik : i ≠ k := fun h => hk' (h ▸ hi')
      rw [update_of_ne hik] at hi'
      show cstr (update fs.pools.entries k e i).name = []
      rw [update_of_ne hik]
      exact hd.unused i hi'
    · refine insert_vals (fun i ho => ?_) hk' hins
      exact hused _ (hd.vals i ho)
    · exact (poolLive_iff hd.len j).2 ⟨hj.trans hk, hlow j hj⟩

/-- **Creating a pool.** -/
theorem poolCreate_cases (hd : Dir fs) (hnp : fs.npools ≤ 2 ^ 31) {env : Env} {err : ℤ} {h : Option PoolHandle}
    (hrun : flaBasePoolCreate env fs arg = .ok (err, h, fs')) :
    (∃ p, fs' = { fs with pools := p }) ∧ Dir fs' ∧
      ((fs'.pools.entries = fs.pools.entries ∧ ∀ i, fs'.PoolLive i ↔ fs.PoolLive i) ∨
        (err = 0 ∧ ∃ k e, Created fs fs' arg k e)) := by
  have hsame : fs' = fs → (∃ p, fs' = { fs with pools := p }) ∧ Dir fs' ∧
      ((fs'.pools.entries = fs.pools.entries ∧ ∀ i, fs'.PoolLive i ↔ fs.PoolLive i) ∨
        (err = 0 ∧ ∃ k e, Created fs fs' arg k e)) := fun h => by
    subst h
    exact ⟨⟨_, rfl⟩, hd, Or.inl ⟨rfl, fun _ => Iff.rfl⟩⟩
  obtain ⟨opened, -, hrun⟩ := bind_eq_ok hrun
  split at hrun
  · -- the pool exists
    obtain ⟨e, -, hrun⟩ := bind_eq_ok hrun
    split_ifs at hrun
    all_goals cases hrun; exact hsame rfl
  · by_cases hname : (flaNameSizePool : ℤ) ≤ arg.nameLen
    · rw [if_pos hname] at hrun
      cases hrun; exact hsame rfl
    · rw [if_neg hname] at hrun
      obtain ⟨n, hcalc, hrun⟩ := bind_eq_ok hrun
      split_ifs at hrun with hn
      · cases hrun; exact hsame rfl
      · cases hrun; exact hsame rfl
      · simp only [entriesAlloc_one, flaFlistEntryAlloc] at hrun
        cases htake : takeEntry fs.pools.freelist with
        | none =>
          simp only [htake, if_pos (show (-1 : ℤ) < 0 by decide)] at hrun
          cases hrun; exact hsame rfl
        | some r =>
          obtain ⟨k, fl⟩ := r
          obtain ⟨hfree, hlow, hlen, hfl⟩ := takeEntry_some htake
          have hk : k < fs.npools := hd.len ▸ takeEntry_lt hd.ok htake
          simp only [htake, toInt_of_lt (show k < 2 ^ 31 by omega), if_neg (show ¬ (k : ℤ) < 0 by omega),
            Int.toNat_natCast] at hrun
          obtain ⟨hp, hdir, hcase⟩ := poolCreateAt_cases hd (by omega) hk hfree hlow hlen hfl (by omega) hcalc hrun
          refine ⟨hp, hdir, ?_⟩
          rcases hcase with ⟨-, hent, hlive⟩ | ⟨herr, e, hc⟩
          · exact Or.inl ⟨hent, hlive⟩
          · exact Or.inr ⟨herr, k, e, hc⟩
      · cases hrun; exact hsame rfl

end Create

/-! ## Destroying a pool -/

section Destroy

variable {fs fs' : Flexalloc} {ndx : ℕ}

/-- a handle that passes the checks names an entry that has been used -/
theorem poolDestroyCheck_used (hd : Dir fs) {handle : PoolHandle} (h : poolDestroyCheck fs handle = .ok 0) :
    handle.ndx < fs.npools ∧ (fs.pools.entries handle.ndx).slabNobj ≠ 0 := by
  unfold poolDestroyCheck at h
  by_cases hlt : fs.npools < handle.ndx
  · rw [if_pos hlt] at h; cases h
  rw [if_neg hlt] at h
  obtain ⟨e, he, h⟩ := bind_eq_ok h
  unfold Flexalloc.entryAt at he
  split_ifs at he with hndx
  cases he
  refine ⟨hndx, fun hunused => ?_⟩
  obtain ⟨slot, hlook, h⟩ := bind_eq_ok h
  cases slot with
  | none => cases h
  | some i =>
    have hval : (fs.pools.htbl.tbl i).val = handle.ndx := by
      by_contra hval
      simp only [ne_eq, hval, not_false_eq_true, if_true] at h
      split_ifs at h <;> cases h
    -- an entry never used is named by the empty string, whose secondary hash is 0
    have hkey := lookup_key hlook
    have hzero : flaHashing.h2 (fs.pools.entries handle.ndx).name = 0 := by
      simp only [flaHashing, flaHashSdbm, hd.unused handle.ndx hunused]
      rfl
    have hocc : Occ fs.pools.htbl.tbl i := by
      unfold Occ
      rw [hkey, hzero]
      decide
    have := hd.vals i hocc
    rw [hval] at this
    exact this hunused

theorem poolForget_spec (hd : Dir fs) (hnp : fs.npools < 2 ^ 32) (hndx : ndx < fs.npools) {err : ℤ}
    (h : poolForget fs ndx = .ok (err, fs')) :
    err = 0 ∧ (∃ p, fs' = { fs with pools := p }) ∧ Dir fs' ∧ fs'.pools.entries = fs.pools.entries ∧
      ∀ i, fs'.PoolLive i ↔ fs.PoolLive i ∧ i ≠ ndx := by
  obtain ⟨⟨err₁, fl⟩, hfree, h⟩ := bind_eq_ok h
  have hlt : ndx < fs.pools.freelist.len := by rw [hd.len]; exact hndx
  obtain ⟨fl', hfree', hlen, hfl⟩ := entriesFree_one hlt (hndx.trans hnp)
  rw [hfree'] at hfree
  cases hfree
  obtain ⟨htbl, hrem, h⟩ := bind_eq_ok h
  cases h
  have hlive : ∀ i, i ∈ fl.reserved ↔ i ∈ fs.pools.freelist.reserved ∧ i ≠ ndx := fun i => by
    rw [mem_reserved, mem_reserved, hlen, hfl]
    by_cases hi : i = ndx
    · simp [hi]
    · simp [hi]
  exact ⟨rfl, ⟨_, rfl⟩, ⟨hlen.trans hd.len, free_ok hd.ok (by rw [hd.len]; exact hndx) hlen hfl,
    fun i hi => hd.used i ((hlive i).1 hi).1, hd.fnc, hd.unused, remove_vals hd.vals hrem⟩, rfl, hlive⟩

/-- **Destroying a pool**: refused with nothing done, or handed on to the release of its slabs. -/
theorem poolDestroy_cases {handle : PoolHandle} {err : ℤ} (h : flaBasePoolDestroy fs handle = .ok (err, fs')) :
    (poolDestroyCheck fs handle ≠ .ok 0 ∧ err ≠ 0 ∧ fs' = fs) ∨
      (poolDestroyCheck fs handle = .ok 0 ∧
        if (flaPoolReleaseAllSlabs fs handle.ndx).1 ≠ 0 then (err, fs') = flaPoolReleaseAllSlabs fs handle.ndx
        else poolForget (flaPoolReleaseAllSlabs fs handle.ndx).2 handle.ndx = .ok (err, fs')) := by
  obtain ⟨err₁, hcheck, h⟩ := bind_eq_ok h
  by_cases herr : err₁ ≠ 0
  · simp only [herr, ne_eq, not_false_eq_true, if_true] at h
    cases h
    exact Or.inl ⟨fun hc => herr (Except.ok.inj (hcheck.symm.trans hc)), herr, rfl⟩
  · simp only [herr, if_false] at h
    refine Or.inr ⟨by rw [hcheck, not_ne_iff.1 herr], ?_⟩
    split_ifs at h ⊢
    · cases h; rfl
    · exact h

theorem poolDestroy_stuck {handle : PoolHandle} (hck : poolDestroyCheck fs handle = .ok 0) {err : ℤ}
    (hrel : flaPoolReleaseAllSlabs fs handle.ndx = (err, fs')) (herr : err ≠ 0) :
    flaBasePoolDestroy fs handle = .ok (err, fs') := by
  rw [flaBasePoolDestroy, hck, ok_bind, if_neg (by simp), hrel]
  exact if_pos herr

end Destroy

end FlexAlloc
