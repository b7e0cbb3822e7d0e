/-
What a pool create reads: the pool freelist and the hash table of names.

Only creating, destroying and reopening change them. `Registry` holds of them in every state a session reaches, whatever
names the clients use. Nothing in it says that the hash table finds the names entered: two names may share a hash, the
name of an entry may be shorter than the one entered for it, and the one-byte name 0xff hashes to the mark of an unset
slot.

- `Quiet`: freelist, hash table and volume are as before; a steady call is quiet, and so are a flush and setting a root
  object.
- `SlotsIn.insert`, `SlotsIn.remove`: a property that no slot loses; with `TblIn` it is that stored probe lengths have 16
  bits and stored values are pool indices.
- `Registry.create`, `Registry.destroy`: creating and destroying pools keep the invariant.
- `session_registry`: it holds in every state a session reaches.
-/
import FlexAlloc.Sessions
import FlexAlloc.Steady

namespace FlexAlloc

open FlexAlloc.Core Function

/-! ## Calls that leave the registry alone -/

structure Quiet (fs fs' : Flexalloc) : Prop where
  vol : fs'.vol = fs.vol
  flist : fs'.pools.freelist = fs.pools.freelist
  htbl : fs'.pools.htbl = fs.pools.htbl

theorem Quiet.refl (fs : Flexalloc) : Quiet fs fs := ⟨rfl, rfl, rfl⟩

theorem Flushed.quiet {fs fs' : Flexalloc} (h : Flushed fs fs') : Quiet fs fs' := by
  obtain ⟨n, hp⟩ := h.pools
  exact ⟨h.vol, by rw [hp], by rw [hp]⟩

theorem Steady.quiet {fs fs' : Flexalloc} (h : Steady fs fs') : Quiet fs fs' := ⟨h.vol, h.flist, h.htbl⟩

theorem setRootObject_quiet {fs fs' : Flexalloc} {err : ℤ} {ndx : ℕ} {obj : Obj} {act : RootObjSetAction}
    (h : flaBasePoolSetRootObject fs ndx obj act = .ok (err, fs')) : Quiet fs fs' := by
  obtain ⟨e, -, h⟩ := bind_eq_ok h
  split at h
  · cases h
    exact .refl _
  · cases h
    exact ⟨rfl, rfl, rfl⟩

/-! ## What the hash table holds -/

/-- every slot below `n` has `Q` -/
def SlotsIn (Q : HtblEntry → Prop) (n : ℕ) (T : ℕ → HtblEntry) : Prop := ∀ i < n, Q (T i)

/-- a property of a slot that it keeps when the loops of the table change a probe length, take over a value or unset it -/
structure Lasting (Q : HtblEntry → Prop) : Prop where
  psl : ∀ e k, k < 2 ^ 16 ∨ k ≤ e.psl → Q e → Q { e with psl := k }
  val : ∀ e c, Q e → Q c → Q { e with val := c.val }
  unset : ∀ e, Q e → Q { e with h2 := flaHtblEntryUnset, psl := 0 }

section Slots

variable {Q : HtblEntry → Prop} {n : ℕ} {T T' : ℕ → HtblEntry}

theorem SlotsIn.update (h : SlotsIn Q n T) (ndx : ℕ) {c : HtblEntry} (hc : Q c) : SlotsIn Q n (update T ndx c) := by
  intro i hi
  by_cases hin : i = ndx
  · rw [hin, update_self]
    exact hc
  · rw [update_of_ne hin]
    exact h i hi

theorem SlotsIn.insertLoop (hQ : Lasting Q) (h : SlotsIn Q n T) (fuel : ℕ) {ndx : ℕ} {c : HtblEntry} {new : Bool}
    (hndx : ndx < n) (hc : Q c) (hrun : htblInsertLoop n fuel T ndx c = .ok (T', new)) : SlotsIn Q n T' := by
  induction fuel generalizing T ndx c with
  | zero => cases hrun
  | succ fuel ih =>
    have hslot := h ndx hndx
    have h16 : ∀ k, u16 k < 2 ^ 16 := fun k => Nat.mod_lt _ (Nat.two_pow_pos 16)
    unfold htblInsertLoop at hrun
    dsimp only at hrun
    split_ifs at hrun
    · cases hrun
      exact h.update ndx hc
    · exact ih (h.update ndx hc) (next_lt hndx) (hQ.psl _ _ (.inl (h16 _)) hslot) hrun
    · cases hrun
      exact h.update ndx (hQ.val _ _ hslot hc)
    · exact ih h (next_lt hndx) (hQ.psl _ _ (.inl (h16 _)) hc) hrun

theorem SlotsIn.removeLoop (hQ : Lasting Q) (h : SlotsIn Q n T) (fuel : ℕ) {ndx : ℕ} (hndx : ndx < n)
    (hrun : htblRemoveLoop n fuel T ndx = .ok T') : SlotsIn Q n T' := by
  induction fuel generalizing T ndx with
  | zero => cases hrun
  | succ fuel ih =>
    unfold htblRemoveLoop at hrun
    dsimp only at hrun
    split_ifs at hrun
    · cases hrun
      exact h.update ndx (hQ.unset _ (h ndx hndx))
    · exact ih (h.update ndx (hQ.psl _ _ (.inr (Nat.sub_le _ _)) (h _ (next_lt hndx)))) (next_lt hndx) hrun

theorem SlotsIn.insert (hQ : Lasting Q) {t t' : Htbl} (h : SlotsIn Q t.tblSize t.tbl) {name : List (BitVec 8)} {val : ℕ}
    (hnew : Q ⟨flaHashing.h2 name, val, 0⟩) {err : ℤ} (hrun : htblInsert flaHashing t name val = .ok (err, t')) :
    t'.tblSize = t.tblSize ∧ SlotsIn Q t'.tblSize t'.tbl := by
  unfold htblInsert at hrun
  split_ifs at hrun with hzero
  · cases hrun
    exact ⟨rfl, h⟩
  · obtain ⟨⟨tbl, new⟩, hloop, hrun⟩ := bind_eq_ok hrun
    cases hrun
    exact ⟨rfl, h.insertLoop hQ _ (Nat.mod_lt _ (Nat.pos_of_ne_zero hzero)) hnew hloop⟩

theorem SlotsIn.remove (hQ : Lasting Q) {t t' : Htbl} (h : SlotsIn Q t.tblSize t.tbl) {name : List (BitVec 8)}
    (hrun : htblRemove flaHashing t name = .ok t') : t'.tblSize = t.tblSize ∧ SlotsIn Q t'.tblSize t'.tbl := by
  obtain ⟨r, hlook, hrun⟩ := bind_eq_ok hrun
  cases r with
  | none =>
    cases hrun
    exact ⟨rfl, h⟩
  | some i =>
    have hi : i < t.tblSize := lookup_lt hlook
    obtain ⟨tbl, hloop, hrun⟩ := bind_eq_ok hrun
    cases hrun
    exact ⟨rfl, h.removeLoop hQ _ hi hloop⟩

end Slots

/-- in the slots below `n`, probe lengths have 16 bits and values are pool indices -/
def TblIn (n npools : ℕ) (T : ℕ → HtblEntry) : Prop := ∀ i < n, (T i).psl < 2 ^ 16 ∧ (T i).val < npools

theorem tblIn_lasting (npools : ℕ) : Lasting fun e => e.psl < 2 ^ 16 ∧ e.val < npools := by
  refine ⟨fun e k hk h => ⟨?_, h.2⟩, fun e c h hc => ⟨h.1, hc.2⟩, fun e h => ⟨Nat.two_pow_pos 16, h.2⟩⟩
  rcases hk with hk | hk
  · exact hk
  · exact hk.trans_lt h.1

section Table

variable {n npools : ℕ} {T : ℕ → HtblEntry}

/-- a lookup ends at a probe length that no slot exceeds -/
theorem TblIn.lookupLoop (h : TblIn n npools T) (x fuel : ℕ) {ndx q : ℕ} (hndx : ndx < n) (hq : q ≤ 2 ^ 16)
    (hfuel : 2 ^ 16 < fuel + q) :
    ∃ r, htblLookupLoop T n x fuel ndx q = .ok r ∧ ∀ i, r = some i → i < n := by
  induction fuel generalizing ndx q with
  | zero => omega
  | succ fuel ih =>
    obtain ⟨hpsl, -⟩ := h ndx hndx
    unfold htblLookupLoop
    dsimp only
    split_ifs with hfound hstop
    · refine ⟨some ndx, rfl, fun i hi => ?_⟩
      cases hi
      exact hndx
    · refine ⟨none, rfl, fun i hi => ?_⟩
      cases hi
    · have hle : q ≤ (T ndx).psl := by
        by_contra hlt
        exact hstop (.inr (Nat.lt_of_not_le hlt))
      exact ih (next_lt hndx) (by omega) (by omega)

/-- with an unset slot ahead an insert ends, whatever else the table holds -/
theorem insertLoop_ends (fuel m : ℕ) {ndx : ℕ} {c : HtblEntry} (hndx : ndx < n) (hm : m < n)
    (hu : ¬ Occ T (pos n ndx m)) (hfuel : m < fuel) : ∃ r, htblInsertLoop n fuel T ndx c = .ok r := by
  induction fuel generalizing T ndx c m with
  | zero => omega
  | succ fuel ih =>
    unfold htblInsertLoop
    dsimp only
    split_ifs with hunset
    · exact ⟨_, rfl⟩
    all_goals
      -- the slot just passed is set, so the unset one lies ahead
      obtain ⟨m, rfl⟩ : ∃ k, m = k + 1 := Nat.exists_eq_succ_of_ne_zero (by
        rintro rfl
        rw [pos_zero hndx] at hu
        exact hunset (not_not.1 hu))
      have hnext : pos n (next n ndx) m = pos n ndx (m + 1) := pos_next (by omega)
    · have hne : pos n ndx (m + 1) ≠ ndx := fun heq => hu (by rw [heq]; exact hunset)
      refine ih m (next_lt hndx) (by omega) ?_ (by omega)
      rw [hnext]
      simpa [Occ, hne] using hu
    · exact ⟨_, rfl⟩
    · exact ih m (next_lt hndx) (by omega) (hnext ▸ hu) (by omega)

end Table

/-! ## The registry -/

structure Registry (fs : Flexalloc) : Prop where
  len : fs.pools.freelist.len = fs.npools
  ok : fs.pools.freelist.Ok
  few : fs.npools ≤ 2 ^ 31
  slots : 0 < fs.pools.htbl.tblSize
  tbl : TblIn fs.pools.htbl.tblSize fs.npools fs.pools.htbl.tbl

section Registry

variable {env : Env} {fs fs' : Flexalloc} {err : ℤ} {ndx : ℕ}

theorem Quiet.registry (hq : Quiet fs fs') (h : Registry fs) : Registry fs' := by
  have hn : fs'.npools = fs.npools := by rw [Flexalloc.npools, hq.vol]
  refine ⟨?_, ?_, ?_, ?_, ?_⟩
  · rw [hq.flist, hn]
    exact h.len
  · rw [hq.flist]
    exact h.ok
  · rw [hn]
    exact h.few
  · rw [hq.htbl]
    exact h.slots
  · rw [hq.htbl, hn]
    exact h.tbl

theorem Registry.setFlist (h : Registry fs) {fl : Freelist} (hlen : fl.len = fs.pools.freelist.len) (hok : fl.Ok) :
    Registry { fs with pools := { fs.pools with freelist := fl } } :=
  ⟨hlen.trans h.len, hok, h.few, h.slots, h.tbl⟩

theorem Registry.alloc (h : Registry fs) :
    (takeEntry fs.pools.freelist = none ∧ flaFlistEntriesAlloc fs.pools.freelist 1 = (-1, fs.pools.freelist)) ∨
      ∃ k fl, takeEntry fs.pools.freelist = some (k, fl) ∧ k < fs.npools ∧
        flaFlistEntriesAlloc fs.pools.freelist 1 = ((k : ℤ), fl) := by
  rw [entriesAlloc_one, flaFlistEntryAlloc]
  cases htake : takeEntry fs.pools.freelist with
  | none => exact .inl ⟨rfl, rfl⟩
  | some r =>
    obtain ⟨k, fl⟩ := r
    have hk : k < fs.npools := h.len ▸ takeEntry_lt h.ok htake
    refine .inr ⟨k, fl, rfl, hk, ?_⟩
    dsimp only
    rw [toInt_of_lt (hk.trans_le h.few)]

theorem Registry.free (h : Registry fs) (hndx : ndx < fs.npools) :
    ∃ fl, flaFlistEntriesFree fs.pools.freelist ndx 1 = .ok (0, fl) ∧ fl.len = fs.pools.freelist.len ∧ fl.Ok ∧
      ∀ j, fl.isFree j = (fs.pools.freelist.isFree j || decide (j = ndx)) := by
  have hlt : ndx < fs.pools.freelist.len := h.len.symm ▸ hndx
  have hfew := h.few
  obtain ⟨fl, hfree, hlen, hrest⟩ := entriesFree_one hlt (by omega)
  exact ⟨fl, hfree, hlen, free_ok h.ok hlt hlen hrest, hrest⟩

theorem Registry.compress (h : Registry fs) (x : ℕ) :
    flaHtblCompress x fs.pools.htbl.tblSize < fs.pools.htbl.tblSize := Nat.mod_lt _ h.slots

theorem Registry.lookup (h : Registry fs) (name : List (BitVec 8)) :
    ∃ r, htblLookup flaHashing fs.pools.htbl name = .ok r ∧
      ∀ i, r = some i → i < fs.pools.htbl.tblSize ∧ (fs.pools.htbl.tbl i).val < fs.npools := by
  obtain ⟨r, hrun, hr⟩ := h.tbl.lookupLoop (flaHashing.h2 name) (2 ^ 16 + 1) (h.compress _) (Nat.zero_le _) (by omega)
  refine ⟨r, ?_, fun i hi => ⟨hr i hi, (h.tbl i (hr i hi)).2⟩⟩
  rw [htblLookup, if_neg h.slots.ne']
  exact hrun

theorem Registry.insert (h : Registry fs) {name : List (BitVec 8)} (hndx : ndx < fs.npools) {t : Htbl}
    (hrun : htblInsert flaHashing fs.pools.htbl name ndx = .ok (err, t)) :
    t.tblSize = fs.pools.htbl.tblSize ∧ TblIn t.tblSize fs.npools t.tbl :=
  SlotsIn.insert (tblIn_lasting _) h.tbl ⟨Nat.two_pow_pos 16, hndx⟩ hrun

theorem Registry.remove (h : Registry fs) {name : List (BitVec 8)} {t : Htbl}
    (hrun : htblRemove flaHashing fs.pools.htbl name = .ok t) :
    t.tblSize = fs.pools.htbl.tblSize ∧ TblIn t.tblSize fs.npools t.tbl :=
  SlotsIn.remove (tblIn_lasting _) h.tbl hrun

theorem Registry.setHtbl (h : Registry fs) {t : Htbl} (hsize : t.tblSize = fs.pools.htbl.tblSize)
    (htbl : TblIn t.tblSize fs.npools t.tbl) : Registry { fs with pools := { fs.pools with htbl := t } } :=
  ⟨h.len, h.ok, h.few, hsize ▸ h.slots, htbl⟩

theorem Registry.createAt (h : Registry fs) (hndx : ndx < fs.npools) {arg : PoolCreateArg} {n : ℕ}
    {handle : Option PoolHandle} (hrun : poolCreateAt env fs arg ndx n = .ok (err, handle, fs')) : Registry fs' := by
  obtain ⟨e, -, hrun⟩ := bind_eq_ok hrun
  obtain ⟨⟨err₁, t⟩, hins, hrun⟩ := bind_eq_ok hrun
  obtain ⟨hsize, htbl⟩ := h.insert hndx hins
  have h1 := h.setHtbl hsize htbl
  dsimp only at hrun
  split_ifs at hrun
  · obtain ⟨fl, hfree, hlen, hok, -⟩ := h.free hndx
    obtain ⟨r, hfree', hrun⟩ := bind_eq_ok hrun
    obtain rfl : (0, fl) = r := Except.ok.inj (hfree.symm.trans hfree')
    cases hrun
    exact ⟨hlen.trans h.len, hok, h1.few, h1.slots, h1.tbl⟩
  · obtain ⟨fnc, -, hrun⟩ := bind_eq_ok hrun
    obtain ⟨e', -, hrun⟩ := bind_eq_ok hrun
    cases hrun
    exact ⟨h1.len, h1.ok, h1.few, h1.slots, h1.tbl⟩

/-- **Creating a pool** keeps the registry, whatever the argument. -/
theorem Registry.create (h : Registry fs) {arg : PoolCreateArg} {handle : Option PoolHandle}
    (hrun : flaBasePoolCreate env fs arg = .ok (err, handle, fs')) : Registry fs' := by
  obtain ⟨⟨err₁, found⟩, -, hrun⟩ := bind_eq_ok hrun
  split at hrun
  · obtain ⟨e, -, hrun⟩ := bind_eq_ok hrun
    split_ifs at hrun
    all_goals
      cases hrun
      exact h
  split at hrun
  · cases hrun
    exact h
  obtain ⟨n, -, hrun⟩ := bind_eq_ok hrun
  split at hrun
  · cases hrun
    exact h
  split at hrun
  · cases hrun
    exact h
  split at hrun
  · cases hrun
    exact h
  rcases h.alloc with ⟨-, halloc⟩ | ⟨k, fl, htake, hk, halloc⟩
  · rw [halloc] at hrun
    cases hrun
    exact h
  · rw [halloc] at hrun
    dsimp only at hrun
    rw [if_neg (by omega), Int.toNat_natCast] at hrun
    exact (h.setFlist (takeEntry_some htake).2.2.1 (takeEntry_ok h.ok htake)).createAt hk hrun

/-- **Destroying a pool** keeps it, whatever the handle. -/
theorem Registry.destroy (h : Registry fs) {handle : PoolHandle} (hrun : flaBasePoolDestroy fs handle = .ok (err, fs')) :
    Registry fs' := by
  obtain ⟨err₁, hcheck, hrun⟩ := bind_eq_ok hrun
  split_ifs at hrun with herr
  · cases hrun
    exact h
  have hndx : handle.ndx < fs.npools := by
    by_contra hle
    have hentry : fs.entryAt handle.ndx = .error .outOfBounds := if_neg hle
    unfold poolDestroyCheck at hcheck
    rw [hentry] at hcheck
    split_ifs at hcheck
    · cases hcheck
      exact herr (by decide)
    · cases hcheck
  cases hrel : flaPoolReleaseAllSlabs fs handle.ndx with
  | mk err₂ fs₂ =>
    have hq := (releaseAll_steady hrel).quiet
    have h2 := hq.registry h
    have hndx₂ : handle.ndx < fs₂.npools := by rwa [Flexalloc.npools, hq.vol]
    rw [hrel] at hrun
    dsimp only at hrun
    split_ifs at hrun
    · cases hrun
      exact h2
    obtain ⟨fl, hfree, hlen, hok, -⟩ := h2.free hndx₂
    have h3 := h2.setFlist hlen hok
    rw [poolForget, hfree, ok_bind] at hrun
    dsimp only at hrun
    rw [if_neg (by decide)] at hrun
    obtain ⟨t, hrem, hrun⟩ := bind_eq_ok hrun
    cases hrun
    obtain ⟨hsize, htbl⟩ := h3.remove hrem
    exact h3.setHtbl hsize htbl

end Registry

/-! ## In every session -/

section Session

variable {dev mdDev : Dev} {hasMd : Bool} {npools slabNlb : ℕ} {geo : Geo} {env : Env} {fs fs' : Flexalloc}
variable {wiped : Bytes} {async : StrpXfer}

theorem Registry.call (h : Registry fs) {c : Call} {res : Res} (hrun : baseCall env fs c = .ok (res, fs')) :
    Registry fs' := by
  cases c with
  | poolCreate arg =>
    obtain ⟨⟨err, handle, fs₁⟩, hcreate, hrun⟩ := bind_eq_ok hrun
    cases hrun
    exact h.create hcreate
  | poolDestroy handle =>
    obtain ⟨⟨err, fs₁⟩, hdestroy, hrun⟩ := bind_eq_ok hrun
    cases hrun
    exact h.destroy hdestroy
  | sync =>
    obtain ⟨⟨err, fs₁⟩, hsync, hrun⟩ := bind_eq_ok hrun
    cases hrun
    exact (flush_flushed hsync).quiet.registry h
  | objectOpen pool obj =>
    obtain ⟨⟨err, fs₁⟩, hopen, hrun⟩ := bind_eq_ok hrun
    cases hrun
    exact (objectOpen_steady hopen).quiet.registry h
  | objectCreate pool =>
    obtain ⟨⟨err, obj, fs₁⟩, hcreate, hrun⟩ := bind_eq_ok hrun
    cases hrun
    exact (objectCreate_steady hcreate).quiet.registry h
  | objectDestroy pool obj =>
    obtain ⟨⟨err, fs₁⟩, hdestroy, hrun⟩ := bind_eq_ok hrun
    cases hrun
    exact (objectDestroy_steady hdestroy).quiet.registry h
  | poolSetRootObject pool obj act =>
    obtain ⟨⟨err, fs₁⟩, hset, hrun⟩ := bind_eq_ok hrun
    cases hrun
    exact (setRootObject_quiet hset).registry h
  | poolOpen name =>
    obtain ⟨r, -, hrun⟩ := bind_eq_ok hrun
    cases hrun
    exact h
  | poolGetRootObject pool =>
    obtain ⟨r, -, hrun⟩ := bind_eq_ok hrun
    cases hrun
    exact h

theorem Registry.setDisk (h : Registry fs) (disk : Bytes) : Registry { fs with disk := disk } :=
  ⟨h.len, h.ok, h.few, h.slots, h.tbl⟩

theorem TblIn.stored {n m : ℕ} {T T' : ℕ → HtblEntry} (h : TblIn n m T) (hT : ∀ i < n, T' i = (T i).stored) :
    TblIn n m T' := by
  intro i hi
  rw [hT i hi]
  exact ⟨Nat.mod_lt _ (Nat.two_pow_pos 16), (Nat.mod_le _ _).trans_lt (h i hi).2⟩

theorem Reopened.registry (hr : Reopened fs fs') (h : Registry fs) : Registry fs' := by
  have hn : fs'.npools = fs.npools := by rw [Flexalloc.npools, hr.vol]
  refine ⟨?_, ?_, ?_, ?_, ?_⟩
  · rw [hr.flist, hn]
    exact h.len
  · rw [hr.flist]
    exact h.ok
  · rw [hn]
    exact h.few
  · rw [hr.tblSize]
    exact h.slots
  · rw [hr.tblSize, hn]
    exact h.tbl.stored hr.slot

/-- **Each step keeps the registry.** -/
theorem Registry.step (hl : Laid dev mdDev hasMd npools slabNlb geo) (hv : OnVol dev mdDev hasMd geo fs) (h : Registry fs)
    {x : Env × SessionOp} (hx : ExactRanges (if hasMd then mdDev else dev) x)
    (hstep : sessionStep wiped async fs x = some fs') : OnVol dev mdDev hasMd geo fs' ∧ Registry fs' := by
  obtain ⟨env, op⟩ := x
  have hvol : ∀ {fs₁ : Flexalloc}, OnVol dev mdDev hasMd geo fs₁ → Effects (fun _ => True) fs₁ fs' →
      OnVol dev mdDev hasMd geo fs' := fun hv₁ he => he.inv (fun _ _ he hv => he.onVol hv) hv₁
  have hdisk : ∀ disk, OnVol dev mdDev hasMd geo { fs with disk := disk } :=
    fun _ => ⟨hv.vol, hv.devs, hv.flist, hv.hdr, hv.tbl⟩
  cases op with
  | call c =>
    cases c with
    | objectDestroy pool obj =>
      obtain ⟨⟨err, fs₁⟩, hrun, rfl⟩ := Option.map_eq_some_iff.1 hstep
      have hdestroy := toOption_eq_some hrun
      refine ⟨hvol (hdisk _) (destroyObject_effects (linksIn_true _) hdestroy), ?_⟩
      exact (objectDestroy_steady hdestroy).quiet.registry (h.setDisk _)
    | _ =>
      obtain ⟨⟨res, fs₁⟩, hrun, rfl⟩ := Option.map_eq_some_iff.1 hstep
      have hcall := toOption_eq_some hrun
      exact ⟨hvol hv (baseCall_effects (linksIn_true fs) hcall), h.call hcall⟩
  | write ndx obj buf offset len =>
    obtain ⟨r, -, rfl⟩ := Option.map_eq_some_iff.1 hstep
    exact ⟨hdisk r.2, h.setDisk r.2⟩
  | unalignedWrite ndx obj buf offset len =>
    obtain ⟨r, -, rfl⟩ := Option.map_eq_some_iff.1 hstep
    exact ⟨hdisk r.2, h.setDisk r.2⟩
  | reopen env₂ =>
    obtain ⟨fs₁, err, hflush, hopen⟩ := reopen_eq_some hstep
    rw [← hv.mdHome] at hx
    obtain ⟨hre, -⟩ := reopen_inv hl hv hx.1 hx.2 hflush hopen
    exact ⟨⟨hre.vol.trans hv.vol, ⟨hre.devs.1.trans hv.devs.1, hre.devs.2.trans hv.devs.2⟩,
      (congrArg Freelist.len hre.flist).trans hv.flist, hre.hdr.trans hv.hdr, hre.tblSize.trans hv.tbl⟩,
      hre.registry h⟩

/-- the metadata of a volume holds an entry for each pool, so there are far fewer than 2^31 -/
theorem Laid.few (hl : Laid dev mdDev hasMd npools slabNlb geo) : geo.npools < 2 ^ 31 := by
  have hoff := hl.arranged.2 (flaGeoPoolSgmtOff geo + u32 (geo.lbNbytes * u32 (geo.poolSgmt.freelistNlb +
    geo.poolSgmt.htblNlb)), geo.npools * sizeofFlaPoolEntry) (by simp [mdRanges])
  have hbytes := hl.nbytes
  have hsize : sizeofFlaPoolEntry = 160 := rfl
  dsimp only at hoff
  rw [hsize] at hoff
  omega

theorem Mounted.onVol (hm : Mounted dev mdDev hasMd npools slabNlb geo fs) : OnVol dev mdDev hasMd geo fs := by
  refine ⟨hm.fresh.vol, hm.devs, ?_, ?_, ?_⟩
  all_goals
    rw [hm.fresh.pools]
    rfl

/-- **At the start** every entry is free and every slot unset. -/
theorem Mounted.registry (hl : Laid dev mdDev hasMd npools slabNlb geo)
    (hm : Mounted dev mdDev hasMd npools slabNlb geo fs) : Registry fs := by
  have hn : fs.npools = geo.npools := by
    rw [Flexalloc.npools, hm.fresh.vol]
    rfl
  have hpos := (accepted_bounds hm.accepted).1
  have hfew := hl.few
  have hsize : geo.poolSgmt.htblTblSize = 2 * geo.npools := by
    obtain ⟨-, -, a, p, n, -, -, -, -, -, -, -, rfl⟩ := mkfsGeoCalc_accepts hm.accepted
    have hfew : min p n < 2 ^ 31 := hfew
    show u32 (min p n * 2) = 2 * min p n
    rw [u32_of_lt (by omega), Nat.mul_comm]
  refine ⟨?_, ?_, ?_, ?_, ?_⟩
  · rw [hn, hm.fresh.pools]
    rfl
  · rw [hm.fresh.pools]
    exact init_ok _
  · rw [hn]
    exact hfew.le
  · rw [hm.fresh.pools]
    show 0 < geo.poolSgmt.htblTblSize
    omega
  · rw [hn, hm.fresh.pools]
    exact fun i _ => ⟨Nat.two_pow_pos 16, hpos⟩

/-- **Sessions.** The registry is in order in every state reached. -/
theorem session_registry (hm : Mounted dev mdDev hasMd npools slabNlb geo fs) (hlb : 512 ≤ dev.lbNbytes)
    (hbytes : flaGeoNbytes geo < 2 ^ 32) {xs : List (Env × SessionOp)}
    (hxs : ∀ x ∈ xs, ExactRanges (if hasMd then mdDev else dev) x)
    (hrun : run (sessionStep wiped async) fs xs = some fs') : Registry fs' := by
  have hl : Laid dev mdDev hasMd npools slabNlb geo := ⟨hm.accepted, hm.slabNlb_lt, hm.same_lb, hlb, hbytes⟩
  have hboth : OnVol dev mdDev hasMd geo fs' ∧ Registry fs' :=
    run_inv_visited (P := fun fs => OnVol dev mdDev hasMd geo fs ∧ Registry fs) (Q := fun _ => True)
      (fun _ _ _ h _ hx hstep => Registry.step hl h.1 h.2 hx hstep) ⟨hm.onVol, hm.registry hl⟩ hxs
      (fun _ _ _ _ => trivial) hrun
  exact hboth.2

end Session

end FlexAlloc
