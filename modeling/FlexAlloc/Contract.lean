/-
The contract of the object allocator, with one pool.

A client of a file system with one pool creates and destroys pools and objects, destroys an object only while it holds
it and a pool only when it holds none. Buffers are there. `Contract` says what it may count on in every state: where each
slab is, what its count says, when a create succeeds, and that a create that fails does nothing.

- `single_pool_contract`: it holds along every run whose pools have at most 2^31 objects in a slab.
- `contract_overrun`: a slab of 2^31 + 1 objects. Indices go through an `int`, so the last one is never handed out.
-/
import FlexAlloc.PoolMap
import FlexAlloc.Refcounts
import FlexAlloc.Steady

namespace FlexAlloc

open FlexAlloc.Core Function

/-! ## The contract -/

/-- the list a slab with `r` objects of `n` belongs in -/
def listFor (n r : ℕ) : SlabKind := if r = 0 then .empty else if r = n then .full else .part

/-- slab `x` of the pool, in the list of kind `k`: its count is right, and so is the list -/
structure SlabCounted (s : Sys) (k : SlabKind) (x : ℕ) : Prop where
  live : (s.fs.header x).refcount = liveIn s.live x
  reserved : ∃ buf, (s.fs.cache x).freelist = some buf ∧ (s.fs.header x).refcount = flaFlistNumReserved buf.flist
  list : k = listFor (s.fs.pools.entries 0).slabNobj (s.fs.header x).refcount

/-- each slab is once in one of the four lists, and the pool's slabs are counted -/
structure SlabsCounted (s : Sys) (free : List ℕ) (lists : SlabKind → List ℕ) : Prop where
  queue : Queue s.fs.slabs.headers s.fs.slabs.fslabHead s.fs.slabs.fslabTail free
  num : s.fs.slabs.fslabNum = free.length
  linked : s.fs.PoolLive 0 → ∀ k, ∃ q, Linked s.fs.slabs.headers q ((s.fs.pools.entries 0).head k) (lists k)
  none : ¬ s.fs.PoolLive 0 → ∀ k, lists k = []
  once : (free ++ lists .empty ++ lists .part ++ lists .full).Perm (List.range s.fs.nslabs)
  slab : ∀ k, ∀ x ∈ lists k, SlabCounted s k x

/-- a create returns: with a new object while there is room, else with an error and nothing changed -/
def CreateExact (env : Env) (s : Sys) : Prop :=
  ∃ err obj fs', flaBaseObjectCreate env s.fs 0 = .ok (err, obj, fs') ∧
    (err = 0 ↔ s.live.length < s.fs.nslabs * (s.fs.pools.entries 0).slabNobj) ∧
    (err = 0 → ∃ o, obj = some o ∧ (o, 0) ∉ s.live ∧ o.slabId < s.fs.nslabs ∧
      o.entryNdx < (s.fs.pools.entries 0).slabNobj) ∧
    (err ≠ 0 → fs' = s.fs)

structure Contract (s : Sys) : Prop where
  slabs : ∃ free lists, SlabsCounted s free lists
  create : s.fs.PoolLive 0 → ∀ env : Env, env.bufAlloc → CreateExact env s

/-- buffers are there, and pools are destroyed when no object is live -/
def Contracted (s : Sys) (x : Env × Op) : Prop :=
  x.1.bufAlloc = true ∧ match x.2 with
    | .poolDestroy _ => s.live = []
    | _ => True

instance (s : Sys) : (x : Env × Op) → Decidable (Contracted s x)
  | (env, .poolDestroy _) => inferInstanceAs (Decidable (env.bufAlloc = true ∧ s.live = []))
  | (env, .poolCreate _) | (env, .objectCreate _) | (env, .objectDestroy _ _) =>
    inferInstanceAs (Decidable (env.bufAlloc = true ∧ True))

/-- the index of every object of `objNlb` blocks in a slab fits an `int` -/
def FitsInt (v : Volume) (objNlb : ℕ) : Prop := ∀ n ∈ (flaCalcObjsInSlab v objNlb).toOption, n ≤ 2 ^ 31

instance (v : Volume) (objNlb : ℕ) : Decidable (FitsInt v objNlb) := inferInstanceAs (Decidable (∀ n ∈ _, n ≤ 2 ^ 31))

/-- and pools are made for objects whose indices fit an `int` -/
def ContractedFits (s : Sys) (x : Env × Op) : Prop :=
  Contracted s x ∧ match x.2 with
    | .poolCreate arg => FitsInt s.fs.vol arg.objNlb
    | _ => True

instance (s : Sys) : (x : Env × Op) → Decidable (ContractedFits s x)
  | (env, .poolCreate arg) =>
    inferInstanceAs (Decidable (Contracted s (env, .poolCreate arg) ∧ FitsInt s.fs.vol arg.objNlb))
  | (env, .poolDestroy h) => inferInstanceAs (Decidable (Contracted s (env, .poolDestroy h) ∧ True))
  | (env, .objectCreate ndx) => inferInstanceAs (Decidable (Contracted s (env, .objectCreate ndx) ∧ True))
  | (env, .objectDestroy ndx o) => inferInstanceAs (Decidable (Contracted s (env, .objectDestroy ndx o) ∧ True))

/-! ## Counting the objects of all slabs -/

theorem sum_liveIn {live : List (Obj × ℕ)} {n : ℕ} (h : ∀ o p, (o, p) ∈ live → o.slabId < n) :
    ∑ x ∈ Finset.range n, liveIn live x = live.length := by
  induction live with
  | nil => simp [liveIn]
  | cons a live ih =>
    obtain ⟨o, p⟩ := a
    have hlt : o.slabId < n := h o p List.mem_cons_self
    have hone : ∑ x ∈ Finset.range n, (if o.slabId = x then 1 else 0) = 1 := by
      rw [Finset.sum_ite_eq, if_pos (Finset.mem_range.2 hlt)]
    calc ∑ x ∈ Finset.range n, liveIn ((o, p) :: live) x
        = ∑ x ∈ Finset.range n, (liveIn live x + if o.slabId = x then 1 else 0) :=
          Finset.sum_congr rfl fun x _ => liveIn_cons o p live x
      _ = live.length + 1 := by
          rw [Finset.sum_add_distrib, hone, ih fun o p hop => h o p (List.mem_cons_of_mem _ hop)]
      _ = ((o, p) :: live).length := (List.length_cons).symm

section Counting

variable {v : Volume} {tight sharp : Prop} {s : Sys} {L : Option SlabKind → List ℕ}

theorem Owned.slab_lt (ho : Owned v tight sharp s L) {o : Obj} {p : ℕ} (h : (o, p) ∈ s.live) :
    o.slabId < s.fs.nslabs := by
  obtain ⟨-, -, k, hk⟩ := ho.live o p h
  rw [ho.nslabs]
  exact ho.chains.lt _ _ hk

/-- **Room.** There are no more objects than entries in all slabs. -/
theorem Owned.length_le (ho : Owned v tight sharp s L) :
    s.live.length ≤ s.fs.nslabs * (s.fs.pools.entries 0).slabNobj := by
  calc s.live.length
      = ∑ x ∈ Finset.range s.fs.nslabs, liveIn s.live x := (sum_liveIn fun _ _ h => ho.slab_lt h).symm
    _ ≤ ∑ _x ∈ Finset.range s.fs.nslabs, (s.fs.pools.entries 0).slabNobj := Finset.sum_le_sum fun x _ => ho.liveIn_le x
    _ = s.fs.nslabs * (s.fs.pools.entries 0).slabNobj := by
        rw [Finset.sum_const, Finset.card_range, smul_eq_mul]

theorem Owned.length_full (ho : Owned v True sharp s L) (h31 : (s.fs.pools.entries 0).slabNobj ≤ 2 ^ 31)
    (hfull : ∀ q, q ≠ some .full → L q = []) :
    s.live.length = s.fs.nslabs * (s.fs.pools.entries 0).slabNobj := by
  have hslab : ∀ x ∈ Finset.range s.fs.nslabs, liveIn s.live x = (s.fs.pools.entries 0).slabNobj := fun x hx => by
    obtain ⟨q, hq⟩ := ho.cover trivial x (ho.nslabs ▸ Finset.mem_range.1 hx)
    have hqf : q = some .full := by
      by_contra hne
      rw [hfull q hne] at hq
      cases hq
    subst hqf
    have hs := ho.slab .full x hq
    have hkind := hs.kind
    rw [hs.refcount, kindOf_eq (by omega) (ho.liveIn_le x)] at hkind
    split_ifs at hkind with h0 hn
    exact hn
  calc s.live.length
      = ∑ x ∈ Finset.range s.fs.nslabs, liveIn s.live x := (sum_liveIn fun _ _ h => ho.slab_lt h).symm
    _ = ∑ _x ∈ Finset.range s.fs.nslabs, (s.fs.pools.entries 0).slabNobj := Finset.sum_congr rfl hslab
    _ = s.fs.nslabs * (s.fs.pools.entries 0).slabNobj := by
        rw [Finset.sum_const, Finset.card_range, smul_eq_mul]

/-! ## The contract from the invariant -/

theorem Owned.createExact (hg : VolOk v) (ho : Owned v True True s L) (hp : s.fs.PoolLive 0)
    (h31 : (s.fs.pools.entries 0).slabNobj ≤ 2 ^ 31) {env : Env} (hbuf : env.bufAlloc) : CreateExact env s := by
  obtain ⟨err, obj, fs', hrun, hsame, hcase⟩ := objectCreate_owned hg ho hp env
  refine ⟨err, obj, fs', hrun, ?_⟩
  rcases hcase with ⟨rfl, o, L', rfl, hlt, hnew, ho'⟩ | ⟨herr, -, -, hfail⟩
  · have hroom := ho'.length_le
    have hslab : o.slabId < fs'.nslabs := ho'.slab_lt (p := 0) List.mem_cons_self
    have hn : fs'.nslabs = s.fs.nslabs := by rw [Flexalloc.nslabs, hsame.vol]
    simp only [List.length_cons, hsame.slabNobj, hn] at hroom
    rw [hn] at hslab
    exact ⟨iff_of_true rfl (by omega), fun _ => ⟨o, rfl, hnew, hslab, hlt⟩, fun h => absurd rfl h⟩
  · obtain ⟨hsame', hfull⟩ := hfail trivial trivial hbuf h31
    have hlen := ho.length_full h31 hfull
    exact ⟨iff_of_false herr (by omega), fun h => absurd h herr, fun _ => hsame'⟩

theorem Owned.slabsCounted (hg : VolOk v) (ho : Owned v True True s L)
    (h31 : (s.fs.pools.entries 0).slabNobj ≤ 2 ^ 31) : SlabsCounted s (L none) fun k => L (some k) := by
  have happ : ∀ {q q' : Option SlabKind}, q ≠ q' → ∀ a ∈ L q, ∀ b ∈ L q', a ≠ b := fun hne a ha b hb hab =>
    hne (ho.chains.disj _ _ a ha (hab ▸ hb))
  refine ⟨ho.chains.queue, ho.num trivial, fun hp k => ⟨flaLinkedListNull, ?_⟩, ho.alone, ?_, fun k x hx => ?_⟩
  · have hk := ho.chains.linked k
    rw [ho.listHead hp] at hk
    exact hk
  · refine (List.perm_ext_iff_of_nodup ?_ List.nodup_range).2 fun x => ?_
    · refine List.nodup_append.2 ⟨List.nodup_append.2 ⟨List.nodup_append.2 ⟨ho.chains.nodup _, ho.chains.nodup _,
        happ (by simp)⟩, ho.chains.nodup _, fun a ha => ?_⟩, ho.chains.nodup _, fun a ha => ?_⟩
      · rcases List.mem_append.1 ha with ha | ha
        exacts [happ (by simp) a ha, happ (by simp) a ha]
      · rcases List.mem_append.1 ha with ha | ha
        · rcases List.mem_append.1 ha with ha | ha
          exacts [happ (by simp) a ha, happ (by simp) a ha]
        · exact happ (by simp) a ha
    · simp only [List.mem_append, List.mem_range, ho.nslabs]
      constructor
      · rintro (((hx | hx) | hx) | hx)
        exacts [ho.chains.lt _ x hx, ho.chains.lt _ x hx, ho.chains.lt _ x hx, ho.chains.lt _ x hx]
      · intro hx
        obtain ⟨q, hq⟩ := ho.cover trivial x hx
        rcases q with _ | _ | _ | _
        exacts [.inl (.inl (.inl hq)), .inl (.inl (.inr hq)), .inr hq, .inl (.inr hq)]
  · have hs := ho.slab k x hx
    obtain ⟨buf, hbuf, -⟩ := hs.flist
    refine ⟨hs.refcount, ⟨buf, hbuf, ho.refcount_eq hg hs.cached hbuf⟩, ?_⟩
    have hle := ho.liveIn_le x
    rw [← hs.refcount] at hle
    exact hs.kind.trans (kindOf_eq (by omega) hle)

theorem Owned.contract (hg : VolOk v) (ho : Owned v True True s L) (h31 : (s.fs.pools.entries 0).slabNobj ≤ 2 ^ 31) :
    Contract s :=
  ⟨⟨_, _, ho.slabsCounted hg h31⟩, fun hp _ hbuf => ho.createExact hg hp h31 hbuf⟩

end Counting

/-! ## Runs -/

section Step

variable {v : Volume} {s t : Sys} {L : Option SlabKind → List ℕ} {env : Env} {op : Op} {err : ℤ}

theorem perform_nobj (hg : VolOk v) (ho : Owned v True True s L) (hz : ThroughPoolZero op) (hlegal : Legal s op)
    (hfits : ∀ arg, op = .poolCreate arg → FitsInt s.fs.vol arg.objNlb)
    (hle : ∀ i, (s.fs.pools.entries i).slabNobj ≤ 2 ^ 31) (h : perform env s op = .ok (err, t)) (i : ℕ) :
    (t.fs.pools.entries i).slabNobj ≤ 2 ^ 31 := by
  cases op with
  | poolCreate arg =>
    obtain ⟨⟨err₁, hnd, fs'⟩, hrun, hres⟩ := bind_eq_ok h
    cases hres
    have hnp : s.fs.npools ≤ 2 ^ 31 := by
      rw [ho.npools]
      exact (hg.npools_le.trans hg.nslabs_le).trans (by decide)
    obtain ⟨-, -, ⟨hent, -⟩ | ⟨-, k, e, hc⟩⟩ := poolCreate_cases ho.dir hnp hrun
    · exact hent ▸ hle i
    · rw [hc.entries]
      by_cases hi : i = k
      · rw [hi, update_self]
        refine hfits arg rfl _ ?_
        rw [hc.nobj]
        rfl
      · rw [update_of_ne hi]
        exact hle i
  | poolDestroy handle =>
    obtain ⟨⟨err₁, fs'⟩, hrun, hres⟩ := bind_eq_ok h
    cases hres
    exact slabNobj_of_rest (poolDestroy_rest hrun i) ▸ hle i
  | objectCreate ndx =>
    have h0 : ndx = 0 := hz
    subst h0
    obtain ⟨err₁, obj, fs', hrun, hsame, -⟩ := objectCreate_owned hg ho hlegal env
    obtain ⟨⟨err₂, obj₂, fs₂⟩, hrun', hres⟩ := bind_eq_ok h
    rw [hrun] at hrun'
    cases hrun'
    cases hres
    exact hsame.slabNobj i ▸ hle i
  | objectDestroy ndx obj =>
    have hm : (obj, ndx) ∈ s.live := hlegal
    obtain rfl := (ho.live obj ndx hm).1
    obtain ⟨⟨err₂, fs₂⟩, hrun', hres⟩ := bind_eq_ok h
    cases hres
    rcases objectDestroy_refused hrun' with hcs | ⟨-, rfl⟩
    · obtain ⟨fs', L', hrun, hsame, -⟩ := objectDestroy_owned hg ho (ho.poolLive_of_live hm) hm hcs
      rw [hrun] at hrun'
      cases hrun'
      exact hsame.slabNobj i ▸ hle i
    · exact hle i

/-- with one pool, objects are created through the pool at index 0 -/
theorem Owned.throughPoolZero (ho : Owned v True True s L) (hnp : v.super.npools = 1) (hlegal : Legal s op) :
    ThroughPoolZero op := by
  cases op with
  | objectCreate ndx =>
    have hlt := ((poolLive_iff ho.dir.len ndx).1 hlegal).1
    rw [ho.npools, hnp] at hlt
    exact Nat.lt_one_iff.1 hlt
  | _ => trivial

/-- **One call** of a client that keeps to the contract keeps the invariant. -/
theorem contracted_owned (hg : VolOk v) (hnp : v.super.npools = 1) (ho : Owned v True True s L)
    (hle : (s.fs.pools.entries 0).slabNobj ≤ 2 ^ 31) (hc : Contracted s (env, op)) (hlegal : Legal s op)
    (h : perform env s op = .ok (err, t)) : ∃ L', Owned v True True t L' := by
  rcases perform_owned hg ho (ho.throughPoolZero hnp hlegal) hlegal h with ⟨⟨handle, rfl, -, o, ho'⟩, -, -⟩ | ⟨-, -, hkeep⟩
  · have hnone : s.live = [] := hc.2
    rw [hnone] at ho'
    cases ho'
  · exact hkeep trivial trivial (Or.inr ⟨hc.1, hle⟩)

end Step

/-- **The allocator's contract.** A file system is formatted for one pool on one conventional device with at most 2^31 - 1
slabs. Clients call with buffers there, destroy objects they hold and the pool when none is live, and create pools whose
objects have indices that fit an `int`. Then the contract holds in every state reached. -/
theorem single_pool_contract {dev : Dev} {slabNlb : ℕ} {geo : Geo} (hf : Formatted dev 1 slabNlb geo)
    (hn : geo.nslabs ≤ flaLinkedListNull) (disk : Bytes) {calls : List (Env × Op)} {s : Sys}
    (hrun : run (guard ContractedFits step) (.init dev geo disk) calls = some s) : Contract s := by
  have hg := hf.volOk hn
  have hnp : (Volume.single geo).super.npools = 1 := hf.npools_eq one_ne_zero
  have hinv : (∃ L, Owned (.single geo) True True s L) ∧ ∀ i, (s.fs.pools.entries i).slabNobj ≤ 2 ^ 31 := by
    refine run_inv (P := fun s => (∃ L, Owned (.single geo) True True s L) ∧
      ∀ i, (s.fs.pools.entries i).slabNobj ≤ 2 ^ 31) (fun s x t hs hstep => ?_)
      ⟨⟨_, mkfs_owned hf hn disk⟩, fun i => Nat.zero_le _⟩ hrun
    obtain ⟨⟨L, ho⟩, hle⟩ := hs
    obtain ⟨env, op⟩ := x
    obtain ⟨⟨hc, hfits⟩, hst⟩ := guard_eq_some hstep
    obtain ⟨hlegal, err, hperf⟩ := step_eq_some hst
    refine ⟨contracted_owned hg hnp ho (hle 0) hc hlegal hperf,
      perform_nobj hg ho (ho.throughPoolZero hnp hlegal) hlegal (fun arg ha => ?_) hle hperf⟩
    subst ha
    exact hfits
  obtain ⟨⟨L, ho⟩, hle⟩ := hinv
  exact ho.contract hg (hle 0)

/-- a system of seven slabs and one pool; objects are created and destroyed -/
theorem single_pool_contract_small : ∃ s, run (guard ContractedFits step) (.init smallDev (mkfsGeo smallDev 8 1 7) 0)
      (reliably [.poolCreate (smallArg 97 1), .objectCreate 0, .objectCreate 0, .objectDestroy 0 ⟨0, 0⟩]) = some s ∧
    s.live = [(⟨0, 1⟩, 0)] ∧ Contract s := by
  have hf : Formatted smallDev 1 8 (mkfsGeo smallDev 8 1 7) := ⟨rfl, by decide, by decide +kernel⟩
  obtain ⟨s, hs, hlive⟩ := Option.map_eq_some_iff.1 (show (run (guard ContractedFits step)
    (.init smallDev (mkfsGeo smallDev 8 1 7) 0) (reliably [.poolCreate (smallArg 97 1), .objectCreate 0, .objectCreate 0,
      .objectDestroy 0 ⟨0, 0⟩])).map (·.live) = some [(⟨0, 1⟩, 0)] by decide +kernel)
  exact ⟨s, hs, hlive, single_pool_contract hf (by decide +kernel) 0 hs⟩

/-! ## Slabs of more than 2^31 objects -/

theorem toInt_lt (n : ℕ) : toInt n < 2 ^ 31 := by
  have := u32_lt n
  unfold toInt
  split_ifs <;> omega

theorem entryAlloc_lt (fl : Freelist) : (flaFlistEntryAlloc fl).1 < 2 ^ 31 := by
  unfold flaFlistEntryAlloc
  cases takeEntry fl with
  | none => exact show (-1 : ℤ) < 2 ^ 31 by decide
  | some r => exact toInt_lt r.1

theorem entriesAllocLoop_lt (n : ℕ) {ret : ℤ} (hret : ret < 2 ^ 31) (fl : Freelist) :
    (entriesAllocLoop n ret fl).1 < 2 ^ 31 := by
  induction n generalizing fl with
  | zero => exact hret
  | succ n ih =>
    rw [entriesAllocLoop]
    split_ifs
    · exact show (-1 : ℤ) < 2 ^ 31 by decide
    · exact ih _

theorem entriesAlloc_lt (fl : Freelist) (num : ℕ) : (flaFlistEntriesAlloc fl num).1 < 2 ^ 31 := by
  unfold flaFlistEntriesAlloc
  dsimp only
  split_ifs
  · exact entryAlloc_lt fl
  · exact entriesAllocLoop_lt _ (entryAlloc_lt fl) _

section Index

variable {env : Env} {fs fs' : Flexalloc} {x ndx num : ℕ} {err : ℤ} {o : Obj}

theorem objAlloc_index (h : flaSlabCacheObjAlloc fs x num = .ok (err, some o, fs')) : o.entryNdx < 2 ^ 31 := by
  unfold flaSlabCacheObjAlloc at h
  dsimp only at h
  split_ifs at h
  · cases h
  · cases hbuf : (fs.cache x).freelist with
    | none =>
      rw [hbuf] at h
      cases h
    | some buf =>
      have hlt := entriesAlloc_lt buf.flist num
      rw [hbuf] at h
      dsimp only at h
      split_ifs at h
      · cases h
      · cases h
        show (flaFlistEntriesAlloc buf.flist num).1.toNat < 2 ^ 31
        omega

theorem nextAvailableObj_index (h : flaSlabNextAvailableObj fs x num = .ok (err, some o, fs')) :
    o.entryNdx < 2 ^ 31 := by
  unfold flaSlabNextAvailableObj at h
  split_ifs at h
  · cases h
  · cases halloc : flaSlabCacheObjAlloc fs x num with
    | error f =>
      rw [halloc] at h
      cases h
    | ok r =>
      obtain ⟨err₁, obj, fs₁⟩ := r
      rw [halloc] at h
      dsimp only at h
      have hobj : obj = some o := by
        split_ifs at h
        · cases h
          rfl
        · split at h
          · cases h
            rfl
          · cases h
          · cases h
      exact objAlloc_index (hobj ▸ halloc)

theorem objectCreate_index (h : flaBaseObjectCreate env fs ndx = .ok (err, some o, fs')) : o.entryNdx < 2 ^ 31 := by
  obtain ⟨-, -, h⟩ := bind_eq_ok h
  obtain ⟨⟨err₁, slab, fs₁⟩, -, h⟩ := bind_eq_ok h
  dsimp only at h
  split_ifs at h
  · cases h
  unfold objectCreateIn at h
  split_ifs at h
  · cases h
  obtain ⟨⟨err₂, fs₂⟩, -, h⟩ := bind_eq_ok h
  dsimp only at h
  split_ifs at h
  · cases h
  obtain ⟨src, -, h⟩ := bind_eq_ok h
  obtain ⟨fnc, -, h⟩ := bind_eq_ok h
  obtain ⟨⟨err₃, obj, fs₃⟩, hnext, h⟩ := bind_eq_ok h
  dsimp only at h
  have hobj : obj = some o := by
    split_ifs at h
    · cases h
      rfl
    · obtain ⟨dst, -, h⟩ := bind_eq_ok h
      split_ifs at h
      · cases h
        rfl
      · cases h
        rfl
  exact nextAvailableObj_index (hobj ▸ hnext)

end Index

/-- a call within the contract that returns is a step -/
theorem contracted_step {s t : Sys} {env : Env} {op : Op} {err : ℤ} (hc : Contracted s (env, op)) (hlegal : Legal s op)
    (h : perform env s op = .ok (err, t)) : guard Contracted step s (env, op) = some t := by
  rw [Core.guard, if_pos hc, step, if_pos hlegal, h]

theorem perform_poolCreate {s : Sys} {env : Env} {arg : PoolCreateArg} {err : ℤ} {hnd : Option PoolHandle} {fs' : Flexalloc}
    (h : flaBasePoolCreate env s.fs arg = .ok (err, hnd, fs')) :
    perform env s (.poolCreate arg) = .ok (err, ⟨fs', s.live⟩) := by
  rw [perform, h]
  rfl

section Overrun

variable {v : Volume} {s : Sys} {L : Option SlabKind → List ℕ}

theorem Owned.length_le_of_index {tight sharp : Prop} (ho : Owned v tight sharp s L)
    (hidx : ∀ o p, (o, p) ∈ s.live → o.entryNdx < 2 ^ 31) : s.live.length ≤ s.fs.nslabs * 2 ^ 31 := by
  have hle : ∀ x, liveIn s.live x ≤ 2 ^ 31 := fun x =>
    liveIn_le_of_lt ho.nodup fun o p h => ⟨(ho.live o p h).1, fun _ => hidx o p h⟩
  calc s.live.length
      = ∑ x ∈ Finset.range s.fs.nslabs, liveIn s.live x := (sum_liveIn fun _ _ h => ho.slab_lt h).symm
    _ ≤ ∑ _x ∈ Finset.range s.fs.nslabs, 2 ^ 31 := Finset.sum_le_sum fun x _ => hle x
    _ = s.fs.nslabs * 2 ^ 31 := by rw [Finset.sum_const, Finset.card_range, smul_eq_mul]

theorem Contract.create_step (hg : VolOk v) (hc : Contract s) (ho : Owned v True True s L) (hp : s.fs.PoolLive 0)
    (hroom : s.live.length < s.fs.nslabs * (s.fs.pools.entries 0).slabNobj) :
    ∃ t L' o, guard Contracted step s (.reliable, .objectCreate 0) = some t ∧ SlabsOnly 0 s.fs t.fs ∧
      t.live = (o, 0) :: s.live ∧ o.entryNdx < 2 ^ 31 ∧ Owned v True True t L' := by
  obtain ⟨err, obj, fs', hrun, hiff, -⟩ := hc.create hp .reliable rfl
  obtain rfl := hiff.2 hroom
  obtain ⟨err₁, obj₁, fs₁, hrun₁, hsame, hcase⟩ := objectCreate_owned hg ho hp .reliable
  rw [hrun] at hrun₁
  cases hrun₁
  rcases hcase with ⟨-, o, L', rfl, -, -, ho'⟩ | ⟨herr, -⟩
  · refine ⟨⟨fs', (o, 0) :: s.live⟩, L', o, ?_, hsame, rfl, objectCreate_index hrun, ho'⟩
    have hperf : perform .reliable s (.objectCreate 0) = .ok (0, ⟨fs', (o, 0) :: s.live⟩) := by
      rw [perform, hrun]
      rfl
    exact contracted_step ⟨rfl, trivial⟩ hp hperf
  · exact absurd rfl herr

/-- **Past the range of an `int`.** From a pool without objects whose slabs hold more than 2^31, enough creates lead to a
state that breaks the contract. -/
theorem Owned.overrun (hg : VolOk v) (ho : Owned v True True s L) (hp : s.fs.PoolLive 0) (hlive : s.live = [])
    (h31 : 2 ^ 31 < (s.fs.pools.entries 0).slabNobj) :
    ∃ n t, run (guard Contracted step) s (List.replicate n (.reliable, .objectCreate 0)) = some t ∧ ¬ Contract t := by
  by_contra hall
  push Not at hall
  have hpos : 0 < s.fs.nslabs := ho.nslabs ▸ hg.nslabs_pos
  have hcap : s.fs.nslabs * 2 ^ 31 < s.fs.nslabs * (s.fs.pools.entries 0).slabNobj := Nat.mul_lt_mul_of_pos_left h31 hpos
  -- every create succeeds, and one object more is live
  have hreach : ∀ n ≤ s.fs.nslabs * 2 ^ 31 + 1, ∃ t L', SlabsOnly 0 s.fs t.fs ∧
      run (guard Contracted step) s (List.replicate n (.reliable, .objectCreate 0)) = some t ∧
      t.live.length = n ∧ (∀ o p, (o, p) ∈ t.live → o.entryNdx < 2 ^ 31) ∧ Owned v True True t L' := by
    intro n hn
    induction n with
    | zero =>
      refine ⟨s, L, .refl 0 s.fs, rfl, by rw [hlive]; rfl, fun o p h => ?_, ho⟩
      rw [hlive] at h
      cases h
    | succ n ih =>
      obtain ⟨t, L', hsame, hrun, hlen, hidx, ho'⟩ := ih (by omega)
      have hn' : t.fs.nslabs = s.fs.nslabs := by rw [Flexalloc.nslabs, hsame.vol]
      have hroom : t.live.length < t.fs.nslabs * (t.fs.pools.entries 0).slabNobj := by
        rw [hlen, hn', hsame.slabNobj]
        omega
      obtain ⟨u, L'', o, hstep, hsame', hu, ho31, ho''⟩ :=
        (hall n t hrun).create_step hg ho' ((hsame.poolLive 0).2 hp) hroom
      refine ⟨u, L'', hsame.trans hsame', ?_, by rw [hu, List.length_cons, hlen], fun o' p h => ?_, ho''⟩
      · rw [List.replicate_succ', run_append, hrun, Option.bind_some, run, hstep]
        rfl
      · rw [hu] at h
        rcases List.mem_cons.1 h with h | h
        · cases h
          exact ho31
        · exact hidx o' p h
  obtain ⟨t, L', hsame, -, hlen, hidx, ho'⟩ := hreach _ le_rfl
  have hn' : t.fs.nslabs = s.fs.nslabs := by rw [Flexalloc.nslabs, hsame.vol]
  have hle := ho'.length_le_of_index hidx
  rw [hlen, hn'] at hle
  omega

end Overrun

theorem wideGeo_formatted : Formatted wideDev 1 wideSlabNlb wideGeo := ⟨rfl, by decide, wideGeo_accepted⟩

theorem wide_pool : ∃ s L, run (guard Contracted step) (.init wideDev wideGeo 0)
      [(.reliable, .poolCreate (smallArg 97 1))] = some s ∧ Owned (.single wideGeo) True True s L ∧
    s.fs.PoolLive 0 ∧ s.live = [] ∧ 2 ^ 31 < (s.fs.pools.entries 0).slabNobj := by
  have hn : wideGeo.nslabs ≤ flaLinkedListNull := by decide +kernel
  have hopen : flaBasePoolOpen .reliable (flaMkfs wideDev wideGeo 0) (smallArg 97 1).name = .ok (-1, none) :=
    toOption_eq_some (by decide +kernel)
  obtain ⟨⟨k, fl⟩, htake, rfl⟩ := Option.map_eq_some_iff.1
    (show (takeEntry (flaMkfs wideDev wideGeo 0).pools.freelist).map (·.1) = some 0 by decide +kernel)
  obtain ⟨⟨err, htbl⟩, hins, rfl⟩ := Option.map_eq_some_iff.1 (show (htblInsert flaHashing
    (flaMkfs wideDev wideGeo 0).pools.htbl (smallArg 97 1).name 0).toOption.map (·.1) = some 0 by decide +kernel)
  obtain ⟨e, hreset⟩ : ∃ e, flaPoolEntryResetDefault .reliable ((flaMkfs wideDev wideGeo 0).pools.entries 0) (smallArg 97 1)
    (32 * 2 ^ 26 + 1) = .ok e := ⟨_, rfl⟩
  have hk : 0 < (flaMkfs wideDev wideGeo 0).npools := by decide +kernel
  have hlen : 0 < (flaMkfs wideDev wideGeo 0).pools.freelist.len := by decide +kernel
  have hrun : flaBasePoolCreate .reliable (flaMkfs wideDev wideGeo 0) (smallArg 97 1) =
      .ok (0, some ⟨flaHashing.h2 (smallArg 97 1).name, 0⟩, poolMade (flaMkfs wideDev wideGeo 0) 0 fl htbl e) :=
    poolCreate_new hopen (show (1 : ℤ) < 112 by decide) wide_calc (by norm_num) rfl rfl htake hk (by norm_num)
      (toOption_eq_some hins) hreset
  obtain ⟨-, ho⟩ := poolCreate_owned (wideGeo_formatted.volOk hn) (mkfs_owned wideGeo_formatted hn 0) hrun
  refine ⟨_, _, ?_, ho, (poolMade_live hlen htake 0).2 (Or.inl rfl), rfl, ?_⟩
  · have hlegal : Legal (.init wideDev wideGeo 0) (.poolCreate (smallArg 97 1)) := show 1 < 2 ^ 32 by decide
    rw [run, contracted_step ⟨rfl, trivial⟩ hlegal (perform_poolCreate hrun)]
    rfl
  · show 2 ^ 31 < (update (flaMkfs wideDev wideGeo 0).pools.entries 0 e 0).slabNobj
    rw [update_self, (entryReset_spec hreset).1]
    norm_num

/-- One slab of 2^31 + 1 objects of one block, and a client that only creates: the contract does not last. -/
theorem contract_overrun : ∃ calls s, run (guard Contracted step) (.init wideDev wideGeo 0) calls = some s ∧
    Formatted wideDev 1 wideSlabNlb wideGeo ∧ wideGeo.nslabs ≤ flaLinkedListNull ∧ ¬ Contract s := by
  have hn : wideGeo.nslabs ≤ flaLinkedListNull := by decide +kernel
  obtain ⟨s, L, hs, ho, hp, hlive, h31⟩ := wide_pool
  obtain ⟨n, t, ht, hbroken⟩ := ho.overrun (wideGeo_formatted.volOk hn) hp hlive h31
  refine ⟨[(.reliable, .poolCreate (smallArg 97 1))] ++ List.replicate n (.reliable, .objectCreate 0), t, ?_,
    wideGeo_formatted, hn, hbroken⟩
  rw [run_append, hs]
  exact ht

end FlexAlloc
