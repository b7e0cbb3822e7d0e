/-
Slab ownership over whole runs, and what a refused pool destroy leaves behind.

- `perform_owned`: what one call does to the ownership invariant, for every outcome.
- `slab_partition`: in every run of successful calls that creates objects through pool 0 only, each slab is in exactly
  one list: the free queue, or a list of the one live pool whose objects it holds.
- `poolDestroy_atomic_iff`: in the states of such runs (calls may also fail), a pool destroy that fails leaves
  everything as it was if and only if the handle was refused or the pool has no live object.

Both fail without their conditions: `fla_format_slab` gives every slab to pool 0 (`partition_two_pools`), and
`fla_hdll_remove_all` moves the head of a list before the release of its first slab is refused
(`poolDestroy_moves_head`).
-/
import FlexAlloc.Ownership

namespace FlexAlloc

open FlexAlloc.Core Function

def ThroughPoolZero : Op → Prop
  | .objectCreate ndx => ndx = 0
  | _ => True

instance : (op : Op) → Decidable (ThroughPoolZero op)
  | .objectCreate ndx => inferInstanceAs (Decidable (ndx = 0))
  | .poolCreate _ | .poolDestroy _ | .objectDestroy _ _ => inferInstanceAs (Decidable True)

section Perform

variable {v : Volume} {tight sharp : Prop} {s t : Sys} {L : Option SlabKind → List ℕ} {env : Env} {op : Op} {err : ℤ}

/-- a pool is destroyed while objects of it are live -/
def Orphans (s : Sys) (op : Op) : Prop :=
  ∃ handle, op = .poolDestroy handle ∧ poolDestroyCheck s.fs handle = .ok 0 ∧ ∃ o, (o, handle.ndx) ∈ s.live

theorem Owned.poolLive_of_live (ho : Owned v tight sharp s L) {o : Obj} {p : ℕ} (h : (o, p) ∈ s.live) :
    s.fs.PoolLive 0 := by
  by_contra hp
  rw [ho.live_nil (ho.alone hp)] at h
  cases h

/-- the objects of a pool destroyed without any are all objects -/
theorem Owned.filter_live (ho : Owned v tight sharp s L) {ndx : ℕ} (h : ndx = 0 → s.live = []) :
    s.live.filter (fun o => o.2 ≠ ndx) = s.live := by
  rw [List.filter_eq_self]
  rintro ⟨o, p⟩ hop
  have hp := (ho.live o p hop).1
  by_cases h0 : ndx = 0
  · rw [h h0] at hop; cases hop
  · simp only [hp, ne_eq, decide_eq_true_eq]
    exact fun h => h0 h.symm

theorem objectDestroy_refused {fs fs' : Flexalloc} {ndx : ℕ} {obj : Obj}
    (h : flaBaseObjectDestroy env fs ndx obj = .ok (err, fs')) :
    csObjectDestroy env fs ndx obj = .ok 0 ∨ (err ≠ 0 ∧ fs' = fs) := by
  unfold flaBaseObjectDestroy at h
  obtain ⟨e, hcs, h⟩ := bind_eq_ok h
  by_cases he : e ≠ 0
  · rw [if_pos he] at h
    cases h
    exact Or.inr ⟨he, rfl⟩
  · rw [not_ne_iff.1 he] at hcs
    exact Or.inl hcs

/-- **One call**, on a system whose objects are all created through pool 0: the invariant holds after it, except when a
pool is destroyed under its objects. What `tight` and `sharp` say is kept by every call that succeeds; by every call,
what `tight` says as long as memory is there, and what `sharp` says when besides indices fit an `int`. -/
theorem perform_owned (hg : VolOk v) (ho : Owned v tight sharp s L) (hz : ThroughPoolZero op) (hlegal : Legal s op)
    (h : perform env s op = .ok (err, t)) :
    (Orphans s op ∧ err ≠ 0 ∧ t.fs ≠ s.fs) ∨
      (SameDevs s.fs t.fs ∧ (∃ L', Owned v (tight ∧ env.bufAlloc) False t L') ∧
        (tight → sharp → err = 0 ∨ (env.bufAlloc ∧ (s.fs.pools.entries 0).slabNobj ≤ 2 ^ 31) →
          ∃ L', Owned v tight sharp t L')) := by
  have hkeep : ∀ {t : Sys} {L'}, SameDevs s.fs t.fs → Owned v tight sharp t L' →
      SameDevs s.fs t.fs ∧ (∃ L', Owned v (tight ∧ env.bufAlloc) False t L') ∧
      (tight → sharp → err = 0 ∨ (env.bufAlloc ∧ (s.fs.pools.entries 0).slabNobj ≤ 2 ^ 31) →
        ∃ L', Owned v tight sharp t L') :=
    fun hdevs ho' => ⟨hdevs, ⟨_, ho'.mono And.left False.elim⟩, fun _ _ _ => ⟨_, ho'⟩⟩
  cases op with
  | poolCreate arg =>
    obtain ⟨⟨err₁, hnd, fs'⟩, hrun, hres⟩ := bind_eq_ok h
    cases hres
    obtain ⟨hdevs, ho'⟩ := poolCreate_owned hg ho hrun
    exact Or.inr (hkeep hdevs ho')
  | poolDestroy handle =>
    obtain ⟨⟨err₁, fs'⟩, hrun, hres⟩ := bind_eq_ok h
    cases hres
    rcases poolDestroy_owned hg ho hrun with ⟨-, herr, rfl⟩ | ⟨-, hlive, rfl, -, hdevs, L', ho'⟩ | ⟨hck, h0, hlive, herr, hne⟩
    · rw [if_neg herr]
      exact Or.inr (hkeep ⟨rfl, rfl⟩ ho)
    · rw [if_pos rfl, ho.filter_live hlive]
      exact Or.inr (hkeep hdevs ho')
    · obtain ⟨⟨o, p⟩, hop⟩ := List.exists_mem_of_ne_nil _ hlive
      have hp := (ho.live o p hop).1
      exact Or.inl ⟨⟨handle, rfl, hck, o, by rw [h0]; rw [hp] at hop; exact hop⟩, herr, hne⟩
  | objectCreate ndx =>
    have h0 : ndx = 0 := hz
    subst h0
    obtain ⟨err₁, obj, fs', hrun, hsame, hcase⟩ := objectCreate_owned hg ho hlegal env
    obtain ⟨⟨err₂, obj₂, fs₂⟩, hrun', hres⟩ := bind_eq_ok h
    rw [hrun] at hrun'
    cases hrun'
    cases hres
    rcases hcase with ⟨rfl, o, L', rfl, -, -, ho'⟩ | ⟨herr, L', ho', hsamefs⟩
    · rw [if_pos rfl]
      exact Or.inr (hkeep hsame.devs ho')
    · rw [if_neg herr]
      refine Or.inr ⟨hsame.devs, ⟨L', ho'.mono id False.elim⟩, fun ht hs hor => ?_⟩
      rcases hor with h0 | ⟨hb, h31⟩
      · exact absurd h0 herr
      · rw [(hsamefs ht hs hb h31).1]
        exact ⟨L, ho⟩
  | objectDestroy ndx obj =>
    have hm : (obj, ndx) ∈ s.live := hlegal
    have h0 := (ho.live obj ndx hm).1
    subst h0
    obtain ⟨⟨err₂, fs₂⟩, hrun', hres⟩ := bind_eq_ok h
    cases hres
    rcases objectDestroy_refused hrun' with hcs | ⟨herr, rfl⟩
    · obtain ⟨fs', L', hrun, hsame, ho'⟩ := objectDestroy_owned hg ho (ho.poolLive_of_live hm) hm hcs
      rw [hrun] at hrun'
      cases hrun'
      rw [if_pos rfl]
      exact Or.inr (hkeep hsame.devs ho')
    · rw [if_neg herr]
      exact Or.inr (hkeep ⟨rfl, rfl⟩ ho)

end Perform

/-! ## The partition -/

/-- each slab is once in exactly one of the free queue and the lists of the live pools, and in a list of the pool whose
objects it holds; the lists are well formed and the counter counts the free slabs -/
def Partition (s : Sys) : Prop :=
  ∃ (free : List ℕ) (lists : ℕ → SlabKind → List ℕ),
    Queue s.fs.slabs.headers s.fs.slabs.fslabHead s.fs.slabs.fslabTail free ∧
    (∀ p, s.fs.PoolLive p → ∀ k, ∃ q, Linked s.fs.slabs.headers q ((s.fs.pools.entries p).head k) (lists p k)) ∧
    (free ++ s.fs.pools.freelist.reserved.flatMap fun p => lists p .empty ++ lists p .full ++ lists p .part).Perm
      (List.range s.fs.nslabs) ∧
    (∀ o p, (o, p) ∈ s.live → s.fs.PoolLive p ∧ ∃ k, o.slabId ∈ lists p k) ∧
    s.fs.slabs.fslabNum = free.length

theorem Owned.partition {v : Volume} {s : Sys} {L : Option SlabKind → List ℕ} (ho : Owned v True True s L) :
    Partition s := by
  let lists : ℕ → SlabKind → List ℕ := fun p k => if p = 0 then L (some k) else []
  have hmem : ∀ x, x ∈ s.fs.pools.freelist.reserved.flatMap (fun p => lists p .empty ++ lists p .full ++ lists p .part) ↔
      ∃ k, x ∈ L (some k) := fun x => by
    rw [List.mem_flatMap]
    constructor
    · rintro ⟨p, -, hx⟩
      by_cases hp : p = 0
      · subst hp
        simp only [lists, if_true, List.mem_append] at hx
        rcases hx with (hx | hx) | hx
        exacts [⟨_, hx⟩, ⟨_, hx⟩, ⟨_, hx⟩]
      · simp [lists, hp] at hx
    · rintro ⟨k, hx⟩
      have hp : s.fs.PoolLive 0 := by
        by_contra hp
        rw [ho.alone hp] at hx
        cases hx
      refine ⟨0, hp, ?_⟩
      simp only [lists, if_true, List.mem_append]
      cases k with
      | empty => exact Or.inl (Or.inl hx)
      | full => exact Or.inl (Or.inr hx)
      | part => exact Or.inr hx
  have hnd : ∀ p, (lists p .empty ++ lists p .full ++ lists p .part).Nodup := fun p => by
    by_cases hp : p = 0
    · subst hp
      simp only [lists, if_true]
      refine List.nodup_append.2 ⟨List.nodup_append.2 ⟨ho.chains.nodup _, ho.chains.nodup _, fun a ha b hb hab => ?_⟩,
        ho.chains.nodup _, fun a ha b hb hab => ?_⟩
      · subst hab
        exact absurd (ho.chains.disj _ _ a ha hb) (by decide)
      · subst hab
        rcases List.mem_append.1 ha with ha | ha <;> exact absurd (ho.chains.disj _ _ a ha hb) (by decide)
    · simp [lists, hp]
  refine ⟨L none, lists, ho.chains.queue, fun p hp k => ⟨flaLinkedListNull, ?_⟩, ?_, fun o p hop => ?_, ho.num trivial⟩
  · by_cases h0 : p = 0
    · subst h0
      simp only [lists, if_true]
      rw [← ho.listHead hp]
      exact ho.chains.linked k
    · have := ho.others p h0 k
      rw [PoolEntry.listHead, if_neg (ho.dir.used p hp)] at this
      simp only [lists, if_neg h0]
      exact this
  · refine (List.perm_ext_iff_of_nodup ?_ List.nodup_range).2 fun x => ?_
    · refine List.nodup_append.2 ⟨ho.chains.nodup none, ?_, fun a ha b hb hab => ?_⟩
      · refine List.nodup_flatMap.2 ⟨fun p _ => hnd p, (reserved_nodup _).imp fun {p q} hpq => ?_⟩
        -- only pool 0 has slabs
        by_cases hp : p = 0
        · have hq : q ≠ 0 := fun h => hpq (hp.trans h.symm)
          simp [Function.onFun, lists, hq, List.disjoint_nil_right]
        · simp [Function.onFun, lists, hp, List.disjoint_nil_left]
      · subst hab
        obtain ⟨k, hk⟩ := (hmem a).1 hb
        exact absurd (ho.chains.disj _ _ a ha hk) (by simp)
    · rw [List.mem_append, hmem, List.mem_range, ho.nslabs]
      constructor
      · rintro (hx | ⟨k, hx⟩)
        exacts [ho.chains.lt _ x hx, ho.chains.lt _ x hx]
      · intro hx
        obtain ⟨q, hq⟩ := ho.cover trivial x hx
        cases q with
        | none => exact Or.inl hq
        | some k => exact Or.inr ⟨k, hq⟩
  · obtain ⟨hp0, -, k, hk⟩ := ho.live o p hop
    subst hp0
    exact ⟨ho.poolLive_of_live hop, k, by simp only [lists, if_true]; exact hk⟩

/-- **Slab ownership is a partition**, in every state reached by successful calls that create objects through pool 0
only, on any devices with slab ids below `FLA_LINKED_LIST_NULL`. -/
theorem slab_partition {dev mdDev : Dev} {hasMd : Bool} {npools slabNlb : ℕ} {geo : Geo} {fs : Flexalloc}
    (hm : Mounted dev mdDev hasMd npools slabNlb geo fs) (hn : geo.nslabs ≤ flaLinkedListNull) {calls : List (Env × Op)}
    {s : Sys} (hrun : run (guard (fun _ x => ThroughPoolZero x.2) stepOk) ⟨fs, []⟩ calls = some s) : Partition s := by
  have hg := volOk_of_accepted hm.accepted hm.slabNlb_lt hn
  have hinv : ∃ L, Owned (.formatted dev hasMd geo) True True s L := by
    refine run_inv (P := fun s => ∃ L, Owned (.formatted dev hasMd geo) True True s L) (fun s x t hs hstep => ?_)
      ⟨_, fresh_owned hg hm.fresh rfl⟩ hrun
    obtain ⟨L, ho⟩ := hs
    obtain ⟨hz, hok⟩ := guard_eq_some hstep
    obtain ⟨hlegal, hperf⟩ := stepOk_eq_some hok
    rcases perform_owned hg ho hz hlegal hperf with ⟨-, herr, -⟩ | ⟨-, -, htight⟩
    · exact absurd rfl herr
    · exact htight trivial trivial (Or.inl rfl)
  obtain ⟨L, ho⟩ := hinv
  exact ho.partition

/-- two objects are created and one destroyed -/
theorem slab_partition_small : ∃ s, run (guard (fun _ x => ThroughPoolZero x.2) stepOk) (.init smallDev smallGeo 0)
    (reliably [.poolCreate (smallArg 97 1), .objectCreate 0, .objectCreate 0, .objectDestroy 0 ⟨0, 0⟩]) = some s ∧
    s.live = [(⟨0, 1⟩, 0)] ∧ Partition s := by
  obtain ⟨s, hs, hlive⟩ := Option.map_eq_some_iff.1 (show (run (guard (fun _ x => ThroughPoolZero x.2) stepOk)
    (.init smallDev smallGeo 0) (reliably [.poolCreate (smallArg 97 1), .objectCreate 0, .objectCreate 0,
      .objectDestroy 0 ⟨0, 0⟩])).map (·.live) = some [(⟨0, 1⟩, 0)] by decide +kernel)
  exact ⟨s, hs, hlive, slab_partition small_mounted (by decide +kernel) hs⟩

theorem Linked.head_mem {hd : ℕ → SlabHeader} {p head : ℕ} {l : List ℕ} (h : Linked hd p head l)
    (hne : head ≠ flaLinkedListNull) : head ∈ l := by
  cases l with
  | nil => exact absurd h hne
  | cons x l => rw [h.1]; exact List.mem_cons_self

/-- two pools, one object through the second: its slab is in the empty list of the second pool and in the partial list
of the first -/
theorem partition_two_pools : ∃ s, run stepOk (.init smallDev smallGeo 0)
    (reliably [.poolCreate (smallArg 97 1), .poolCreate (smallArg 98 1), .objectCreate 1]) = some s ∧
    ¬ Partition s := by
  obtain ⟨s, hs, hval⟩ := Option.map_eq_some_iff.1 (show (run stepOk (.init smallDev smallGeo 0)
    (reliably [.poolCreate (smallArg 97 1), .poolCreate (smallArg 98 1), .objectCreate 1])).map
      (fun s => (s.fs.pools.freelist.reserved, (s.fs.pools.entries 0).partialSlabs, (s.fs.pools.entries 1).emptySlabs)) =
    some ([0, 1], 0, 0) by decide +kernel)
  simp only [Prod.mk.injEq] at hval
  obtain ⟨hres, hpart, hempty⟩ := hval
  refine ⟨s, hs, ?_⟩
  rintro ⟨free, lists, -, hlists, hperm, -, -⟩
  have hlive : ∀ p, p ∈ s.fs.pools.freelist.reserved → s.fs.PoolLive p := fun p hp => hp
  obtain ⟨q₀, h₀⟩ := hlists 0 (hlive 0 (by rw [hres]; simp)) .part
  obtain ⟨q₁, h₁⟩ := hlists 1 (hlive 1 (by rw [hres]; simp)) .empty
  have hm₀ : 0 ∈ lists 0 .part := by
    rw [show (s.fs.pools.entries 0).head .part = 0 from hpart] at h₀
    exact h₀.head_mem (by decide)
  have hm₁ : 0 ∈ lists 1 .empty := by
    rw [show (s.fs.pools.entries 1).head .empty = 0 from hempty] at h₁
    exact h₁.head_mem (by decide)
  have hnd := hperm.nodup_iff.2 List.nodup_range
  rw [hres] at hnd
  simp only [List.flatMap_cons, List.flatMap_nil, List.append_nil] at hnd
  have hpair := (List.nodup_append.1 (List.nodup_append.1 hnd).2.1).2.2
  exact hpair 0 (by simp [hm₀]) 0 (by simp [hm₁]) rfl

/-! ## Failed pool destroys -/

/-- a destroy through this handle that fails leaves the system as it was -/
def DestroyAtomic (fs : Flexalloc) (handle : PoolHandle) : Prop :=
  ∀ err fs', flaBasePoolDestroy fs handle = .ok (err, fs') → err ≠ 0 → fs' = fs

/-- objects are created through pool 0, and pools with live objects are not destroyed -/
def Careful (s : Sys) (op : Op) : Prop :=
  ThroughPoolZero op ∧ ∀ handle, op = .poolDestroy handle → ∀ o ∈ s.live, o.2 ≠ handle.ndx

instance (s : Sys) : (op : Op) → Decidable (Careful s op)
  | .poolDestroy handle => decidable_of_iff (∀ o ∈ s.live, o.2 ≠ handle.ndx)
      ⟨fun h => ⟨trivial, fun _ he => (Op.poolDestroy.inj he) ▸ h⟩, fun h => h.2 handle rfl⟩
  | .objectCreate ndx => decidable_of_iff (ndx = 0) ⟨fun h => ⟨h, fun _ he => by cases he⟩, fun h => h.1⟩
  | .poolCreate _ => isTrue ⟨trivial, fun _ he => by cases he⟩
  | .objectDestroy _ _ => isTrue ⟨trivial, fun _ he => by cases he⟩

theorem careful_owned {v : Volume} {fs : Flexalloc} (hg : VolOk v) (hfresh : Fresh v fs) {calls : List (Env × Op)} {s : Sys}
    (hrun : run (guard (fun s x => Careful s x.2) step) ⟨fs, []⟩ calls = some s) : ∃ L, Owned v False False s L := by
  refine run_inv (P := fun s => ∃ L, Owned v False False s L) (fun s x t hs hstep => ?_)
    ⟨_, (fresh_owned hg hfresh rfl).mono False.elim False.elim⟩ hrun
  obtain ⟨L, ho⟩ := hs
  obtain ⟨⟨hz, hno⟩, hst⟩ := guard_eq_some hstep
  obtain ⟨hlegal, err, hperf⟩ := step_eq_some hst
  rcases perform_owned hg ho hz hlegal hperf with ⟨⟨handle, hop, -, o, ho'⟩, -, -⟩ | ⟨-, ⟨L', ho'⟩, -⟩
  · exact absurd rfl (hno handle hop _ ho')
  · exact ⟨L', ho'.mono False.elim id⟩

/-- **Failed pool destroys.** In every state reached by calls that create objects through pool 0 and do not destroy a pool
under its objects, on any devices, and for every handle: a destroy that fails leaves everything as it was if and only if the
handle is refused by the checks or its pool has no live object. -/
theorem poolDestroy_atomic_iff {dev mdDev : Dev} {hasMd : Bool} {npools slabNlb : ℕ} {geo : Geo} {fs : Flexalloc}
    (hm : Mounted dev mdDev hasMd npools slabNlb geo fs) (hn : geo.nslabs ≤ flaLinkedListNull) {calls : List (Env × Op)}
    {s : Sys} (hrun : run (guard (fun s x => Careful s x.2) step) ⟨fs, []⟩ calls = some s) (handle : PoolHandle) :
    DestroyAtomic s.fs handle ↔ (poolDestroyCheck s.fs handle ≠ .ok 0 ∨ ∀ o ∈ s.live, o.2 ≠ handle.ndx) := by
  have hg := volOk_of_accepted hm.accepted hm.slabNlb_lt hn
  obtain ⟨L, ho⟩ := careful_owned hg hm.fresh hrun
  constructor
  · intro hat
    by_contra hcon
    push Not at hcon
    obtain ⟨hck, ⟨o, p⟩, hop, hp⟩ := hcon
    have h0 : p = 0 := (ho.live o p hop).1
    subst h0
    have hne : s.live ≠ [] := List.ne_nil_of_mem hop
    have hndx : handle.ndx = 0 := hp.symm
    have hlive := ho.poolLive_of_live hop
    obtain ⟨fs', hrel, hchg⟩ := ho.releaseAll_refused hg hlive hne
    rw [← hndx] at hrel
    exact hchg (hat 1 fs' (poolDestroy_stuck hck hrel (by decide)) (by decide))
  · intro hcond err fs' hd herr
    rcases poolDestroy_owned hg ho hd with ⟨-, -, h⟩ | ⟨-, -, h0, -⟩ | ⟨hck, h0, hlive, -, -⟩
    · exact h
    · exact absurd h0 herr
    · rcases hcond with h | h
      · exact absurd hck h
      · obtain ⟨⟨o, p⟩, hop⟩ := List.exists_mem_of_ne_nil _ hlive
        have hp := (ho.live o p hop).1
        exact absurd (hp.trans h0.symm) (h _ hop)

/-- the first slab that a destroy of the pool comes to -/
def firstSlab (e : PoolEntry) : ℕ :=
  if e.head .empty ≠ flaLinkedListNull then e.head .empty
  else if e.head .full ≠ flaLinkedListNull then e.head .full
  else e.head .part

theorem releaseAll_first {fs : Flexalloc} {ndx x : ℕ} (hn : fs.nslabs ≤ flaLinkedListNull)
    (hfirst : firstSlab (fs.pools.entries ndx) = x) (hx : x < fs.nslabs) (hr : (fs.header x).refcount ≠ 0) :
    ∃ k, (fs.pools.entries ndx).head k = x ∧ flaPoolReleaseAllSlabs fs ndx =
      (1, fs.setEntry ndx ((fs.pools.entries ndx).setHead k (fs.header x).next)) := by
  unfold firstSlab at hfirst
  by_cases hempty : (fs.pools.entries ndx).head .empty = flaLinkedListNull
  · rw [if_neg (not_not.2 hempty)] at hfirst
    by_cases hfull : (fs.pools.entries ndx).head .full = flaLinkedListNull
    · rw [if_neg (not_not.2 hfull)] at hfirst
      refine ⟨.part, hfirst, ?_⟩
      simp only [flaPoolReleaseAllSlabs, removeAll_null hempty, removeAll_null hfull, removeAll_first hn hfirst hx hr,
        ne_eq, not_true_eq_false, if_false]
    · rw [if_pos hfull] at hfirst
      refine ⟨.full, hfirst, ?_⟩
      simp only [flaPoolReleaseAllSlabs, removeAll_null hempty, removeAll_first hn hfirst hx hr, ne_eq, not_true_eq_false,
        if_false]
      rfl
  · rw [if_pos hempty] at hfirst
    refine ⟨.empty, hfirst, ?_⟩
    simp only [flaPoolReleaseAllSlabs, removeAll_first hn hfirst hx hr]
    rfl

/-- **A destroy refused at its first slab** is not atomic, in any state, whatever pools the objects were created through: the
slab is lost to its list, unless it is its own successor. -/
theorem not_destroyAtomic {fs : Flexalloc} {handle : PoolHandle} {x : ℕ} (hn : fs.nslabs ≤ flaLinkedListNull)
    (hck : poolDestroyCheck fs handle = .ok 0) (hfirst : firstSlab (fs.pools.entries handle.ndx) = x) (hx : x < fs.nslabs)
    (hr : (fs.header x).refcount ≠ 0) (hself : (fs.header x).next ≠ x) : ¬ DestroyAtomic fs handle := by
  intro hat
  obtain ⟨k, hhead, hrel⟩ := releaseAll_first hn hfirst hx hr
  have hsame := hat 1 _ (poolDestroy_stuck hck hrel (by decide)) (by decide)
  have hmoved := setHead_entry fs handle.ndx k (fs.header x).next
  rw [hsame, hhead] at hmoved
  exact hself hmoved.symm

/-- a pool with no object left, and the same pool with one -/
theorem poolDestroy_atomic_small : ∃ s t, run (guard (fun s x => Careful s x.2) step) (.init smallDev smallGeo 0)
      (reliably [.poolCreate (smallArg 97 1), .objectCreate 0, .objectDestroy 0 ⟨0, 0⟩]) = some s ∧
    run (guard (fun s x => Careful s x.2) step) (.init smallDev smallGeo 0)
      (reliably [.poolCreate (smallArg 97 1), .objectCreate 0]) = some t ∧
    DestroyAtomic s.fs ⟨97, 0⟩ ∧ ¬ DestroyAtomic t.fs ⟨97, 0⟩ := by
  obtain ⟨s, hs, hlive⟩ := Option.map_eq_some_iff.1 (show (run (guard (fun s x => Careful s x.2) step)
    (.init smallDev smallGeo 0) (reliably [.poolCreate (smallArg 97 1), .objectCreate 0,
      .objectDestroy 0 ⟨0, 0⟩])).map (·.live) = some [] by decide +kernel)
  obtain ⟨t, ht, hval⟩ := Option.map_eq_some_iff.1 (show (run (guard (fun s x => Careful s x.2) step)
    (.init smallDev smallGeo 0) (reliably [.poolCreate (smallArg 97 1), .objectCreate 0])).map
      (fun t => (t.live, decide (poolDestroyCheck t.fs ⟨97, 0⟩ = .ok 0))) = some ([(⟨0, 0⟩, 0)], true) by decide +kernel)
  simp only [Prod.mk.injEq, decide_eq_true_eq] at hval
  obtain ⟨hval, hck⟩ := hval
  have hnull : smallGeo.nslabs ≤ flaLinkedListNull := by decide +kernel
  refine ⟨s, t, hs, ht, (poolDestroy_atomic_iff small_mounted hnull hs ⟨97, 0⟩).2 (Or.inr fun o ho => ?_),
    fun hat => ?_⟩
  · rw [hlive] at ho; cases ho
  · rcases (poolDestroy_atomic_iff small_mounted hnull ht ⟨97, 0⟩).1 hat with h | h
    · exact h hck
    · exact h (⟨0, 0⟩, 0) (by rw [hval]; exact List.mem_singleton.2 rfl) rfl

/-- destroying a pool with a live object returns 1, and its partial list has lost the slab of that object -/
theorem poolDestroy_moves_head : ∃ s fs', run step (.init smallDev smallGeo 0)
      (reliably [.poolCreate (smallArg 97 1), .objectCreate 0]) = some s ∧
    flaBasePoolDestroy s.fs ⟨97, 0⟩ = .ok (1, fs') ∧
    (s.fs.pools.entries 0).partialSlabs = 0 ∧ (fs'.pools.entries 0).partialSlabs = flaLinkedListNull ∧ fs' ≠ s.fs := by
  obtain ⟨s, hs, hval⟩ := Option.map_eq_some_iff.1 (show (run step (.init smallDev smallGeo 0)
    (reliably [.poolCreate (smallArg 97 1), .objectCreate 0])).map
      (fun s => ((s.fs.pools.entries 0).partialSlabs, (flaBasePoolDestroy s.fs ⟨97, 0⟩).toOption.map
        fun r => (r.1, (r.2.pools.entries 0).partialSlabs))) = some (0, some (1, flaLinkedListNull)) by decide +kernel)
  simp only [Prod.mk.injEq] at hval
  obtain ⟨hhead, hres⟩ := hval
  cases hd : flaBasePoolDestroy s.fs ⟨97, 0⟩ with
  | error e => rw [hd] at hres; cases hres
  | ok r =>
    obtain ⟨err, fs'⟩ := r
    rw [hd] at hres
    obtain ⟨herr, hmoved⟩ := Prod.mk.inj (Option.some.inj hres)
    obtain rfl : err = 1 := herr
    have hmoved' : (fs'.pools.entries 0).partialSlabs = flaLinkedListNull := hmoved
    refine ⟨s, fs', hs, hd, hhead, hmoved', fun h => ?_⟩
    rw [h, hhead] at hmoved'
    exact absurd hmoved' (by decide)

end FlexAlloc
