/-
Free slabs can be acquired, in every run that does not bring a freelist of a free slab back into the cache.

`fla_acquire_slab` formats the slab it takes off the free queue, and formatting is refused unless the cache element of
the slab is stale. Releasing a slab makes it stale. `fla_base_object_open` loads the freelist of the slab an object
handle names, whatever that slab is used for: a handle of an object that is gone finds the freelist a sync has left on
the device when the first word there happens to be the number of objects in a slab of the pool (`Revives`).

- `pubStep_owned`: each call of the library keeps the ownership invariant.
- `free_slabs_ready`: in every run without such an open, with objects created through pool 0 and no pool destroyed under
  its objects, free slabs are stale and `fla_acquire_slab` fails only when the free count is 0.
- `open_revives_free_slab`: a pool that is synced, destroyed and created again, and a handle of an object it had.
-/
import FlexAlloc.Partition
import FlexAlloc.MdCache
import FlexAlloc.Sync

namespace FlexAlloc

open FlexAlloc.Core Function

/-! ## Calls -/

inductive PubOp where
  | call (op : Op)
  | objectOpen (ndx : ℕ) (obj : Obj)
  | sync
deriving DecidableEq, Repr

/-- what a client may ask for; it may open any object of a slab that exists -/
def PubLegal (s : Sys) : PubOp → Prop
  | .call op => Legal s op
  | .objectOpen _ obj => obj.slabId < s.fs.nslabs
  | .sync => True

instance (s : Sys) : (op : PubOp) → Decidable (PubLegal s op)
  | .call op => inferInstanceAs (Decidable (Legal s op))
  | .objectOpen _ obj => inferInstanceAs (Decidable (obj.slabId < s.fs.nslabs))
  | .sync => inferInstanceAs (Decidable True)

def pubPerform (env : Env) (s : Sys) : PubOp → Ret (ℤ × Sys)
  | .call op => perform env s op
  | .objectOpen ndx obj => do
    let (err, fs) ← flaBaseObjectOpen env s.fs ndx obj
    .ok (err, ⟨fs, s.live⟩)
  | .sync => do
    let (err, fs) ← flaBaseSync env s.fs
    .ok (err, ⟨fs, s.live⟩)

/-- a legal call that returns -/
def pubStep (s : Sys) (x : Env × PubOp) : Option Sys :=
  if PubLegal s x.2 then
    match pubPerform x.1 s x.2 with
    | .ok (_, t) => some t
    | .error _ => none
  else none

theorem pubStep_eq_some {s t : Sys} {x : Env × PubOp} (h : pubStep s x = some t) :
    PubLegal s x.2 ∧ ∃ err, pubPerform x.1 s x.2 = .ok (err, t) := by
  unfold pubStep at h
  split_ifs at h with hl
  refine ⟨hl, ?_⟩
  split at h
  · rename_i err t' hp
    exact ⟨err, by rw [hp, Option.some.inj h]⟩
  · cases h

/-! ## Freelists left on the device -/

/-- the first word of the blocks that hold the freelist of `n` entries of slab `slabId` -/
def leftoverLen (fs : Flexalloc) (slabId n : ℕ) : ℕ :=
  leNat fs.mdBytes (cacheEntryLbSlba fs.vol slabId (flaSlabCacheFlistNlb fs.vol n) * fs.geo.lbNbytes) 4

/-- opening `obj` through pool `ndx` loads the freelist of a slab that is not in the cache -/
def Revives (fs : Flexalloc) (ndx : ℕ) (obj : Obj) : Prop :=
  let n := (fs.pools.entries ndx).slabNobj
  (fs.cache obj.slabId).state = .stale ∧ ¬ (fs.vol.hasMd ∧ 1 < flaSlabCacheFlistNlb fs.vol n) ∧
    leftoverLen fs obj.slabId n = n

instance (fs : Flexalloc) (ndx : ℕ) (obj : Obj) : Decidable (Revives fs ndx obj) := by
  unfold Revives
  infer_instance

/-- objects are created through pool 0, pools with live objects are not destroyed, and no open brings back a freelist -/
def FreeSafe (s : Sys) : PubOp → Prop
  | .call op => Careful s op
  | .objectOpen ndx obj => ¬ Revives s.fs ndx obj
  | .sync => True

instance (s : Sys) : (op : PubOp) → Decidable (FreeSafe s op)
  | .call op => inferInstanceAs (Decidable (Careful s op))
  | .objectOpen ndx obj => inferInstanceAs (Decidable (¬ Revives s.fs ndx obj))
  | .sync => inferInstanceAs (Decidable True)

section Mounted

variable {dev mdDev : Dev} {hasMd : Bool} {npools slabNlb : ℕ} {geo : Geo}

/-- a slab starts after the metadata, at a block number far below 2^63 -/
theorem slabLbOff_bounds (h : flaMkfsGeoCalc dev hasMd npools slabNlb = .ok (0, geo)) (s : ℕ) :
    (hasMd = false → flaGeoSlabsLbOff geo ≤ flaGeoSlabLbOff (.formatted dev hasMd geo) s) ∧
      flaGeoSlabLbOff (.formatted dev hasMd geo) s < 2 ^ 36 := by
  obtain ⟨-, -, a, p, n, -, -, -, -, -, -, -, rfl⟩ := mkfsGeoCalc_accepts h
  have hbase := slabsLbOff_lt dev slabNlb p n
  set geo := mkfsGeo dev slabNlb p n
  have hoff := u32_lt (s * geo.slabNlb)
  have hcns : flaCsCnsSlabOffset (.formatted dev hasMd geo) s (if hasMd then 0 else flaGeoSlabsLbOff geo) < 2 ^ 35 ∧
      (hasMd = false → flaGeoSlabsLbOff geo ≤
        flaCsCnsSlabOffset (.formatted dev hasMd geo) s (if hasMd then 0 else flaGeoSlabsLbOff geo)) := by
    show (if hasMd then 0 else flaGeoSlabsLbOff geo) + u32 (s * geo.slabNlb) < 2 ^ 35 ∧
      (hasMd = false → flaGeoSlabsLbOff geo ≤ (if hasMd then 0 else flaGeoSlabsLbOff geo) + u32 (s * geo.slabNlb))
    cases hasMd
    · rw [if_neg Bool.false_ne_true]
      exact ⟨by omega, fun _ => by omega⟩
    · rw [if_pos rfl]
      exact ⟨by omega, fun h => by cases h⟩
  obtain ⟨hlt, hle⟩ := hcns
  cases hcs : dev.cs with
  | cns =>
    rw [flaGeoSlabLbOff, show (Volume.formatted dev hasMd geo).cs = .cns from hcs]
    exact ⟨hle, lt_trans hlt (by norm_num)⟩
  | zns nzsect =>
    rw [flaGeoSlabLbOff, show (Volume.formatted dev hasMd geo).cs = .zns nzsect from hcs]
    show (hasMd = false → flaGeoSlabsLbOff geo ≤ flaCsZnsSlabOffset (.formatted dev hasMd geo) nzsect s
      (if hasMd then 0 else flaGeoSlabsLbOff geo)) ∧ flaCsZnsSlabOffset (.formatted dev hasMd geo) nzsect s
      (if hasMd then 0 else flaGeoSlabsLbOff geo) < 2 ^ 36
    unfold flaCsZnsSlabOffset
    generalize flaCsCnsSlabOffset (.formatted dev hasMd geo) s (if hasMd then 0 else flaGeoSlabsLbOff geo) = off at *
    have hmod := Nat.mod_le off nzsect
    dsimp only
    split_ifs
    · exact ⟨hle, lt_trans hlt (by norm_num)⟩
    · exact ⟨fun hmd => (hle hmd).trans (Nat.le_add_right _ _), by omega⟩

/-- the blocks for the freelist of a slab end far below block 2^63, for every freelist a pool may ask for -/
theorem flist_end_lt (h : flaMkfsGeoCalc dev hasMd npools slabNlb = .ok (0, geo)) (hslab : slabNlb < 2 ^ 32) {s n : ℕ}
    (hs : s < geo.nslabs) (hn : geo.nslabs ≤ flaLinkedListNull)
    (hcalc : n ≠ 0 → ∃ objNlb, flaCalcObjsInSlab (.formatted dev hasMd geo) objNlb = .ok n)
    (hmd : ¬ (hasMd ∧ 1 < flaSlabCacheFlistNlb (.formatted dev hasMd geo) n)) :
    cacheEntryLbSlba (.formatted dev hasMd geo) s (flaSlabCacheFlistNlb (.formatted dev hasMd geo) n) +
      flaSlabCacheFlistNlb (.formatted dev hasMd geo) n < 2 ^ 63 := by
  obtain ⟨hge, hlt⟩ := slabLbOff_bounds h s
  have hnull : flaLinkedListNull = 2 ^ 31 - 1 := rfl
  obtain ⟨hlb, -, a, p, k, -, -, -, -, -, -, -, rfl⟩ := mkfsGeoCalc_accepts h
  have hbase := slabsLbOff_lt dev slabNlb p k
  cases hasMd with
  | true =>
    have hone : flaSlabCacheFlistNlb (.formatted dev true (mkfsGeo dev slabNlb p k)) n ≤ 1 :=
      not_lt.1 fun h => hmd ⟨rfl, h⟩
    rw [cacheEntryLbSlba_md rfl]
    show flaGeoSlabsLbOff (mkfsGeo dev slabNlb p k) + s + _ < _
    omega
  | false =>
    have hge' := hge rfl
    set v := Volume.formatted dev false (mkfsGeo dev slabNlb p k) with hv
    have hle : flaSlabCacheFlistNlb v n ≤ flaGeoSlabLbOff v s + slabNlb := by
      by_cases h0 : n = 0
      · subst h0
        have hsmall : flaSlabCacheFlistNlb v 0 ≤ flaCeilDiv sizeofFlaSuper dev.lbNbytes :=
          Nat.div_le_div_right (by show 4 * (1 + 0) + dev.lbNbytes - 1 ≤ 32 + dev.lbNbytes - 1; omega)
        have hmdNlb : u32 (flaCeilDiv sizeofFlaSuper dev.lbNbytes) ≤ flaGeoSlabsLbOff (mkfsGeo dev slabNlb p k) := by
          show _ ≤ u32 (flaCeilDiv sizeofFlaSuper dev.lbNbytes) + _ + _
          omega
        have h32 : flaCeilDiv sizeofFlaSuper dev.lbNbytes ≤ 32 := by
          unfold flaCeilDiv sizeofFlaSuper
          rw [← Nat.lt_succ_iff, Nat.div_lt_iff_lt_mul hlb]
          omega
        rw [u32_of_lt (by omega)] at hmdNlb
        omega
      · obtain ⟨objNlb, hc⟩ := hcalc h0
        have := (calcObjs_spec (v := v) rfl (show slabNlb < 2 ^ 32 from hslab) hc).2 (Nat.pos_of_ne_zero h0)
        have hgeo : v.geo.slabNlb = slabNlb := rfl
        omega
    rw [cacheEntryLbSlba, if_neg (by rw [hv]; exact Bool.false_ne_true)]
    have hsuper : v.super.slabNlb = slabNlb := rfl
    rw [hsuper, sub64_of_le hle (by omega)]
    omega

end Mounted

/-! ## What each call keeps -/

section Keep

variable {v : Volume} {tight sharp : Prop} {s : Sys} {L : Option SlabKind → List ℕ}

theorem Owned.flushed (ho : Owned v tight sharp s L) {fs' : Flexalloc} (hf : Flushed s.fs fs') :
    Owned v tight sharp ⟨fs', s.live⟩ L := by
  obtain ⟨n, hpools⟩ := hf.pools
  have hent : fs'.pools.entries = s.fs.pools.entries := by rw [hpools]
  have hnp : fs'.npools = s.fs.npools := by rw [Flexalloc.npools, hf.vol]
  have hlive : ∀ i, fs'.PoolLive i ↔ s.fs.PoolLive i := fun i => by
    rw [Flexalloc.PoolLive, Flexalloc.PoolLive, hpools]
  have hdir : Dir fs' := by
    refine ⟨?_, ?_, fun i hi => ?_, fun i hi => ?_, fun i hi => ?_, ?_⟩
    · rw [hpools, hnp]
      exact ho.dir.len
    · rw [hpools]
      exact ho.dir.ok
    · rw [hent]
      exact ho.dir.used i ((hlive i).1 hi)
    · rw [hent] at hi
      rw [hpools]
      exact ho.dir.fnc i hi
    · rw [hent] at hi ⊢
      exact ho.dir.unused i hi
    · rw [hpools]
      exact ho.dir.vals
  refine ⟨hf.vol.trans ho.vol, hdir, ?_, fun i hi k => ?_, ho.cover, fun ht => ?_, fun x hx => ?_, fun x => ?_,
    fun k x hx => ?_, ho.nodup, fun o p hop => ?_, fun i hi => ?_, fun h => ho.alone fun h' => h ((hlive 0).2 h')⟩
  · show Chains v.geo.nslabs fs'.slabs (fs'.pools.entries 0).listHead L
    rw [hf.slabs, hent]
    exact ho.chains
  · show (fs'.pools.entries i).listHead k = _
    rw [hent]
    exact ho.others i hi k
  · show fs'.slabs.fslabNum = _
    rw [hf.slabs]
    exact ho.num ht
  · exact (hf.stale x).2 (ho.free x hx)
  · show (fs'.slabs.headers x).pool = 0
    rw [hf.slabs]
    exact ho.pool x
  · obtain ⟨hpool, href, hkind, hcached, hfl⟩ := ho.slab k x hx
    show SlabOk (fs'.pools.entries 0).slabNobj s.live sharp x (fs'.slabs.headers x) (fs'.cache x) k
    rw [hf.slabs, hent]
    exact ⟨hpool, href, hkind, fun h => hcached ((hf.stale x).1 h), by rw [hf.flist]; exact hfl⟩
  · show _ ∧ o.entryNdx < (fs'.pools.entries 0).slabNobj ∧ _
    rw [hent]
    exact ho.live o p hop
  · have hi' : (fs'.pools.entries i).slabNobj ≠ 0 := hi
    show flaCalcObjsInSlab fs'.vol (fs'.pools.entries i).objNlb = .ok (fs'.pools.entries i).slabNobj
    rw [hent] at hi' ⊢
    rw [hf.vol]
    exact ho.nobj i hi'

variable {dev mdDev : Dev} {hasMd : Bool} {npools slabNlb : ℕ} {geo : Geo}

theorem objectOpen_same (h : flaMkfsGeoCalc dev hasMd npools slabNlb = .ok (0, geo)) (hslab : slabNlb < 2 ^ 32)
    (hn : geo.nslabs ≤ flaLinkedListNull) (ho : Owned (.formatted dev hasMd geo) tight sharp s L) {env : Env}
    (hx : env.RangesExact s.fs.mdHome) (hlb : s.fs.mdHome.lbNbytes = geo.lbNbytes) {ndx : ℕ} {obj : Obj}
    (hobj : obj.slabId < s.fs.nslabs) (hrev : ¬ Revives s.fs ndx obj) {err : ℤ} {fs' : Flexalloc}
    (hrun : flaBaseObjectOpen env s.fs ndx obj = .ok (err, fs')) : fs' = s.fs := by
  unfold flaBaseObjectOpen at hrun
  split_ifs at hrun with hck
  · cases hrun
    rfl
  obtain ⟨e, he, hrun⟩ := bind_eq_ok hrun
  obtain ⟨⟨err₁, fs₁⟩, hload, hrun⟩ := bind_eq_ok hrun
  cases hrun
  have he' : e = s.fs.pools.entries ndx := by
    unfold Flexalloc.entryAt at he
    split_ifs at he
    exact (Except.ok.inj he).symm
  subst he'
  rcases elemLoad_inv hload with ⟨hsame, -⟩ | ⟨-, hst, hmd, hvalid, buf, hread, hlen, -⟩
  · exact hsame
  -- the load has read the first word of the freelist blocks
  refine absurd ⟨hst, hmd, ?_⟩ hrev
  rw [ho.vol] at hmd
  obtain ⟨hlb0, -, _, _, _, -, -, -, -, -, -, -, hmk⟩ := mkfsGeoCalc_accepts h
  have hgeo : s.fs.geo.lbNbytes = geo.lbNbytes := by
    rw [Flexalloc.geo, ho.vol]
    rfl
  have hgeo0 : 0 < s.fs.geo.lbNbytes := by
    rw [hgeo, hmk]
    exact hlb0
  have hpos : 0 < flaSlabCacheFlistNlb s.fs.vol (s.fs.pools.entries ndx).slabNobj := flistNlb_pos hgeo0 _
  have hroom : 4 ≤ flaSlabCacheFlistNlb s.fs.vol (s.fs.pools.entries ndx).slabNobj * s.fs.geo.lbNbytes := by
    refine le_trans ?_ (flistNlb_room hgeo0 _)
    unfold flaFlistSize
    omega
  have hend := flist_end_lt h hslab (ho.nslabs ▸ hobj) hn
    (fun h0 => ⟨_, by have := ho.nobj ndx h0; rw [ho.vol] at this; exact this⟩) hmd
  rw [← ho.vol] at hend
  unfold leftoverLen
  rw [flistLbas] at hvalid hread
  set nlb := flaSlabCacheFlistNlb s.fs.vol (s.fs.pools.entries ndx).slabNobj
  set slba := cacheEntryLbSlba s.fs.vol obj.slabId nlb
  rw [hx slba nlb hpos hvalid] at hread
  have h63 : slba + nlb - 1 < 2 ^ 63 := by omega
  have hbuf := seqR_spec (seqR_mdts (by show slba ≤ slba + nlb - 1; omega) h63 hread) h63 hread
  have hblocks : slba + nlb - 1 + 1 - slba = nlb := by omega
  rw [hbuf, hlb, ← hgeo] at hlen
  dsimp only at hlen
  rw [hblocks, leNat_copyBytes hroom] at hlen
  exact hlen

/-- **One call of the library** keeps what is known of the slabs. -/
theorem pubStep_owned (h : flaMkfsGeoCalc dev hasMd npools slabNlb = .ok (0, geo)) (hslab : slabNlb < 2 ^ 32)
    (hn : geo.nslabs ≤ flaLinkedListNull) (ho : Owned (.formatted dev hasMd geo) True False s L) {x : Env × PubOp}
    (hbuf : x.1.bufAlloc) (hx : x.1.RangesExact s.fs.mdHome) (hlb : s.fs.mdHome.lbNbytes = geo.lbNbytes)
    (hsafe : FreeSafe s x.2) {t : Sys} (hstep : pubStep s x = some t) :
    SameDevs s.fs t.fs ∧ ∃ L', Owned (.formatted dev hasMd geo) True False t L' := by
  have hg := volOk_of_accepted h hslab hn
  obtain ⟨env, op⟩ := x
  obtain ⟨hlegal, err, hperf⟩ := pubStep_eq_some hstep
  cases op with
  | call op =>
    obtain ⟨hz, hno⟩ := hsafe
    rcases perform_owned hg ho hz hlegal hperf with ⟨⟨handle, hop, -, o, ho'⟩, -, -⟩ | ⟨hdevs, ⟨L', ho'⟩, -⟩
    · exact absurd rfl (hno handle hop _ ho')
    · exact ⟨hdevs, L', ho'.mono (fun _ => ⟨trivial, hbuf⟩) id⟩
  | objectOpen ndx obj =>
    obtain ⟨⟨err₁, fs'⟩, hrun, hres⟩ := bind_eq_ok hperf
    cases hres
    have hsame : fs' = s.fs := objectOpen_same h hslab hn ho hx hlb hlegal hsafe hrun
    rw [hsame]
    exact ⟨⟨rfl, rfl⟩, L, ho⟩
  | sync =>
    obtain ⟨⟨err₁, fs'⟩, hrun, hres⟩ := bind_eq_ok hperf
    cases hres
    have hf := flush_flushed hrun
    exact ⟨hf.devs, L, ho.flushed hf⟩

end Keep

/-! ## Whole runs -/

/-- every slab of the free queue is stale, and can be acquired for objects of any size that fits -/
structure FreeReady (fs : Flexalloc) : Prop where
  stale : ∃ free, Queue fs.slabs.headers fs.slabs.fslabHead fs.slabs.fslabTail free ∧
    ∀ x ∈ free, (fs.cache x).state = .stale
  acquire : ∀ (env : Env) objNlb, env.bufAlloc → FitsSlab fs.vol objNlb → fs.slabs.fslabNum ≠ 0 →
    ∃ slab fs', flaAcquireSlab env fs objNlb = .ok (0, slab, fs')

theorem Owned.freeReady {v : Volume} {sharp : Prop} {s : Sys} {L : Option SlabKind → List ℕ} (hg : VolOk v)
    (ho : Owned v True sharp s L) : FreeReady s.fs := by
  refine ⟨⟨L none, ho.chains.queue, fun x hx => ho.free_stale hx⟩, fun env objNlb hbuf hfits hnum => ?_⟩
  obtain ⟨n, hcalc, hpos⟩ := fitsSlab_iff.1 hfits
  have hlen := ho.num trivial
  cases hF : L none with
  | nil =>
    rw [hF] at hlen
    exact absurd hlen hnum
  | cons x l =>
    obtain ⟨hd, head, tail, fs₁, -, -, -, hrun⟩ := acquireSlab_some hg ho hF hnum env hcalc (by omega)
    rw [if_pos hbuf] at hrun
    exact ⟨x, fs₁, hrun⟩

/-- **Free slabs can be acquired**, in every state reached by calls with memory that create objects through pool 0, do
not destroy a pool under its objects, and open no object of a slab out of the cache whose blocks on the device start with
the number of objects of the pool; with slab ids below `FLA_LINKED_LIST_NULL`. Commands of the device may fail. -/
theorem free_slabs_ready {dev mdDev : Dev} {hasMd : Bool} {npools slabNlb : ℕ} {geo : Geo} {fs : Flexalloc}
    (hm : Mounted dev mdDev hasMd npools slabNlb geo fs) (hn : geo.nslabs ≤ flaLinkedListNull)
    {calls : List (Env × PubOp)} (henv : ∀ x ∈ calls, x.1.bufAlloc ∧ x.1.RangesExact fs.mdHome) {s : Sys}
    (hrun : run (guard (fun s x => FreeSafe s x.2) pubStep) ⟨fs, []⟩ calls = some s) : FreeReady s.fs := by
  have hg := volOk_of_accepted hm.accepted hm.slabNlb_lt hn
  have hlb : fs.mdHome.lbNbytes = geo.lbNbytes := by
    obtain ⟨-, -, _, _, _, -, -, -, -, -, -, -, hmk⟩ := mkfsGeoCalc_accepts hm.accepted
    rw [Flexalloc.mdHome, hm.devs.1, hm.devs.2, hmk]
    split_ifs
    · exact hm.same_lb
    · rfl
  have hhome : ∀ t : Flexalloc, t.vol = fs.vol → SameDevs fs t → t.mdHome = fs.mdHome := fun t hvol hdevs => by
    rw [Flexalloc.mdHome, Flexalloc.mdHome, hvol, hdevs.1, hdevs.2]
  have hinv : SameDevs fs s.fs ∧ ∃ L, Owned (.formatted dev hasMd geo) True False s L := by
    refine run_inv_visited (P := fun s => SameDevs fs s.fs ∧ ∃ L, Owned (.formatted dev hasMd geo) True False s L)
      (Q := fun _ => True) (fun s x t hs _ hx hstep => ?_)
      ⟨⟨rfl, rfl⟩, _, (fresh_owned (s := ⟨fs, []⟩) hg hm.fresh rfl).mono id False.elim⟩ henv (fun _ _ _ _ => trivial) hrun
    obtain ⟨hdevs, L, ho⟩ := hs
    obtain ⟨hsafe, hst⟩ := guard_eq_some hstep
    have hh := hhome s.fs (ho.vol.trans hm.fresh.vol.symm) hdevs
    obtain ⟨hdevs', ho'⟩ := pubStep_owned hm.accepted hm.slabNlb_lt hn ho hx.1 (hh ▸ hx.2) (hh ▸ hlb) hsafe hst
    exact ⟨⟨hdevs'.1.trans hdevs.1, hdevs'.2.trans hdevs.2⟩, ho'⟩
  obtain ⟨-, L, ho⟩ := hinv
  exact ho.freeReady hg

/-- an object is created, synced, opened and destroyed -/
theorem free_slabs_ready_small : ∃ s, run (guard (fun s x => FreeSafe s x.2) pubStep) (.init smallDev smallGeo 0)
    ([.call (.poolCreate (smallArg 97 1)), .call (.objectCreate 0), .sync, .objectOpen 0 ⟨0, 0⟩,
      .call (.objectDestroy 0 ⟨0, 0⟩)].map (Env.reliable, ·)) = some s ∧ s.fs.slabs.fslabNum = 6 ∧ FreeReady s.fs := by
  obtain ⟨s, hs, hnum⟩ := Option.map_eq_some_iff.1 (show (run (guard (fun s x => FreeSafe s x.2) pubStep)
    (.init smallDev smallGeo 0) ([.call (.poolCreate (smallArg 97 1)), .call (.objectCreate 0), .sync,
      .objectOpen 0 ⟨0, 0⟩, .call (.objectDestroy 0 ⟨0, 0⟩)].map (Env.reliable, ·))).map (·.fs.slabs.fslabNum) = some 6 by
    decide +kernel)
  refine ⟨s, hs, hnum, free_slabs_ready small_mounted (by decide +kernel) (fun x hx => ?_) hs⟩
  obtain ⟨op, -, rfl⟩ := List.mem_map.1 hx
  exact ⟨rfl, reliable_rangesExact _⟩

/-- a pool with one object is synced and destroyed, a pool of the same object size takes its index, the old object is
opened, and the slabs before the old one are used up -/
def revivingCalls : List PubOp :=
  [.call (.poolCreate (smallArg 97 7)), .call (.objectCreate 0), .sync, .call (.objectDestroy 0 ⟨0, 0⟩),
    .call (.poolDestroy ⟨97, 0⟩), .call (.poolCreate (smallArg 97 7)), .objectOpen 0 ⟨0, 0⟩] ++
    List.replicate 6 (.call (.objectCreate 0))

/-- Opening an object that is gone loads the freelist that a sync left, for a slab that is free: when it is its turn
`fla_acquire_slab` is refused although the free count is 1. -/
theorem open_revives_free_slab : ∃ s, run pubStep (.init smallDev smallGeo 0)
      (revivingCalls.map (Env.reliable, ·)) = some s ∧ s.fs.slabs.fslabNum = 1 ∧ s.fs.slabs.fslabHead = 0 ∧
    (s.fs.cache 0).state = .clean ∧ FitsSlab s.fs.vol 7 ∧ ¬ FreeReady s.fs := by
  obtain ⟨s, hs, hval⟩ := Option.map_eq_some_iff.1 (show (run pubStep (.init smallDev smallGeo 0)
      (revivingCalls.map (Env.reliable, ·))).map
    (fun s => (s.fs.slabs.fslabNum, s.fs.slabs.fslabHead, (s.fs.cache 0).state, decide (FitsSlab s.fs.vol 7),
      (flaAcquireSlab .reliable s.fs 7).toOption.map (·.1))) =
    some (1, 0, .clean, true, some flaSlabCacheInvalidState) by decide +kernel)
  simp only [Prod.mk.injEq, decide_eq_true_eq] at hval
  obtain ⟨hnum, hhead, hclean, hfits, hacq⟩ := hval
  refine ⟨s, hs, hnum, hhead, hclean, hfits, fun hready => ?_⟩
  obtain ⟨slab, fs', hrun⟩ := hready.acquire .reliable 7 rfl hfits (by rw [hnum]; decide)
  rw [hrun] at hacq
  have hzero : (0 : ℤ) = flaSlabCacheInvalidState := Option.some.inj hacq
  exact absurd hzero (by decide)

end FlexAlloc
