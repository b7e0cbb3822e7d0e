/-
Striped pools, and why there are none.

A pool is asked to be striped by the flag `FLA_POOL_ENTRY_STRP` and the stripe values of the create. The flag is the
first constant of its enumeration, 0; the flags of the arguments are never stored in the entry; and read and write test
`flags && FLA_POOL_ENTRY_STRP`. `Acts k` says that a pool behaves as if its objects were stripes over `k` entries.

- `baseStep_noStripes`: in every system reached by calls, flushes and reopens every pool is dispatched to the
  functions for pools that are not striped.
- `never_striped`: a create that asks for stripes records nothing of them, and the pool behaves as one without: every
  object takes one entry, ends one object after its start and is read and written sequentially. `asked_for_two`: a pool
  asked to stripe over two entries.
-/
import FlexAlloc.Daemon
import FlexAlloc.Effects
import FlexAlloc.FreeSlabs
import FlexAlloc.ObjectData
import FlexAlloc.Open

namespace FlexAlloc

open FlexAlloc.Core Function

/-! ## What stays as it is -/

/-- numbers of objects that fit a `uint32_t`, in the pool entries and in the cache -/
structure NobjFits (fs : Flexalloc) : Prop where
  slab : fs.geo.slabNlb < 2 ^ 32
  entry : ∀ i, (fs.pools.entries i).slabNobj < 2 ^ 32
  cached : ∀ s buf, (fs.cache s).freelist = some buf → buf.flist.len < 2 ^ 32

/-- a dispatch entry is as before or set to the default functions, stripe values are as before -/
structure Plain (fs fs' : Flexalloc) : Prop where
  funcs : ∀ i, fs'.pools.entrieFuncs i = fs.pools.entrieFuncs i ∨ fs'.pools.entrieFuncs i = some .dflt
  strp : ∀ i, (fs'.pools.entries i).strpNobjs = (fs.pools.entries i).strpNobjs ∧
    (fs'.pools.entries i).strpNbytes = (fs.pools.entries i).strpNbytes
  fits : NobjFits fs → NobjFits fs'

theorem Plain.refl (fs : Flexalloc) : Plain fs fs := ⟨fun _ => .inl rfl, fun _ => ⟨rfl, rfl⟩, id⟩

theorem Plain.trans {a b c : Flexalloc} (h : Plain a b) (h' : Plain b c) : Plain a c := by
  refine ⟨fun i => ?_, fun i => ?_, fun hf => h'.fits (h.fits hf)⟩
  · rcases h'.funcs i with heq | hd
    · rw [heq]
      exact h.funcs i
    · exact .inr hd
  · exact ⟨(h'.strp i).1.trans (h.strp i).1, (h'.strp i).2.trans (h.strp i).2⟩

section Plain

variable {P : ℕ → Prop} {fs fs' : Flexalloc}

theorem plain_of_eq (hvol : fs'.vol = fs.vol) (hfuncs : fs'.pools.entrieFuncs = fs.pools.entrieFuncs)
    (hentries : fs'.pools.entries = fs.pools.entries) (hcache : ∀ s, (fs'.cache s).freelist = (fs.cache s).freelist) :
    Plain fs fs' := by
  refine ⟨fun i => .inl (by rw [hfuncs]), fun i => by rw [hentries]; exact ⟨rfl, rfl⟩, fun hf => ⟨?_, fun i => ?_, ?_⟩⟩
  · rw [Flexalloc.geo, hvol]
    exact hf.slab
  · rw [hentries]
    exact hf.entry i
  · intro s buf hbuf
    rw [hcache] at hbuf
    exact hf.cached s buf hbuf

theorem plain_setEntry (fs : Flexalloc) (ndx : ℕ) {e : PoolEntry}
    (hstrp : e.strpNobjs = (fs.pools.entries ndx).strpNobjs ∧ e.strpNbytes = (fs.pools.entries ndx).strpNbytes)
    (hnobj : NobjFits fs → e.slabNobj < 2 ^ 32) : Plain fs (fs.setEntry ndx e) := by
  refine ⟨fun _ => .inl rfl, fun i => ?_, fun hf => ⟨hf.slab, fun i => ?_, hf.cached⟩⟩
  · show (update fs.pools.entries ndx e i).strpNobjs = _ ∧ (update fs.pools.entries ndx e i).strpNbytes = _
    by_cases hi : i = ndx
    · rw [hi, update_self]
      exact hstrp
    · rw [update_of_ne hi]
      exact ⟨rfl, rfl⟩
  · show (update fs.pools.entries ndx e i).slabNobj < 2 ^ 32
    by_cases hi : i = ndx
    · rw [hi, update_self]
      exact hnobj hf
    · rw [update_of_ne hi]
      exact hf.entry i

theorem plain_setElem {s : ℕ} {e : CacheElem} (he : ∀ buf, e.freelist = some buf → KnownLen fs s buf.flist.len) :
    Plain fs (fs.setElem s e) := by
  refine ⟨fun _ => .inl rfl, fun _ => ⟨rfl, rfl⟩, fun hf => ⟨hf.slab, hf.entry, fun t buf hbuf => ?_⟩⟩
  by_cases ht : t = s
  · rw [ht, Flexalloc.setElem_self] at hbuf
    obtain ⟨old, hold, hlen⟩ | ⟨objNlb, hcalc⟩ | ⟨i, hlen⟩ := he buf hbuf
    · rw [← hlen]
      exact hf.cached s old hold
    · exact (calcObjs_le hcalc).trans_lt hf.slab
    · rw [hlen]
      exact hf.entry i
  · rw [Flexalloc.setElem_ne ht] at hbuf
    exact hf.cached t buf hbuf

theorem Effect.plain (h : Effect P fs fs') : Plain fs fs' := by
  cases h with
  | list ndx k hd v _ _ =>
    have hset : Plain fs (fs.setEntry ndx ((fs.pools.entries ndx).setHead k v)) :=
      plain_setEntry fs ndx (by cases k <;> exact ⟨rfl, rfl⟩) fun hf => by cases k <;> exact hf.entry ndx
    exact hset.trans (plain_of_eq rfl rfl rfl fun _ => rfl)
  | queue hd num head tail _ _ _ _ => exact plain_of_eq rfl rfl rfl fun _ => rfl
  | format s => exact plain_of_eq rfl rfl rfl fun _ => rfl
  | count s n _ => exact plain_of_eq rfl rfl rfl fun _ => rfl
  | elem s e he => exact plain_setElem he
  | root ndx v => exact plain_setEntry fs ndx ⟨rfl, rfl⟩ fun hf => hf.entry ndx
  | flist fl _ => exact plain_of_eq rfl rfl rfl fun _ => rfl
  | htbl t _ => exact plain_of_eq rfl rfl rfl fun _ => rfl
  | dispatch ndx =>
    rw [initializeEntrieFunc_eq]
    refine ⟨fun i => ?_, fun _ => ⟨rfl, rfl⟩, fun hf => ⟨hf.slab, hf.entry, hf.cached⟩⟩
    show update fs.pools.entrieFuncs ndx (some .dflt) i = _ ∨ update fs.pools.entrieFuncs ndx (some .dflt) i = _
    by_cases hi : i = ndx
    · rw [hi, update_self]
      exact .inr rfl
    · rw [update_of_ne hi]
      exact .inl rfl
  | entry ndx e arg n hcalc he =>
    obtain ⟨name, -, he⟩ := bind_eq_ok he
    cases he
    exact plain_setEntry fs ndx ⟨rfl, rfl⟩ fun hf => (calcObjs_le hcalc).trans_lt hf.slab
  | flushed _ h =>
    obtain ⟨m, hp⟩ := h.pools
    exact plain_of_eq h.vol (by rw [hp]) (by rw [hp]) h.flist

/-- **No call makes a striped pool.** -/
theorem Effects.plain (h : Effects P fs fs') : Plain fs fs' :=
  h.inv (I := Plain fs) (fun _ _ he hp => hp.trans he.plain) (.refl fs)

end Plain

/-! ## Runs -/

/-- a call of the library, or the device opened again as it stands -/
inductive BaseOp where
  | call (c : Call)
  | reopen
deriving DecidableEq, Repr

def baseStep (fs : Flexalloc) (x : Env × BaseOp) : Option Flexalloc :=
  match x.2 with
  | .call c => (baseCall x.1 fs c).toOption.map (·.2)
  | .reopen => (flaOpen x.1 fs.dev fs.mdDev fs.vol.hasMd fs.disk fs.mdDisk).toOption.bind (·.2)

/-- no pool is dispatched to the functions for striped pools -/
structure NoStripes (fs : Flexalloc) : Prop where
  funcs : ∀ i f, fs.pools.entrieFuncs i = some f → f = .dflt
  fits : NobjFits fs

section Runs

variable {env : Env} {fs fs' : Flexalloc}

theorem NoStripes.plain (hn : NoStripes fs) (h : Plain fs fs') : NoStripes fs' := by
  refine ⟨fun i f hf => ?_, h.fits hn.fits⟩
  rcases h.funcs i with hi | hi
  · exact hn.funcs i f (hi ▸ hf)
  · rw [hi] at hf
    exact (Option.some.inj hf).symm

theorem baseCall_effects {P : ℕ → Prop} (hl : LinksIn P fs) {c : Call} {res : Res}
    (h : baseCall env fs c = .ok (res, fs')) : Effects P fs fs' := by
  cases c with
  | sync =>
    obtain ⟨⟨err, fs₁⟩, hrun, h⟩ := bind_eq_ok h
    cases h
    exact flush_effects hrun
  | poolOpen name =>
    obtain ⟨⟨err, handle⟩, -, h⟩ := bind_eq_ok h
    cases h
    exact .refl
  | poolCreate arg =>
    obtain ⟨⟨err, handle, fs₁⟩, hrun, h⟩ := bind_eq_ok h
    cases h
    exact poolCreate_effects hrun
  | poolDestroy handle =>
    obtain ⟨⟨err, fs₁⟩, hrun, h⟩ := bind_eq_ok h
    cases h
    exact poolDestroy_effects hl hrun
  | objectOpen pool obj =>
    obtain ⟨⟨err, fs₁⟩, hrun, h⟩ := bind_eq_ok h
    cases h
    exact objectOpen_effects hrun
  | objectCreate pool =>
    obtain ⟨⟨err, obj, fs₁⟩, hrun, h⟩ := bind_eq_ok h
    cases h
    exact objectCreate_effects hl hrun
  | objectDestroy pool obj =>
    obtain ⟨⟨err, fs₁⟩, hrun, h⟩ := bind_eq_ok h
    cases h
    exact objectDestroy_effects hl hrun
  | poolSetRootObject pool obj act =>
    obtain ⟨⟨err, fs₁⟩, hrun, h⟩ := bind_eq_ok h
    cases h
    exact setRootObject_effects hrun
  | poolGetRootObject pool =>
    obtain ⟨⟨err, hndl⟩, -, h⟩ := bind_eq_ok h
    cases h
    exact .refl

/-- whatever the device holds, a system that opens has no striped pool -/
theorem open_noStripes {dev mdDev : Dev} {hasMd : Bool} {disk mdDisk : Bytes} {err : ℤ}
    (h : flaOpen env dev mdDev hasMd disk mdDisk = .ok (err, some fs)) : NoStripes fs := by
  obtain ⟨super, b, hsuper, -, hinit⟩ := open_inv h
  obtain ⟨-, hpools, -, hvol, -, -, hcache⟩ := init_inv hinit
  have hslab : fs.geo.slabNlb < 2 ^ 32 := by
    obtain ⟨⟨err₁, b'⟩, -, hs⟩ := bind_eq_ok hsuper
    obtain ⟨-, rfl⟩ := Prod.mk.inj (Except.ok.inj hs)
    rw [Flexalloc.geo, hvol]
    exact (leNat_lt b' 12 4).trans_eq (by norm_num)
  refine ⟨fun i f hf => ?_, hslab, fun i => ?_, fun s buf hbuf => ?_⟩
  · rw [poolInit_eq hpools] at hf
    dsimp only at hf
    split_ifs at hf
    exact (Option.some.inj hf).symm
  · rw [poolInit_eq hpools, poolsAt]
    dsimp only
    split_ifs
    · exact (leNat_lt b _ 4).trans_eq (by norm_num)
    · exact Nat.two_pow_pos 32
  · rw [hcache s] at hbuf
    cases hbuf

/-- **Each step keeps every pool unstriped.** -/
theorem baseStep_noStripes (hn : NoStripes fs) {x : Env × BaseOp} (h : baseStep fs x = some fs') : NoStripes fs' := by
  obtain ⟨env, op⟩ := x
  cases op with
  | call c =>
    obtain ⟨⟨res, fs₁⟩, hrun, rfl⟩ := Option.map_eq_some_iff.1 h
    exact hn.plain (baseCall_effects (linksIn_true fs) (toOption_eq_some hrun)).plain
  | reopen =>
    obtain ⟨⟨err, r⟩, hrun, h⟩ := Option.bind_eq_some_iff.1 h
    obtain rfl : r = some fs' := h
    exact open_noStripes (toOption_eq_some hrun)

theorem Mounted.noStripes {dev mdDev : Dev} {hasMd : Bool} {npools slabNlb : ℕ} {geo : Geo}
    (hm : Mounted dev mdDev hasMd npools slabNlb geo fs) : NoStripes fs := by
  obtain ⟨-, -, a, p, n, -, -, -, -, -, -, -, rfl⟩ := mkfsGeoCalc_accepts hm.accepted
  refine ⟨fun i f hf => ?_, ?_, fun i => ?_, fun s buf hbuf => ?_⟩
  · rw [hm.fresh.pools] at hf
    cases hf
  · rw [Flexalloc.geo, hm.fresh.vol]
    exact hm.slabNlb_lt
  · rw [hm.fresh.pools]
    exact Nat.two_pow_pos 32
  · rw [hm.fresh.cache s] at hbuf
    cases hbuf

end Runs

/-! ## What a pool does with its objects -/

/-- the entries `first`, .., `first + k - 1` -/
def InRow (first k j : ℕ) : Prop := first ≤ j ∧ j < first + k

instance (first k j : ℕ) : Decidable (InRow first k j) := inferInstanceAs (Decidable (_ ∧ _))

/-- a create took `k` entries in a row, all of them free, of the freelist it found or loaded in the cache, and counted
them -/
def TookRow (k : ℕ) (env : Env) (fs : Flexalloc) (ndx : ℕ) (obj : Obj) (fs' : Flexalloc) : Prop :=
  ∃ fs₁ err fs₂ buf buf', flaPoolNextAvailableSlab env fs ndx = .ok (0, obj.slabId, fs₁) ∧
    flaSlabCacheElemLoad env fs₁ obj.slabId (fs₁.pools.entries ndx).slabNobj = .ok (err, fs₂) ∧
    (fs₂.cache obj.slabId).freelist = some buf ∧ (fs'.cache obj.slabId).freelist = some buf' ∧
    (∀ j, InRow obj.entryNdx k j → buf.flist.isFree j = true) ∧
    (∀ j, buf'.flist.isFree j = (buf.flist.isFree j && !decide (InRow obj.entryNdx k j))) ∧
    (fs'.header obj.slabId).refcount = u32 ((fs₁.header obj.slabId).refcount + k)

/-- a destroy gave back `k` entries in a row and counted them off -/
def GaveRow (k : ℕ) (fs : Flexalloc) (obj : Obj) (fs' : Flexalloc) : Prop :=
  ∃ buf buf', (fs.cache obj.slabId).freelist = some buf ∧ (fs'.cache obj.slabId).freelist = some buf' ∧
    (∀ j, buf'.flist.isFree j = (buf.flist.isFree j || decide (InRow obj.entryNdx k j))) ∧
    (fs'.header obj.slabId).refcount = sub32 (fs.header obj.slabId).refcount k

/-- an object whose entry is one of the freelist in the cache -/
def CachedObj (fs : Flexalloc) (obj : Obj) : Prop :=
  ∃ buf, (fs.cache obj.slabId).freelist = some buf ∧ obj.entryNdx < buf.flist.len

/-- the pool at `ndx` treats its objects as stripes over `k` entries -/
structure Acts (k : ℕ) (fs : Flexalloc) (ndx : ℕ) : Prop where
  creates : ∀ env obj fs', flaBaseObjectCreate env fs ndx = .ok (0, some obj, fs') → TookRow k env fs ndx obj fs'
  destroys : ∀ env obj fs', CachedObj fs obj → flaBaseObjectDestroy env fs ndx obj = .ok (0, fs') → GaveRow k fs obj fs'
  /-- an object ends where the one `k` places on starts -/
  elba : ∀ obj lba, fs.objectElba ndx obj = .ok lba → fs.objectSlba ndx ⟨obj.slabId, obj.entryNdx + k⟩ = .ok lba
  /-- it is read and written in one piece exactly when it is not striped -/
  path : ∀ write obj offset len x, objectXfer fs write ndx obj offset len = .ok (some x) →
    ((∃ soffset, x = .seq soffset len) ↔ k = 1)

section Acts

variable {env : Env} {fs fs' : Flexalloc} {ndx slab : ℕ} {obj : Obj}

theorem NoStripes.fnc (hn : NoStripes fs) {i : ℕ} {f : EntryFnc} (h : fs.fncAt i = .ok f) : f = .dflt := by
  unfold Flexalloc.fncAt at h
  split_ifs at h
  split at h
  · rename_i g hg
    cases h
    exact hn.funcs i _ hg
  · cases h

/-! ### Moving a slab -/

theorem moveSlab_same {src dst : ℕ × SlabKind} {err : ℤ} (h : moveSlab fs slab src dst = (err, fs')) :
    fs'.cache = fs.cache ∧ SameMarks fs.slabs.headers fs'.slabs.headers := by
  unfold moveSlab at h
  cases hsrc : fs.onList src.1 src.2 fun hd head => flaHdllRemove fs.nslabs hd slab head with
  | mk err₁ fs₁ =>
    rw [hsrc] at h
    dsimp only at h
    obtain ⟨hd, head, hrun, rfl⟩ := onList_inv hsrc
    have hm := (hdllRemove_relinked (P := fun _ => True) trivial trivial hrun).1.marks
    split_ifs at h
    · cases h
      exact ⟨rfl, hm⟩
    · obtain ⟨hd', head', hrun', rfl⟩ := onList_inv h
      exact ⟨rfl, hm.trans (hdllPrepend_relinked (P := fun _ => True) (fun _ _ => trivial) trivial hrun').1.marks⟩

/-! ### Every pool acts as if its objects were single entries -/

theorem inRow_one {first j : ℕ} : InRow first 1 j ↔ j = first := by
  unfold InRow
  omega

theorem objAlloc_took (hf : NobjFits fs) (h : flaSlabCacheObjAlloc fs slab 1 = .ok (0, some obj, fs')) :
    obj.slabId = slab ∧ ∃ buf fl, (fs.cache slab).freelist = some buf ∧ takeEntry buf.flist = some (obj.entryNdx, fl) ∧
      fs' = fs.setElem slab ⟨.dirty, some { buf with flist := fl }⟩ := by
  by_cases hst : (fs.cache slab).state = .stale
  · rw [flaSlabCacheObjAlloc, if_pos hst] at h
    cases h
  cases hbuf : (fs.cache slab).freelist with
  | none =>
    rw [flaSlabCacheObjAlloc, if_neg hst, hbuf] at h
    cases h
  | some buf =>
    cases htake : takeEntry buf.flist with
    | none =>
      rw [objAlloc_none hst hbuf htake] at h
      cases h
    | some r =>
      obtain ⟨i, fl⟩ := r
      -- the index fits a `uint32_t`; past 2^31 the call would have failed
      have hwords := takeEntry_lt_words htake
      have hpad := u32Elems_mul buf.flist.len
      have hlen := hf.cached slab buf hbuf
      have hi : i < 2 ^ 32 := by omega
      by_cases hwide : 2 ^ 31 ≤ i
      · rw [objAlloc_wide hst hbuf htake hwide hi] at h
        cases h
      · rw [objAlloc_spec hst hbuf htake (not_le.1 hwide)] at h
        cases h
        exact ⟨rfl, buf, fl, rfl, htake, rfl⟩

theorem nextAvailableObj_took (hn : NoStripes fs) (h : flaSlabNextAvailableObj fs slab 1 = .ok (0, some obj, fs')) :
    obj.slabId = slab ∧ ∃ buf fl, (fs.cache slab).freelist = some buf ∧ takeEntry buf.flist = some (obj.entryNdx, fl) ∧
      (fs'.cache slab).freelist = some { buf with flist := fl } ∧
      (fs'.header slab).refcount = u32 ((fs.header slab).refcount + 1) := by
  unfold flaSlabNextAvailableObj at h
  split_ifs at h
  · cases h
  cases halloc : flaSlabCacheObjAlloc fs slab 1 with
  | error f =>
    rw [halloc] at h
    cases h
  | ok r =>
    obtain ⟨err₁, obj₁, fs₁⟩ := r
    rw [halloc] at h
    dsimp only at h
    split_ifs at h with herr
    · cases h
      exact absurd rfl herr
    split at h
    · rename_i e fnc hent hfnc
      cases h
      obtain rfl := not_ne_iff.1 herr
      obtain ⟨hslab, buf, fl, hbuf, htake, rfl⟩ := objAlloc_took hn.fits halloc
      obtain rfl := (hn.plain (objAlloc_effects (P := fun _ => True) halloc).plain).fnc hfnc
      refine ⟨hslab, buf, fl, hbuf, htake, ?_, ?_⟩
      · show (update fs.cache slab _ slab).freelist = _
        rw [update_self]
      · show (update fs.slabs.headers slab _ slab).refcount = _
        rw [update_self]
        rfl
    · cases h
    · cases h

theorem NoStripes.creates (hn : NoStripes fs) (h : flaBaseObjectCreate env fs ndx = .ok (0, some obj, fs')) :
    TookRow 1 env fs ndx obj fs' := by
  obtain ⟨e, -, h⟩ := bind_eq_ok h
  obtain ⟨⟨err₁, slab, fs₁⟩, hnext, h⟩ := bind_eq_ok h
  dsimp only at h
  split_ifs at h with herr₁
  · cases h
  have hn₁ := hn.plain (nextAvailableSlab_effects (linksIn_true fs) hnext).plain
  unfold objectCreateIn at h
  split_ifs at h
  · cases h
  obtain ⟨⟨err₂, fs₂⟩, hload, h⟩ := bind_eq_ok h
  have hn₂ := hn₁.plain (elemLoad_effects (P := fun _ => True) hload).plain
  have hheader : fs₂.header slab = fs₁.header slab := by
    obtain ⟨rfl, -⟩ | ⟨-, -, -, -, buf, -, -, rfl⟩ := elemLoad_inv hload
    · rfl
    · rfl
  dsimp only at h
  split_ifs at h
  · cases h
  obtain ⟨src, -, h⟩ := bind_eq_ok h
  obtain ⟨fnc, hfnc, h⟩ := bind_eq_ok h
  obtain rfl := hn₂.fnc hfnc
  obtain ⟨⟨err₃, obj₃, fs₃⟩, hobj, h⟩ := bind_eq_ok h
  dsimp only at h
  split_ifs at h with herr₃
  · cases h
    exact absurd rfl herr₃
  obtain rfl := not_ne_iff.1 herr₃
  obtain ⟨dst, -, h⟩ := bind_eq_ok h
  -- what is left is at most a move between lists
  have hmove : obj₃ = some obj ∧ fs'.cache = fs₃.cache ∧ SameMarks fs₃.slabs.headers fs'.slabs.headers := by
    split_ifs at h
    · cases h
      exact ⟨rfl, rfl, fun _ => ⟨rfl, rfl⟩⟩
    · cases hm : moveSlab fs₃ slab src dst with
      | mk err₄ fs₄ =>
        rw [hm] at h
        cases h
        exact ⟨rfl, moveSlab_same hm⟩
  obtain ⟨rfl, hcache, hmarks⟩ := hmove
  obtain ⟨rfl, buf, fl, hbuf, htake, hbuf', hcount⟩ := nextAvailableObj_took hn₂ hobj
  obtain ⟨hfree, -, -, hrest⟩ := takeEntry_some htake
  obtain rfl := not_ne_iff.1 herr₁
  refine ⟨fs₁, err₂, fs₂, buf, { buf with flist := fl }, hnext, hload, hbuf, ?_, fun j hj => ?_, fun j => ?_, ?_⟩
  · rw [hcache, hbuf']
  · rw [inRow_one.1 hj]
    exact hfree
  · rw [hrest j]
    simp [inRow_one]
  · rw [← hheader, ← hcount]
    exact (hmarks _).2

theorem NoStripes.destroys (hn : NoStripes fs) (hobj : CachedObj fs obj)
    (h : flaBaseObjectDestroy env fs ndx obj = .ok (0, fs')) : GaveRow 1 fs obj fs' := by
  obtain ⟨buf, hbuf, hlt⟩ := hobj
  obtain ⟨err₁, -, h⟩ := bind_eq_ok h
  split_ifs at h with herr₁
  · cases h
    exact absurd rfl herr₁
  · cases h
  obtain ⟨src, -, h⟩ := bind_eq_ok h
  obtain ⟨fnc, hfnc, h⟩ := bind_eq_ok h
  obtain rfl := hn.fnc hfnc
  obtain ⟨n, hn', h⟩ := bind_eq_ok h
  obtain rfl : n = 1 := numFlaObjsAt_eq hn'
  obtain ⟨⟨err₂, fs₂⟩, hfree, h⟩ := bind_eq_ok h
  dsimp only at h
  split_ifs at h with herr₂
  · cases h
    exact absurd rfl herr₂
  obtain rfl := not_ne_iff.1 herr₂
  by_cases hst : (fs.cache obj.slabId).state = .stale
  · rw [flaSlabCacheObjFree, if_pos hst] at hfree
    cases hfree
  have hlen := hn.fits.cached _ buf hbuf
  obtain ⟨fl, hspec, -, hrest⟩ := objFree_spec hst hbuf hlt (hlt.trans hlen)
  obtain rfl : fs₂ = fs.setElem obj.slabId ⟨.dirty, some { buf with flist := fl }⟩ :=
    (Prod.mk.inj (Except.ok.inj (hfree.symm.trans hspec))).2
  obtain ⟨dst, -, h⟩ := bind_eq_ok h
  obtain ⟨hcache, hmarks⟩ := moveSlab_same (Except.ok.inj h)
  refine ⟨buf, { buf with flist := fl }, hbuf, ?_, fun j => ?_, ?_⟩
  · rw [hcache]
    show (update fs.cache obj.slabId _ obj.slabId).freelist = _
    rw [update_self]
  · rw [hrest j]
    simp [inRow_one]
  · rw [Flexalloc.header, (hmarks _).2]
    show (update fs.slabs.headers obj.slabId _ obj.slabId).refcount = _
    rw [update_self]
    rfl

/-- **Every pool acts as if its objects were single entries.** -/
theorem NoStripes.acts (hn : NoStripes fs) (ndx : ℕ) : Acts 1 fs ndx where
  creates _ _ _ h := hn.creates h
  destroys _ _ _ hobj h := hn.destroys hobj h
  elba obj lba h := by
    obtain ⟨e, he, h⟩ := bind_eq_ok h
    obtain ⟨fnc, hfnc, h⟩ := bind_eq_ok h
    obtain rfl := hn.fnc hfnc
    have hmod : u32 (e.objNlb * u32 (obj.entryNdx + 1)) = u32 (e.objNlb * (obj.entryNdx + 1)) := Nat.mul_mod_mod _ _ _
    cases h
    rw [Flexalloc.objectSlba, he, ok_bind, flaObjectSlba, ← hmod]
    rfl
  path _ _ _ _ _ h := iff_of_true (objectXfer_seq h) rfl

end Acts

/-! ## Asking for stripes -/

/-- arguments that ask for stripes over at least two entries, with `FLA_POOL_ENTRY_STRP` among the flags -/
def PoolCreateArg.Striping (arg : PoolCreateArg) : Prop :=
  2 ≤ arg.strpNobjs ∧ 0 < arg.strpNbytes ∧ arg.flags &&& flaPoolEntryStrp = flaPoolEntryStrp

instance (arg : PoolCreateArg) : Decidable arg.Striping := inferInstanceAs (Decidable (_ ∧ _ ∧ _))

/-- a create that finds no pool of the name and makes one -/
def NewPool (env : Env) (fs : Flexalloc) (arg : PoolCreateArg) (handle : PoolHandle) (fs' : Flexalloc) : Prop :=
  flaBasePoolOpen env fs arg.name = .ok (-1, none) ∧ flaBasePoolCreate env fs arg = .ok (0, some handle, fs')

/-- the pool at `ndx` is striped over `k` entries in chunks of `nbytes` bytes: its entry says so, its objects are treated
so, and read and write take the branch for stripes -/
structure StripedBy (k nbytes : ℕ) (fs : Flexalloc) (ndx : ℕ) : Prop where
  recorded : (fs.pools.entries ndx).strpNobjs = k ∧ (fs.pools.entries ndx).strpNbytes = nbytes
  acts : Acts k fs ndx
  branch : (fs.pools.entries ndx).flags ≠ 0 ∧ flaPoolEntryStrp ≠ 0

/-- **No pool is ever striped.** In every system reached from a formatted one by calls, flushes and reopens, every pool
treats its objects as single entries; a create that asks for stripes leaves the stripe values of all entries as they
were, and neither right after it nor later, before or after a flush and a reopen, is the new pool striped. -/
theorem never_striped {dev mdDev : Dev} {hasMd : Bool} {npools slabNlb : ℕ} {geo : Geo} {fs₀ fs : Flexalloc}
    (hm : Mounted dev mdDev hasMd npools slabNlb geo fs₀) {calls : List (Env × BaseOp)}
    (h : run baseStep fs₀ calls = some fs) :
    (∀ ndx, Acts 1 fs ndx) ∧ ∀ arg : PoolCreateArg, arg.Striping → ∀ env handle fs₁, NewPool env fs arg handle fs₁ →
      (∀ i, (fs₁.pools.entries i).strpNobjs = (fs.pools.entries i).strpNobjs ∧
        (fs₁.pools.entries i).strpNbytes = (fs.pools.entries i).strpNbytes) ∧
      ∀ later fs₂, run baseStep fs₁ later = some fs₂ →
        Acts 1 fs₂ handle.ndx ∧ ¬ StripedBy arg.strpNobjs arg.strpNbytes fs₂ handle.ndx := by
  have hn : NoStripes fs := run_inv (fun _ _ _ hn hs => baseStep_noStripes hn hs) hm.noStripes h
  refine ⟨hn.acts, fun arg _ env handle fs₁ hnew => ?_⟩
  have hplain := (poolCreate_effects (P := fun _ => True) hnew.2).plain
  refine ⟨hplain.strp, fun later fs₂ hlater => ?_⟩
  have hn₂ : NoStripes fs₂ := run_inv (fun _ _ _ hn hs => baseStep_noStripes hn hs) (hn.plain hplain) hlater
  exact ⟨hn₂.acts _, fun hs => hs.branch.2 rfl⟩

/-- a pool asked to stripe over two entries, in chunks of a block -/
def twoArg : PoolCreateArg := ⟨flaPoolEntryStrp, [97], 1, 1, 2, 512⟩

theorem twoArg_striping : twoArg.Striping := by decide

/-- an object, a flush, a reopen and another object -/
def twoCalls : List (Env × BaseOp) :=
  [.call (.objectCreate ⟨0, 0⟩), .call .sync, .reopen, .call (.objectCreate ⟨0, 0⟩)].map (Env.reliable, ·)

/-- a pool is asked to stripe over two entries, and after an object, a flush and a reopen another object is created -/
theorem never_striped_small : ∃ handle fs₁ fs₂, NewPool .reliable (flaMkfs smallDev smallGeo 0) twoArg handle fs₁ ∧
    run baseStep fs₁ twoCalls = some fs₂ ∧ Acts 1 fs₂ handle.ndx ∧ ¬ StripedBy 2 512 fs₂ handle.ndx := by
  obtain ⟨⟨err, h, fs₁⟩, hcreate, hval⟩ := Option.map_eq_some_iff.1 (show (flaBasePoolCreate .reliable
      (flaMkfs smallDev smallGeo 0) twoArg).toOption.map (fun r => (r.1, r.2.1.map (·.ndx),
        (run baseStep r.2.2 twoCalls).isSome)) = some (0, some 0, true) by decide +kernel)
  simp only [Prod.mk.injEq] at hval
  obtain ⟨rfl, hndx, hrun⟩ := hval
  obtain ⟨handle, rfl, -⟩ := Option.map_eq_some_iff.1 hndx
  obtain ⟨fs₂, hfs₂⟩ := Option.isSome_iff_exists.1 hrun
  have hnew : NewPool .reliable (flaMkfs smallDev smallGeo 0) twoArg handle fs₁ :=
    ⟨by decide +kernel, toOption_eq_some hcreate⟩
  have hnone : run baseStep (flaMkfs smallDev smallGeo 0) [] = some (flaMkfs smallDev smallGeo 0) := rfl
  obtain ⟨-, hargs⟩ := never_striped small_mounted hnone
  obtain ⟨-, hlater⟩ := hargs twoArg twoArg_striping .reliable handle fs₁ hnew
  exact ⟨handle, fs₁, fs₂, hnew, hfs₂, hlater twoCalls fs₂ hfs₂⟩

/-- The pool asked to stripe over two entries records no stripes, and its first object takes one entry. -/
theorem asked_for_two : twoArg.Striping ∧ ∃ handle fs₁ fs₂ buf,
    NewPool .reliable (flaMkfs smallDev smallGeo 0) twoArg handle fs₁ ∧ handle.ndx = 0 ∧
    (fs₁.pools.entries 0).strpNobjs = 0 ∧ flaBaseObjectCreate .reliable fs₁ 0 = .ok (0, some ⟨0, 0⟩, fs₂) ∧
    (fs₂.header 0).refcount = 1 ∧ (fs₂.cache 0).freelist = some buf ∧ buf.flist.reserved = [0] ∧
    objectXfer fs₂ true 0 ⟨0, 0⟩ 0 512 = .ok (some (.seq 2560 512)) ∧ ¬ StripedBy 2 512 fs₁ handle.ndx := by
  obtain ⟨⟨err, h, fs₁⟩, hcreate, hval⟩ := Option.map_eq_some_iff.1 (show (flaBasePoolCreate .reliable
      (flaMkfs smallDev smallGeo 0) twoArg).toOption.map (fun r => (r.1, r.2.1.map (·.ndx),
        (r.2.2.pools.entries 0).strpNobjs, (flaBaseObjectCreate .reliable r.2.2 0).toOption.map fun q =>
          decide (q.1 = 0 ∧ q.2.1 = some ⟨0, 0⟩ ∧ (q.2.2.header 0).refcount = 1 ∧
            (∃ buf ∈ (q.2.2.cache 0).freelist, buf.flist.reserved = [0]) ∧
            (objectXfer q.2.2 true 0 ⟨0, 0⟩ 0 512).toOption = some (some (.seq 2560 512))))) =
      some (0, some 0, 0, some true) by decide +kernel)
  simp only [Prod.mk.injEq] at hval
  obtain ⟨rfl, hndx, hstrp, hobj⟩ := hval
  obtain ⟨handle, rfl, hzero⟩ := Option.map_eq_some_iff.1 hndx
  obtain ⟨⟨err₂, obj, fs₂⟩, hobject, hval⟩ := Option.map_eq_some_iff.1 hobj
  obtain ⟨rfl, rfl, hcount, ⟨buf, hbuf, hres⟩, hxfer⟩ := of_decide_eq_true hval
  refine ⟨twoArg_striping, handle, fs₁, fs₂, buf, ⟨by decide +kernel, toOption_eq_some hcreate⟩, hzero, hstrp,
    toOption_eq_some hobject, hcount, hbuf, hres, toOption_eq_some hxfer, fun hs => ?_⟩
  have hrec := hs.recorded.1
  rw [hzero, hstrp] at hrec
  exact absurd hrec (by decide)

end FlexAlloc
