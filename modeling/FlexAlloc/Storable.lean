/-
What is stored: in every state a session reaches each field fits the width it is stored in.

In the source the widths are those of the types. Here fields are numbers, and that they fit has to be proved: for links,
counters, marks, keys and cached freelists from the writes that a call is made of (`Effect`), for the entries of pools
from the calls, whose arguments are held to the widths they have.

- `EntryFits.stored`, `Storable.header_stored`: what fits is read back as it was written.
- `Effect.storable`: every write keeps it.
- `InWidth.step`: every step of a session on a single device keeps it.
- `session_inWidth`: it holds in every state reached.
-/
import FlexAlloc.CacheCoherence
import FlexAlloc.Registry

namespace FlexAlloc

open FlexAlloc.Core Function

/-! ## Entries -/

/-- the fields of an entry fit, but for its heads and its number of objects, which other invariants are about -/
structure EntryFits (e : PoolEntry) : Prop where
  objNlb : e.objNlb < 2 ^ 32
  root : e.rootObjHndl < 2 ^ 64
  strp : e.strpNobjs < 2 ^ 32 ∧ e.strpNbytes < 2 ^ 32
  name : e.name.length = flaNameSizePool

section Entry

variable {e e' : PoolEntry} {arg : PoolCreateArg} {n : ℕ}

theorem entryFits_zero : EntryFits .zero :=
  ⟨Nat.two_pow_pos 32, Nat.two_pow_pos 64, ⟨Nat.two_pow_pos 32, Nat.two_pow_pos 32⟩, List.length_replicate⟩

theorem EntryFits.stored (h : EntryFits e) (hnobj : e.slabNobj < 2 ^ 32) (hheads : ∀ k, e.head k < 2 ^ 32) :
    e.stored = e := by
  have hempty : e.emptySlabs < 2 ^ 32 := hheads .empty
  have hfull : e.fullSlabs < 2 ^ 32 := hheads .full
  have hpart : e.partialSlabs < 2 ^ 32 := hheads .part
  have hname : ((List.range flaNameSizePool).map fun i => e.name.getD i 0) = e.name := by
    refine List.ext_getElem (by simp [h.name]) fun i hi hi' => ?_
    simp [List.getD_eq_getElem?_getD, List.getElem?_eq_getElem hi']
  unfold PoolEntry.stored
  rw [hname, Nat.mod_eq_of_lt hempty, Nat.mod_eq_of_lt hfull, Nat.mod_eq_of_lt hpart, Nat.mod_eq_of_lt h.objNlb,
    Nat.mod_eq_of_lt hnobj, Nat.mod_eq_of_lt h.root, Nat.mod_eq_of_lt h.strp.1, Nat.mod_eq_of_lt h.strp.2]

theorem objHndl_lt {obj : Obj} (h : obj.Fits) : objHndl obj < 2 ^ 64 := by
  obtain ⟨hslab, hentry⟩ := h
  unfold objHndl
  omega

theorem EntryFits.of_rest (h : EntryFits e) (hrest : e'.rest = e.rest) : EntryFits e' := by
  have hroot : e'.rest.rootObjHndl = e.rest.rootObjHndl := by rw [hrest]
  have hnobjs : e'.rest.strpNobjs = e.rest.strpNobjs := by rw [hrest]
  have hnbytes : e'.rest.strpNbytes = e.rest.strpNbytes := by rw [hrest]
  refine ⟨?_, ?_, ?_, ?_⟩
  · rw [objNlb_of_rest hrest]
    exact h.objNlb
  · exact hroot.trans_lt h.root
  · exact ⟨hnobjs.trans_lt h.strp.1, hnbytes.trans_lt h.strp.2⟩
  · rw [name_of_rest hrest]
    exact h.name

/-- a name that is copied does not make the field longer -/
theorem EntryFits.reset (h : EntryFits e) (harg : arg.objNlb < 2 ^ 32) (hlen : arg.nameLen < flaNameSizePool)
    (hreset : flaPoolEntryResetDefault env e arg n = .ok e') : EntryFits e' := by
  obtain ⟨name, hcopy, hreset⟩ := bind_eq_ok hreset
  cases hreset
  refine ⟨harg, show flaRootObjNone < 2 ^ 64 by decide, h.strp, ?_⟩
  unfold memcpyName at hcopy
  split_ifs at hcopy with hbad
  cases hcopy
  rw [not_or, not_lt, not_lt] at hbad
  have hname := h.name
  simp only [List.length_append, List.length_take, List.length_drop, List.length_cons]
  omega

end Entry

/-- a create leaves an entry as it is, or resets it, for a name that is not too long -/
theorem poolCreate_entry {env : Env} {fs fs' : Flexalloc} {arg : PoolCreateArg} {err : ℤ} {handle : Option PoolHandle}
    (hrun : flaBasePoolCreate env fs arg = .ok (err, handle, fs')) (i : ℕ) :
    fs'.pools.entries i = fs.pools.entries i ∨ arg.nameLen < flaNameSizePool ∧
      ∃ n, flaPoolEntryResetDefault env (fs.pools.entries i) arg n = .ok (fs'.pools.entries i) := by
  obtain ⟨opened, -, hrun⟩ := bind_eq_ok hrun
  split at hrun
  · obtain ⟨e, -, hrun⟩ := bind_eq_ok hrun
    split_ifs at hrun
    all_goals
      cases hrun
      exact .inl rfl
  by_cases hlen : (flaNameSizePool : ℤ) ≤ arg.nameLen
  · rw [if_pos hlen] at hrun
    cases hrun
    exact .inl rfl
  rw [if_neg hlen] at hrun
  obtain ⟨n, -, hrun⟩ := bind_eq_ok hrun
  dsimp only at hrun
  split_ifs at hrun
  all_goals try
    cases hrun
    exact .inl rfl
  -- the index is taken
  obtain ⟨-, -, hrun⟩ := bind_eq_ok hrun
  rw [initializeEntrieFunc_eq] at hrun
  obtain ⟨⟨err₁, t⟩, -, hrun⟩ := bind_eq_ok hrun
  dsimp only at hrun
  split_ifs at hrun
  · obtain ⟨⟨err₂, fl⟩, -, hrun⟩ := bind_eq_ok hrun
    cases hrun
    exact .inl rfl
  · obtain ⟨fnc, hfnc, hrun⟩ := bind_eq_ok hrun
    obtain rfl : fnc = .dflt := by
      unfold Flexalloc.fncAt at hfnc
      split_ifs at hfnc
      simp only [update_self, Except.ok.injEq] at hfnc
      exact hfnc.symm
    obtain ⟨e, hreset, hrun⟩ := bind_eq_ok hrun
    cases hrun
    simp only [Flexalloc.setEntry]
    by_cases hi : i = (flaFlistEntriesAlloc fs.pools.freelist 1).1.toNat
    · subst hi
      rw [update_self]
      exact .inr ⟨not_le.1 hlen, n, hreset⟩
    · rw [update_of_ne hi]
      exact .inl rfl

/-! ## Fields -/

/-- a freelist of `n` entries fits a slab -/
def Room (v : Volume) (n : ℕ) : Prop := flaSlabCacheFlistNlb v n ≤ v.geo.slabNlb

/-- every field of a system on volume `v` fits, the entries of pools apart, and every freelist fits its slab -/
structure Storable (v : Volume) (fs : Flexalloc) : Prop where
  links : LinksIn (· < 2 ^ 32) fs
  prev : ∀ s, (fs.header s).prev < 2 ^ 32
  marks : ∀ s, (fs.header s).pool < 2 ^ 64 ∧ (fs.header s).refcount < 2 ^ 32
  num : fs.slabs.fslabNum < 2 ^ 32
  keys : SlotsIn (fun e => e.h2 < 2 ^ 64) fs.pools.htbl.tblSize fs.pools.htbl.tbl
  nobj : ∀ i, Room v (fs.pools.entries i).slabNobj
  cached : ∀ s buf, (fs.cache s).freelist = some buf → Room v buf.flist.len

theorem keys_lasting : Lasting fun e => e.h2 < 2 ^ 64 :=
  ⟨fun _ _ _ h => h, fun _ _ h _ => h, fun _ _ => show flaHtblEntryUnset < 2 ^ 64 by decide⟩

theorem HtblAfter.keys {t t' : Htbl} (h : HtblAfter t t') (hk : SlotsIn (fun e => e.h2 < 2 ^ 64) t.tblSize t.tbl) :
    SlotsIn (fun e => e.h2 < 2 ^ 64) t'.tblSize t'.tbl := by
  rcases h with ⟨name, ndx, err, hrun⟩ | ⟨name, hrun⟩
  · exact (hk.insert keys_lasting (flaHashSdbm name).isLt hrun).2
  · exact (hk.remove keys_lasting hrun).2

section Effect

variable {P : ℕ → Prop} {v : Volume} {fs fs' : Flexalloc}

theorem Effect.marks (hm : ∀ s, (fs.header s).pool < 2 ^ 64 ∧ (fs.header s).refcount < 2 ^ 32) (h : Effect P fs fs')
    (s : ℕ) : (fs'.header s).pool < 2 ^ 64 ∧ (fs'.header s).refcount < 2 ^ 32 := by
  have hrelinked : ∀ hd, Relinked P fs.nslabs fs.slabs.headers hd → (hd s).pool < 2 ^ 64 ∧ (hd s).refcount < 2 ^ 32 :=
    fun hd hhd => by
      obtain ⟨hpool, hcount⟩ := hhd.marks s
      rw [hpool, hcount]
      exact hm s
  cases h with
  | list ndx k hd v hhd _ => exact hrelinked hd hhd
  | queue hd num head tail hhd _ _ _ => exact hrelinked hd hhd
  | format x =>
    exact setHeader_forall (Q := fun h => h.pool < 2 ^ 64 ∧ h.refcount < 2 ^ 32) hm x
      ⟨Nat.two_pow_pos 64, Nat.two_pow_pos 32⟩ s
  | count x n hn =>
    have hx : ({ fs.header x with refcount := n } : SlabHeader).pool < 2 ^ 64 ∧ n < 2 ^ 32 := ⟨(hm x).1, hn⟩
    exact setHeader_forall (Q := fun h => h.pool < 2 ^ 64 ∧ h.refcount < 2 ^ 32) hm x hx s
  | flushed _ h =>
    rw [Flexalloc.header, h.slabs]
    exact hm s
  | _ => exact hm s

theorem Effect.num (hnum : fs.slabs.fslabNum < 2 ^ 32) (h : Effect P fs fs') : fs'.slabs.fslabNum < 2 ^ 32 := by
  cases h with
  | queue hd num head tail _ hnew _ _ =>
    rcases hnew with rfl | hlt
    · exact hnum
    · exact hlt
  | flushed _ h =>
    rw [h.slabs]
    exact hnum
  | _ => exact hnum

theorem Effect.keys (hk : SlotsIn (fun e => e.h2 < 2 ^ 64) fs.pools.htbl.tblSize fs.pools.htbl.tbl)
    (h : Effect P fs fs') : SlotsIn (fun e => e.h2 < 2 ^ 64) fs'.pools.htbl.tblSize fs'.pools.htbl.tbl := by
  cases h with
  | htbl t ht => exact ht.keys hk
  | flushed _ h =>
    obtain ⟨m, hp⟩ := h.pools
    rw [hp]
    exact hk
  | _ => exact hk

variable (hcalc : ∀ objNlb n, flaCalcObjsInSlab fs.vol objNlb = .ok n → Room v n)

include hcalc

theorem Effect.nobj (hn : ∀ i, Room v (fs.pools.entries i).slabNobj) (h : Effect P fs fs') (i : ℕ) :
    Room v (fs'.pools.entries i).slabNobj := by
  cases h with
  | list ndx k hd head _ _ =>
    refine setEntry_forall (Q := fun e => Room v e.slabNobj) hn ndx ?_ i
    rw [slabNobj_of_rest (setHead_rest _ k head)]
    exact hn ndx
  | root ndx hndl =>
    have hndx : Room v ({ fs.pools.entries ndx with rootObjHndl := hndl } : PoolEntry).slabNobj := hn ndx
    exact setEntry_forall (Q := fun e => Room v e.slabNobj) hn ndx hndx i
  | entry ndx e arg n hsize he =>
    refine setEntry_forall (Q := fun e => Room v e.slabNobj) hn ndx ?_ i
    rw [(entryReset_spec he).1]
    exact hcalc _ _ hsize
  | flushed _ h =>
    obtain ⟨m, hp⟩ := h.pools
    rw [hp]
    exact hn i
  | _ => exact hn i

theorem Effect.cached (hn : ∀ i, Room v (fs.pools.entries i).slabNobj)
    (hc : ∀ s buf, (fs.cache s).freelist = some buf → Room v buf.flist.len) (h : Effect P fs fs') (s : ℕ) (buf : FlistBuf)
    (hbuf : (fs'.cache s).freelist = some buf) : Room v buf.flist.len := by
  cases h with
  | elem x e he =>
    by_cases hs : s = x
    · rw [hs, Flexalloc.setElem_self] at hbuf
      obtain ⟨old, hold, hlen⟩ | ⟨objNlb, hsize⟩ | ⟨i, hlen⟩ := he buf hbuf
      · rw [← hlen]
        exact hc x old hold
      · exact hcalc _ _ hsize
      · rw [hlen]
        exact hn i
    · rw [Flexalloc.setElem_ne hs] at hbuf
      exact hc s buf hbuf
  | flushed _ h =>
    rw [h.flist] at hbuf
    exact hc s buf hbuf
  | _ => exact hc s buf hbuf

end Effect

/-- **Every write** keeps what is stored storable. -/
theorem Effect.storable {v : Volume} {fs fs' : Flexalloc} (hcalc : ∀ objNlb n, flaCalcObjsInSlab v objNlb = .ok n → Room v n)
    (hvol : fs.vol = v) (hs : Storable v fs) (h : Effect (· < 2 ^ 32) fs fs') : Storable v fs' := by
  subst hvol
  exact ⟨h.linksIn hs.links, h.prev hs.links.checked hs.prev, h.marks hs.marks, h.num hs.num, h.keys hs.keys,
    h.nobj hcalc hs.nobj, h.cached hcalc hs.nobj hs.cached⟩

/-! ## Sessions on a single device -/

/-- the arguments that a call stores have the widths of their types -/
def ArgsFit : SessionOp → Prop
  | .call (.poolCreate arg) => arg.objNlb < 2 ^ 32
  | .call (.poolSetRootObject _ obj _) => obj.Fits
  | _ => True

section Room

variable {dev mdDev : Dev} {npools slabNlb : ℕ} {geo : Geo}

theorem Laid.slabNlb_pos (hl : Laid dev mdDev false npools slabNlb geo) : 0 < geo.nslabs ∧ 0 < geo.slabNlb := by
  obtain ⟨-, hslab, a, p, n, -, -, hn, -, -, -, -, rfl⟩ := mkfsGeoCalc_ok hl.accepted
  exact ⟨hn, hslab⟩

/-- a freelist of no object is one block -/
theorem Laid.room_zero (hl : Laid dev mdDev false npools slabNlb geo) : Room (.onDev dev geo) 0 := by
  have hlb : 512 ≤ geo.lbNbytes := hl.bounds.1 ▸ hl.lb
  have hslab := hl.slabNlb_pos.2
  have hone : flaSlabCacheFlistNlb (.onDev dev geo) 0 ≤ 1 := by
    show flaCeilDiv (flaFlistSize 0) geo.lbNbytes ≤ 1
    unfold flaCeilDiv flaFlistSize flaFreelistU32Elems flaCeilDiv
    exact Nat.lt_succ_iff.1 ((Nat.div_lt_iff_lt_mul (by omega)).2 (by omega))
  exact hone.trans hslab

theorem Laid.calcObjs_room (hl : Laid dev mdDev false npools slabNlb geo) (hwrap : geo.nslabs * geo.slabNlb < 2 ^ 32)
    {objNlb n : ℕ} (h : flaCalcObjsInSlab (.onDev dev geo) objNlb = .ok n) : Room (.onDev dev geo) n := by
  obtain ⟨base, hg⟩ := unwrapped_of_accepted hl.accepted hwrap
  rcases Nat.eq_zero_or_pos n with rfl | hpos
  · exact hl.room_zero
  · exact FlexAlloc.calcObjs_room hg hl.slabNlb_pos.1 h hpos

end Room

theorem Storable.header_stored {v : Volume} {fs : Flexalloc} (h : Storable v fs) (s : ℕ) :
    (fs.header s).stored = fs.header s := by
  obtain ⟨hpool, hcount⟩ := h.marks s
  rw [SlabHeader.stored, Nat.mod_eq_of_lt hpool, Nat.mod_eq_of_lt (h.prev s), Nat.mod_eq_of_lt (h.links.next s),
    Nat.mod_eq_of_lt hcount]

/-- a system on a single device, all of which is read back as it is written -/
structure InWidth (dev mdDev : Dev) (geo : Geo) (fs : Flexalloc) : Prop where
  vol : OnVol dev mdDev false geo fs
  plain : NoStripes fs
  reg : Registry fs
  store : Storable (.onDev dev geo) fs
  entry : ∀ i, EntryFits (fs.pools.entries i)

section InWidth

variable {dev mdDev : Dev} {npools slabNlb : ℕ} {geo : Geo} {fs fs' : Flexalloc} {wiped : Bytes} {async : StrpXfer}

theorem InWidth.entry_stored (h : InWidth dev mdDev geo fs) (i : ℕ) :
    (fs.pools.entries i).stored = fs.pools.entries i :=
  (h.entry i).stored (h.plain.fits.entry i) (h.store.links.heads i)

theorem InWidth.setDisk (h : InWidth dev mdDev geo fs) (disk : Bytes) : InWidth dev mdDev geo { fs with disk := disk } :=
  ⟨⟨h.vol.vol, h.vol.devs, h.vol.flist, h.vol.hdr, h.vol.tbl⟩,
    ⟨h.plain.funcs, ⟨h.plain.fits.slab, h.plain.fits.entry, h.plain.fits.cached⟩⟩, h.reg.setDisk disk,
    ⟨⟨h.store.links.checked, h.store.links.next, h.store.links.heads, h.store.links.queue⟩, h.store.prev, h.store.marks,
      h.store.num, h.store.keys, h.store.nobj, h.store.cached⟩, h.entry⟩

variable (hl : Laid dev mdDev false npools slabNlb geo) (hwrap : geo.nslabs * geo.slabNlb < 2 ^ 32)

include hl

/-- **Closing and opening again.** -/
theorem InWidth.reopen (h : InWidth dev mdDev geo fs) (hr : Reopened fs fs') (hplain : NoStripes fs') :
    InWidth dev mdDev geo fs' := by
  have hvol : OnVol dev mdDev false geo fs' :=
    ⟨hr.vol.trans h.vol.vol, ⟨hr.devs.1.trans h.vol.devs.1, hr.devs.2.trans h.vol.devs.2⟩,
      (congrArg Freelist.len hr.flist).trans h.vol.flist, hr.hdr.trans h.vol.hdr, hr.tblSize.trans h.vol.tbl⟩
  -- a header and an entry are as before, or zero
  have hheader : ∀ s, fs'.header s = fs.header s ∨ fs'.header s = ⟨0, 0, 0, 0⟩ := fun s => by
    by_cases hs : s < fs.nslabs
    · exact .inl ((hr.header s hs).trans (h.store.header_stored s))
    · exact .inr (hr.header_past s (Nat.not_lt.1 hs))
  have hentry : ∀ i, fs'.pools.entries i = fs.pools.entries i ∨ fs'.pools.entries i = .zero := fun i => by
    by_cases hi : i < fs.npools
    · exact .inl ((hr.entry i hi).trans (h.entry_stored i))
    · exact .inr (hr.entry_past i (Nat.not_lt.1 hi))
  have hmod : ∀ n, n % 2 ^ 32 < 2 ^ 32 := fun _ => Nat.mod_lt _ (Nat.two_pow_pos 32)
  refine ⟨hvol, hplain, hr.registry h.reg, ⟨⟨fun v hv => ?_, fun s => ?_, fun i k => ?_, ?_⟩, fun s => ?_, fun s => ?_, ?_,
    fun i hi => ?_, fun i => ?_, fun s buf hbuf => ?_⟩, fun i => ?_⟩
  · rw [Flexalloc.nslabs, hr.vol] at hv
    exact h.store.links.checked v hv
  · rcases hheader s with heq | heq
    · rw [heq]
      exact h.store.links.next s
    · rw [heq]
      exact Nat.two_pow_pos 32
  · rcases hentry i with heq | heq
    · rw [heq]
      exact h.store.links.heads i k
    · rw [heq]
      cases k <;> exact Nat.two_pow_pos 32
  · rw [hr.head, hr.tail]
    exact ⟨hmod _, hmod _⟩
  · rcases hheader s with heq | heq
    · rw [heq]
      exact h.store.prev s
    · rw [heq]
      exact Nat.two_pow_pos 32
  · rcases hheader s with heq | heq
    · rw [heq]
      exact h.store.marks s
    · rw [heq]
      exact ⟨Nat.two_pow_pos 64, Nat.two_pow_pos 32⟩
  · rw [hr.num]
    exact hmod _
  · rw [hr.tblSize] at hi
    rw [hr.slot i hi]
    exact Nat.mod_lt _ (Nat.two_pow_pos 64)
  · rcases hentry i with heq | heq
    · rw [heq]
      exact h.store.nobj i
    · rw [heq]
      exact hl.room_zero
  · rw [hr.cache s] at hbuf
    cases hbuf
  · rcases hentry i with heq | heq
    · rw [heq]
      exact h.entry i
    · rw [heq]
      exact entryFits_zero

include hwrap

theorem InWidth.effects (h : InWidth dev mdDev geo fs) (he : Effects (· < 2 ^ 32) fs fs') (hreg : Registry fs')
    (hentry : ∀ i, EntryFits (fs'.pools.entries i)) : InWidth dev mdDev geo fs' := by
  have hboth : OnVol dev mdDev false geo fs' ∧ Storable (.onDev dev geo) fs' :=
    he.inv (I := fun fs => OnVol dev mdDev false geo fs ∧ Storable (.onDev dev geo) fs)
      (fun _ _ he hi => ⟨he.onVol hi.1, he.storable (fun _ _ => hl.calcObjs_room hwrap) hi.1.vol hi.2⟩) ⟨h.vol, h.store⟩
  exact ⟨hboth.1, h.plain.plain he.plain, hreg, hboth.2, hentry⟩

omit hl hwrap in
theorem call_entries {env : Env} {c : Call} {res : Res} (h : ∀ i, EntryFits (fs.pools.entries i)) (hc : ArgsFit (.call c))
    (hrun : baseCall env fs c = .ok (res, fs')) (i : ℕ) : EntryFits (fs'.pools.entries i) := by
  cases c with
  | poolCreate arg =>
    obtain ⟨⟨err, handle, fs₁⟩, hcreate, hrun⟩ := bind_eq_ok hrun
    cases hrun
    rcases poolCreate_entry hcreate i with heq | ⟨hlen, n, hreset⟩
    · rw [heq]
      exact h i
    · exact (h i).reset hc hlen hreset
  | poolDestroy handle =>
    obtain ⟨⟨err, fs₁⟩, hdestroy, hrun⟩ := bind_eq_ok hrun
    cases hrun
    exact (h i).of_rest (poolDestroy_rest hdestroy i)
  | sync =>
    obtain ⟨⟨err, fs₁⟩, hsync, hrun⟩ := bind_eq_ok hrun
    cases hrun
    obtain ⟨n, hp⟩ := (flush_flushed hsync).pools
    rw [hp]
    exact h i
  | objectOpen pool obj =>
    obtain ⟨⟨err, fs₁⟩, hopen, hrun⟩ := bind_eq_ok hrun
    cases hrun
    exact (h i).of_rest ((objectOpen_steady hopen).rest i)
  | objectCreate pool =>
    obtain ⟨⟨err, obj, fs₁⟩, hcreate, hrun⟩ := bind_eq_ok hrun
    cases hrun
    exact (h i).of_rest ((objectCreate_steady hcreate).rest i)
  | objectDestroy pool obj =>
    obtain ⟨⟨err, fs₁⟩, hdestroy, hrun⟩ := bind_eq_ok hrun
    cases hrun
    exact (h i).of_rest ((objectDestroy_steady hdestroy).rest i)
  | poolSetRootObject pool obj act =>
    obtain ⟨⟨err, fs₁⟩, hset, hrun⟩ := bind_eq_ok hrun
    cases hrun
    obtain ⟨e, he, hset⟩ := bind_eq_ok hset
    obtain rfl := entryAt_eq he
    split_ifs at hset
    · cases hset
      exact h i
    all_goals
      cases hset
      refine setEntry_forall (Q := EntryFits) h _ ?_ i
      obtain ⟨hnlb, -, hstrp, hname⟩ := h pool.ndx
    · exact ⟨hnlb, show flaRootObjNone < 2 ^ 64 by decide, hstrp, hname⟩
    · exact ⟨hnlb, objHndl_lt hc, hstrp, hname⟩
  | poolOpen name =>
    obtain ⟨r, -, hrun⟩ := bind_eq_ok hrun
    cases hrun
    exact h i
  | poolGetRootObject pool =>
    obtain ⟨r, -, hrun⟩ := bind_eq_ok hrun
    cases hrun
    exact h i

theorem InWidth.call (h : InWidth dev mdDev geo fs) {env : Env} {c : Call} {res : Res} (hc : ArgsFit (.call c))
    (hrun : baseCall env fs c = .ok (res, fs')) : InWidth dev mdDev geo fs' :=
  h.effects hl hwrap (baseCall_effects h.store.links hrun) (h.reg.call hrun) (call_entries h.entry hc hrun)

/-- **Every step** keeps what is stored in its widths. -/
theorem InWidth.step (h : InWidth dev mdDev geo fs) {x : Env × SessionOp} (hx : ExactRanges dev x) (hargs : ArgsFit x.2)
    (hstep : sessionStep wiped async fs x = some fs') : InWidth dev mdDev geo fs' := by
  obtain ⟨env, op⟩ := x
  cases op with
  | call c =>
    cases c with
    | objectDestroy pool obj =>
      obtain ⟨⟨err, fs₁⟩, hrun, rfl⟩ := Option.map_eq_some_iff.1 hstep
      have hd := h.setDisk (afterResets wiped env fs pool.ndx obj)
      have hdestroy := toOption_eq_some hrun
      have hsteady : Steady _ fs₁ := objectDestroy_steady hdestroy
      exact hd.effects hl hwrap (destroyObject_effects hd.store.links hdestroy) (hsteady.quiet.registry hd.reg)
        fun i => (hd.entry i).of_rest (hsteady.rest i)
    | _ =>
      obtain ⟨⟨res, fs₁⟩, hrun, rfl⟩ := Option.map_eq_some_iff.1 hstep
      exact h.call hl hwrap hargs (toOption_eq_some hrun)
  | write ndx obj buf offset len =>
    obtain ⟨r, -, rfl⟩ := Option.map_eq_some_iff.1 hstep
    exact h.setDisk r.2
  | unalignedWrite ndx obj buf offset len =>
    obtain ⟨r, -, rfl⟩ := Option.map_eq_some_iff.1 hstep
    exact h.setDisk r.2
  | reopen env₂ =>
    obtain ⟨fs₁, err, hflush, hopen⟩ := reopen_eq_some hstep
    rw [show dev = fs.mdHome from h.vol.mdHome.symm] at hx
    obtain ⟨hr, -⟩ := reopen_inv hl h.vol hx.1 hx.2 hflush hopen
    exact h.reopen hl hr (open_noStripes hopen)

end InWidth

end FlexAlloc
