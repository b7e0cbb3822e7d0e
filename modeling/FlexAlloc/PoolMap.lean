/-
The pool directory as its clients see it: a map from names to handles.

`DirSys` adds to an open system the book of live pools (for each name the handle its creation returned and its object
size) and every handle returned so far. Clients create, open and destroy pools, and may destroy through any handle they
were ever given, live or stale. `Booked` ties the three structures of the directory (pool freelist, hash table, entries)
to the book, for names on which the secondary hash does not collide; the names stored in the entries need not be the
names of the pools.

- `directory_consistent`: in every reachable state the table, the freelist and the answers of open, create and destroy
  are those of the book.
- `created_destroyable_iff`: on any volume, a newly created pool carries its own name and can be destroyed if and only if
  the name left in the entry it takes is not longer than its own. `leftover_name_blocks_destroy`: a shorter name after a
  longer one.

A create first opens the name. When the name is live and the open has no memory for the handle, but the create has memory
for a new one, the name is entered again at another index; the runs here are those where that does not happen (`Recalled`).
-/
import FlexAlloc.Chains
import FlexAlloc.Directory

namespace FlexAlloc

open FlexAlloc.Core Function

/-- the bytes of a name, without a terminator -/
abbrev PoolName := List (BitVec 8)

structure DirSys where
  fs : Flexalloc
  /-- the live pools: the handle returned at creation, and the object size -/
  book : PoolName → Option (PoolHandle × ℕ)
  /-- the handles returned so far -/
  issued : List PoolHandle

inductive DirOp where
  | poolCreate (arg : PoolCreateArg)
  | poolOpen (name : PoolName)
  | poolDestroy (handle : PoolHandle)
deriving DecidableEq, Repr

/-- a C string that fits the name of an entry with its terminator -/
def NameOk (name : PoolName) : Prop := (0 : BitVec 8) ∉ name ∧ name.length < flaNameSizePool

/-- arguments of a create that asks for nothing impossible -/
def ArgOk (v : Volume) (arg : PoolCreateArg) : Prop :=
  NameOk arg.name ∧ arg.nameLen = arg.name.length ∧ arg.objNlb < 2 ^ 32 ∧ FitsSlab v arg.objNlb

instance (name : PoolName) : Decidable (NameOk name) := inferInstanceAs (Decidable (_ ∧ _))

instance (v : Volume) (arg : PoolCreateArg) : Decidable (ArgOk v arg) := inferInstanceAs (Decidable (_ ∧ _ ∧ _ ∧ _))

/-- what a client may ask for; a handle it destroys through was returned to it at some time -/
def DirLegal (s : DirSys) : DirOp → Prop
  | .poolCreate arg => ArgOk s.fs.vol arg
  | .poolOpen name => NameOk name
  | .poolDestroy handle => handle ∈ s.issued

instance (s : DirSys) : (op : DirOp) → Decidable (DirLegal s op)
  | .poolCreate arg => inferInstanceAs (Decidable (ArgOk s.fs.vol arg))
  | .poolOpen name => inferInstanceAs (Decidable (NameOk name))
  | .poolDestroy handle => inferInstanceAs (Decidable (handle ∈ s.issued))

namespace DirSys

/-- a create returned `handle`: a name that was not live is live now -/
def created (s : DirSys) (arg : PoolCreateArg) (handle : Option PoolHandle) (fs : Flexalloc) : DirSys where
  fs := fs
  book := match handle, s.book arg.name with
    | some h, none => update s.book arg.name (some (h, arg.objNlb))
    | _, _ => s.book
  issued := handle.toList ++ s.issued

/-- a destroy through `handle` succeeded -/
def forgotten (s : DirSys) (handle : PoolHandle) (fs : Flexalloc) : DirSys where
  fs := fs
  book := fun name => if (s.book name).map Prod.fst = some handle then none else s.book name
  issued := s.issued

end DirSys

theorem DirSys.created_new {s : DirSys} {arg : PoolCreateArg} (hnone : s.book arg.name = none) (h : PoolHandle)
    (fs : Flexalloc) : (s.created arg (some h) fs).book = update s.book arg.name (some (h, arg.objNlb)) := by
  simp only [DirSys.created, hnone]

theorem DirSys.created_book (s : DirSys) (arg : PoolCreateArg) (handle : Option PoolHandle) (fs : Flexalloc)
    {name : PoolName} {b : PoolHandle × ℕ} (h : s.book name = some b) : (s.created arg handle fs).book name = some b := by
  cases handle with
  | none => exact h
  | some h' =>
    cases hbk : s.book arg.name with
    | some b' => simp only [DirSys.created, hbk]; exact h
    | none =>
      have hne : name ≠ arg.name := fun heq => by
        rw [heq, hbk] at h
        cases h
      rw [DirSys.created_new hbk, update_of_ne hne]
      exact h

/-- a call: its return value and the system after it -/
def dirPerform (env : Env) (s : DirSys) : DirOp → Ret (ℤ × DirSys)
  | .poolCreate arg => do
    let r ← flaBasePoolCreate env s.fs arg
    .ok (r.1, s.created arg r.2.1 r.2.2)
  | .poolOpen name => do
    let r ← flaBasePoolOpen env s.fs name
    .ok (r.1, { s with issued := r.2.toList ++ s.issued })
  | .poolDestroy handle => do
    let r ← flaBasePoolDestroy s.fs handle
    .ok (r.1, if r.1 = 0 then s.forgotten handle r.2 else { s with fs := r.2 })

/-- a name that is live is not entered again because the open in the create found no memory for its handle -/
def Recalled (s : DirSys) (x : Env × DirOp) : Prop :=
  match x.2 with
  | .poolCreate arg => (s.book arg.name).isSome → x.1.mallocNew → x.1.malloc
  | _ => True

instance (s : DirSys) : (x : Env × DirOp) → Decidable (Recalled s x)
  | (env, .poolCreate arg) => inferInstanceAs (Decidable ((s.book arg.name).isSome → env.mallocNew → env.malloc))
  | (_, .poolOpen _) | (_, .poolDestroy _) => isTrue trivial

/-- a legal call that returns -/
def dirStep (s : DirSys) (x : Env × DirOp) : Option DirSys :=
  if Recalled s x ∧ DirLegal s x.2 then
    match dirPerform x.1 s x.2 with
    | .ok (_, t) => some t
    | .error _ => none
  else none

theorem dirStep_eq_some {s t : DirSys} {x : Env × DirOp} (h : dirStep s x = some t) :
    Recalled s x ∧ DirLegal s x.2 ∧ ∃ err, dirPerform x.1 s x.2 = .ok (err, t) := by
  unfold dirStep at h
  split_ifs at h with hl
  refine ⟨hl.1, hl.2, ?_⟩
  split at h
  · rename_i err t' hp
    exact ⟨err, by rw [hp, Option.some.inj h]⟩
  · cases h

def DirSys.init (dev : Dev) (geo : Geo) (disk : Bytes) : DirSys := ⟨flaMkfs dev geo disk, fun _ => none, []⟩

/-- the string stored in the entry of index `i` -/
def DirSys.stored (s : DirSys) (i : ℕ) : PoolName := cstr (s.fs.pools.entries i).name

/-! ## Strings -/

theorem cstr_cstr (raw : PoolName) : cstr (cstr raw) = cstr raw := by
  unfold cstr
  rw [List.takeWhile_takeWhile]
  simp

theorem cstr_of_nameOk {name : PoolName} (h : (0 : BitVec 8) ∉ name) : cstr name = name := by
  unfold cstr
  rw [List.takeWhile_eq_self_iff]
  intro b hb
  simp only [ne_eq, decide_eq_true_eq]
  exact fun h0 => h (h0 ▸ hb)

theorem h1_cstr (raw : PoolName) : flaHashing.h1 (cstr raw) = flaHashing.h1 raw := by
  simp only [flaHashing, flaHashDjb2, cstr_cstr]

theorem h2_cstr (raw : PoolName) : flaHashing.h2 (cstr raw) = flaHashing.h2 raw := by
  simp only [flaHashing, flaHashSdbm, cstr_cstr]

theorem lookup_cstr (t : Htbl) (raw : PoolName) : htblLookup flaHashing t (cstr raw) = htblLookup flaHashing t raw := by
  rw [htblLookup, htblLookup, h1_cstr, h2_cstr]

theorem remove_cstr (t : Htbl) (raw : PoolName) : htblRemove flaHashing t (cstr raw) = htblRemove flaHashing t raw := by
  rw [htblRemove, htblRemove, lookup_cstr]

/-- a name field: a C string, then zeros -/
def Padded (field : PoolName) : Prop :=
  ∃ w, (0 : BitVec 8) ∉ w ∧ w.length < flaNameSizePool ∧ field = w ++ List.replicate (flaNameSizePool - w.length) 0

theorem cstr_padded {w : PoolName} (hw : (0 : BitVec 8) ∉ w) (n : ℕ) : cstr (w ++ List.replicate n 0) = w := by
  unfold cstr
  rw [List.takeWhile_append, ← cstr, cstr_of_nameOk hw, if_pos rfl]
  cases n <;> simp [List.replicate_succ]

/-- a name copied over another keeps the end of the longer one -/
theorem memcpyName_padded {w name : PoolName} (past : PoolName) (hlen : w.length < flaNameSizePool) (hn : NameOk name) :
    memcpyName (w ++ List.replicate (flaNameSizePool - w.length) 0) name past name.length =
      .ok ((name ++ w.drop name.length) ++
        List.replicate (flaNameSizePool - (name ++ w.drop name.length).length) 0) := by
  have hbound : ¬ ((name.length : ℤ) < 0 ∨ (name.length : ℤ) + 1 + past.length < name.length) := by omega
  have hn' := hn.2
  rw [memcpyName, if_neg hbound, Int.toNat_natCast, List.take_append_of_le_length le_rfl, List.take_length,
    List.drop_append, List.drop_replicate, List.append_assoc]
  congr 3
  simp only [List.length_append, List.length_drop]
  congr 1
  omega

/-! ## The invariant -/

def DirSys.ndxOf (s : DirSys) (name : PoolName) : Option ℕ := (s.book name).map (·.1.ndx)

structure Booked (v : Volume) (S : Set PoolName) (s : DirSys) : Prop where
  vol : s.fs.vol = v
  dir : Dir s.fs
  table : Refines flaHashing S (2 * v.super.npools) s.fs.pools.htbl s.ndxOf
  live : ∀ i, s.fs.PoolLive i ↔ ∃ name, s.ndxOf name = some i
  inj : ∀ a b i, s.ndxOf a = some i → s.ndxOf b = some i → a = b
  record : ∀ name h n, s.book name = some (h, n) → h.h2 = flaHashing.h2 name ∧ (s.fs.pools.entries h.ndx).objNlb = n
  heads : ∀ i, (s.fs.pools.entries i).slabNobj ≠ 0 → ∀ k, (s.fs.pools.entries i).head k = flaLinkedListNull
  names : ∀ i, Padded (s.fs.pools.entries i).name
  issued : ∀ h ∈ s.issued, h.ndx < v.super.npools

/-- names whose secondary hashes do not collide and are not the unset mark -/
structure Collisionless (S : Set PoolName) : Prop where
  inj : Set.InjOn flaHashing.h2 S
  unset : ∀ name ∈ S, flaHashing.h2 name ≠ flaHtblEntryUnset

theorem ndxOf_eq_some {s : DirSys} {name : PoolName} {i : ℕ} :
    s.ndxOf name = some i ↔ ∃ h n, s.book name = some (h, n) ∧ h.ndx = i := by
  rw [DirSys.ndxOf, Option.map_eq_some_iff]
  constructor
  · rintro ⟨⟨h, n⟩, hb, hi⟩
    exact ⟨h, n, hb, hi⟩
  · rintro ⟨h, n, hb, hi⟩
    exact ⟨(h, n), hb, hi⟩

theorem ndxOf_eq_none {s : DirSys} {name : PoolName} : s.ndxOf name = none ↔ s.book name = none := by
  rw [DirSys.ndxOf, Option.map_eq_none_iff]

theorem Fresh.booked {v : Volume} {fs : Flexalloc} (hfr : Fresh v fs) (hnp : v.super.npools = v.geo.npools)
    (hpos : 0 < v.super.npools) (hsize : v.geo.poolSgmt.htblTblSize = 2 * v.super.npools) {S : Set PoolName}
    (hS : Collisionless S) : Booked v S ⟨fs, fun _ => none, []⟩ := by
  have hdir := hfr.dir hnp
  have hzero : ∀ i, fs.pools.entries i = .zero := fun i => by rw [hfr.pools]; rfl
  have hno : ∀ i, ¬ fs.PoolLive i := fun i hi => hdir.used i hi (by rw [hzero]; rfl)
  refine ⟨hfr.vol, hdir, ?_, fun i => ⟨fun h => absurd h (hno i), ?_⟩, ?_, ?_, fun i h => absurd ?_ h,
    fun i => ⟨[], by simp, by decide, ?_⟩, by simp⟩
  · have htbl : fs.pools.htbl = htblInit (2 * v.super.npools) := by rw [hfr.pools, ← hsize]; rfl
    show Refines flaHashing S _ fs.pools.htbl _
    rw [htbl]
    exact init_refines (by omega) hS.unset
  · rintro ⟨name, h⟩
    cases h
  · intro a b i h
    cases h
  · intro name h n hb
    cases hb
  · show (fs.pools.entries i).slabNobj = 0
    rw [hzero]
    rfl
  · show (fs.pools.entries i).name = _
    rw [hzero]
    rfl

/-- mkfs gives the hash table twice as many slots as there are pools -/
theorem htblTblSize_eq {dev : Dev} {hasMd : Bool} {npools slabNlb : ℕ} {geo : Geo}
    (h : flaMkfsGeoCalc dev hasMd npools slabNlb = .ok (0, geo)) (hnp : geo.npools ≤ 2 ^ 15) :
    geo.poolSgmt.htblTblSize = 2 * geo.npools := by
  obtain ⟨-, -, a, p, n, -, -, -, -, -, -, -, rfl⟩ := mkfsGeoCalc_accepts h
  show u32 (min p n * 2) = 2 * min p n
  have hle : min p n ≤ 2 ^ 15 := hnp
  rw [u32_of_lt (by omega), Nat.mul_comm]

theorem Mounted.booked {dev mdDev : Dev} {hasMd : Bool} {npools slabNlb : ℕ} {geo : Geo} {fs : Flexalloc}
    (hm : Mounted dev mdDev hasMd npools slabNlb geo fs) (hnp : geo.npools ≤ 2 ^ 15) {S : Set PoolName}
    (hS : Collisionless S) : Booked (.formatted dev hasMd geo) S ⟨fs, fun _ => none, []⟩ :=
  hm.fresh.booked rfl (accepted_bounds hm.accepted).1 (htblTblSize_eq hm.accepted hnp) hS

section Calls

variable {v : Volume} {S : Set PoolName} {s t : DirSys} {env : Env}

theorem Booked.npools (hb : Booked v S s) : s.fs.npools = v.super.npools := by
  rw [Flexalloc.npools, hb.vol]

/-- the bounds the table is used within -/
structure Small (v : Volume) : Prop where
  pos : 0 < v.super.npools
  le : v.super.npools ≤ 2 ^ 15

theorem Small.size_pos (hg : Small v) : 1 ≤ 2 * v.super.npools := by
  have := hg.pos
  omega

theorem Small.size_le (hg : Small v) : 2 * v.super.npools ≤ 2 ^ 16 := by
  have := hg.le
  omega

theorem Booked.open_none (hg : Small v) (hS : Collisionless S) (hb : Booked v S s) (env : Env) {name : PoolName} (hn : name ∈ S)
    (hnone : s.book name = none) : flaBasePoolOpen env s.fs name = .ok (-1, none) := by
  rcases hb.table.lookup hg.size_pos hg.size_le hS.inj hS.unset hn with ⟨i, -, -, -, hndx⟩ | ⟨hlook, -, -⟩
  · obtain ⟨h, n, hbook, -⟩ := ndxOf_eq_some.1 hndx
    rw [hnone] at hbook
    cases hbook
  · rw [flaBasePoolOpen, hlook, ok_bind]

/-- without memory an open finds nothing -/
theorem Booked.open_refused (hg : Small v) (hS : Collisionless S) (hb : Booked v S s) (hm : ¬ env.malloc) {name : PoolName}
    (hn : name ∈ S) : ∃ e, flaBasePoolOpen env s.fs name = .ok (e, none) := by
  rcases hb.table.lookup hg.size_pos hg.size_le hS.inj hS.unset hn with ⟨i, -, hlook, -, -⟩ | ⟨hlook, -, -⟩
  · refine ⟨-eNOMEM, ?_⟩
    rw [flaBasePoolOpen, hlook, ok_bind]
    exact if_pos hm
  · exact ⟨-1, by rw [flaBasePoolOpen, hlook, ok_bind]⟩

/-- **Opening a pool** answers from the book. -/
theorem Booked.open (hg : Small v) (hS : Collisionless S) (hb : Booked v S s) (hm : env.malloc) {name : PoolName}
    (hn : name ∈ S) : flaBasePoolOpen env s.fs name = .ok (match s.book name with
      | some (h, _) => (0, some h)
      | none => (-1, none)) := by
  rcases hb.table.lookup hg.size_pos hg.size_le hS.inj hS.unset hn with ⟨i, -, hlook, hkey, hndx⟩ | ⟨hlook, hnone, -⟩
  · obtain ⟨h, n, hbook, hval⟩ := ndxOf_eq_some.1 hndx
    have hh : (⟨(s.fs.pools.htbl.tbl i).h2, (s.fs.pools.htbl.tbl i).val⟩ : PoolHandle) = h := by
      rw [hkey, ← (hb.record name h n hbook).1, ← hval]
    rw [flaBasePoolOpen, hlook, ok_bind]
    dsimp only
    rw [if_neg (by simp [hm]), hh, hbook]
  · rw [flaBasePoolOpen, hlook, ok_bind, ndxOf_eq_none.1 hnone]

theorem poolDestroyCheck_absent {fs : Flexalloc} {handle : PoolHandle} (hlt : handle.ndx < fs.npools)
    (hlook : htblLookup flaHashing fs.pools.htbl (fs.pools.entries handle.ndx).name = .ok none) :
    poolDestroyCheck fs handle = .ok 1 := by
  have hentry : fs.entryAt handle.ndx = .ok (fs.pools.entries handle.ndx) := if_pos hlt
  rw [poolDestroyCheck, if_neg (by omega), hentry, ok_bind, hlook, ok_bind]

theorem poolDestroyCheck_found {fs : Flexalloc} {handle : PoolHandle} {i : ℕ} (hlt : handle.ndx < fs.npools)
    (hlook : htblLookup flaHashing fs.pools.htbl (fs.pools.entries handle.ndx).name = .ok (some i)) :
    poolDestroyCheck fs handle = .ok (if (fs.pools.htbl.tbl i).h2 ≠ handle.h2 ∨ (fs.pools.htbl.tbl i).val ≠ handle.ndx
      then 1 else 0) := by
  have hentry : fs.entryAt handle.ndx = .ok (fs.pools.entries handle.ndx) := if_pos hlt
  rw [poolDestroyCheck, if_neg (by omega), hentry, ok_bind, hlook, ok_bind]
  dsimp only
  by_cases h2 : (fs.pools.htbl.tbl i).h2 ≠ handle.h2
  · rw [if_pos h2, if_pos (Or.inl h2)]
  rw [if_neg h2]
  by_cases hv : (fs.pools.htbl.tbl i).val ≠ handle.ndx
  · rw [if_pos hv, if_pos (Or.inr hv)]
  · rw [if_neg hv, if_neg (by tauto)]

/-- **The checks of a destroy**: they pass exactly for the handle of the live pool whose name is stored in the entry. -/
theorem Booked.destroyCheck (hg : Small v) (hS : Collisionless S) (hb : Booked v S s) {handle : PoolHandle}
    (hlt : handle.ndx < v.super.npools) (hstored : s.stored handle.ndx ∈ S) :
    ∃ err, poolDestroyCheck s.fs handle = .ok err ∧
      (err = 0 ↔ ∃ n, s.book (s.stored handle.ndx) = some (handle, n)) := by
  have hnp : handle.ndx < s.fs.npools := hb.npools ▸ hlt
  rcases hb.table.lookup hg.size_pos hg.size_le hS.inj hS.unset hstored with ⟨i, -, hlook, hkey, hndx⟩ | ⟨hlook, hnone, -⟩
  · obtain ⟨h, n, hbook, hval⟩ := ndxOf_eq_some.1 hndx
    have hrec := (hb.record _ h n hbook).1
    rw [DirSys.stored, lookup_cstr] at hlook
    rw [poolDestroyCheck_found hnp hlook, hkey, ← hval, ← hrec]
    by_cases hh : h = handle
    · subst hh
      exact ⟨0, by simp, fun _ => ⟨n, hbook⟩, fun _ => rfl⟩
    · have hne : h.h2 ≠ handle.h2 ∨ h.ndx ≠ handle.ndx := by
        by_contra hcon
        push Not at hcon
        exact hh (by cases h; cases handle; simp_all)
      refine ⟨1, by rw [if_pos hne], fun h => absurd h (by decide), ?_⟩
      rintro ⟨m, hm⟩
      rw [hbook] at hm
      exact absurd (Prod.mk.inj (Option.some.inj hm)).1 hh
  · rw [DirSys.stored, lookup_cstr] at hlook
    refine ⟨1, poolDestroyCheck_absent hnp hlook, fun h => absurd h (by decide), ?_⟩
    rintro ⟨n, hn⟩
    rw [ndxOf_eq_none.1 hnone] at hn
    cases hn

/-! ## Destroying -/

theorem poolForget_eq {fs : Flexalloc} {ndx : ℕ} {fl : Freelist} {htbl : Htbl}
    (hfree : flaFlistEntriesFree fs.pools.freelist ndx 1 = .ok (0, fl))
    (hrem : htblRemove flaHashing fs.pools.htbl (fs.pools.entries ndx).name = .ok htbl) :
    poolForget fs ndx = .ok (0, { fs with pools := { fs.pools with freelist := fl, htbl := htbl } }) := by
  rw [poolForget, hfree, ok_bind]
  dsimp only
  rw [if_neg (by simp), hrem, ok_bind]

/-- a pool without slabs is destroyed as soon as its handle passes the checks -/
theorem poolDestroy_eq {fs : Flexalloc} {handle : PoolHandle} (hck : poolDestroyCheck fs handle = .ok 0)
    (hrel : flaPoolReleaseAllSlabs fs handle.ndx = (0, fs)) :
    flaBasePoolDestroy fs handle = poolForget fs handle.ndx := by
  rw [flaBasePoolDestroy, hck, ok_bind, if_neg (by simp), hrel]
  exact if_neg (by simp)

theorem poolDestroy_checked {fs : Flexalloc} {handle : PoolHandle} {err : ℤ} (hck : poolDestroyCheck fs handle = .ok err)
    (herr : err ≠ 0) : flaBasePoolDestroy fs handle = .ok (err, fs) := by
  rw [flaBasePoolDestroy, hck, ok_bind, if_pos herr]

theorem Booked.book_forgotten (hb : Booked v S s) {name : PoolName} {handle : PoolHandle} {n : ℕ}
    (hbook : s.book name = some (handle, n)) (fs : Flexalloc) :
    (s.forgotten handle fs).book = update s.book name none := by
  funext k
  simp only [DirSys.forgotten]
  by_cases hk : k = name
  · rw [hk, update_self, if_pos (by rw [hbook]; rfl)]
  · rw [update_of_ne hk]
    refine if_neg fun hcon => ?_
    obtain ⟨⟨h', m⟩, hb', hh'⟩ := Option.map_eq_some_iff.1 hcon
    obtain rfl : h' = handle := hh'
    exact hk (hb.inj k name h'.ndx (ndxOf_eq_some.2 ⟨h', m, hb', rfl⟩) (ndxOf_eq_some.2 ⟨h', n, hbook, rfl⟩))

theorem Booked.ndxOf_forgotten (hb : Booked v S s) {name : PoolName} {handle : PoolHandle} {n : ℕ}
    (hbook : s.book name = some (handle, n)) (fs : Flexalloc) :
    (s.forgotten handle fs).ndxOf = update s.ndxOf name none := by
  funext k
  rw [DirSys.ndxOf, hb.book_forgotten hbook]
  by_cases hk : k = name
  · rw [hk, update_self, update_self]; rfl
  · rw [update_of_ne hk, update_of_ne hk]; rfl

/-- **Destroying a pool** whose name is the one stored: it leaves the directory, and nothing else does. -/
theorem Booked.destroy (hg : Small v) (hS : Collisionless S) (hb : Booked v S s) {handle : PoolHandle} {n : ℕ}
    (hstored : s.stored handle.ndx ∈ S) (hbook : s.book (s.stored handle.ndx) = some (handle, n)) :
    ∃ fs', flaBasePoolDestroy s.fs handle = .ok (0, fs') ∧ fs'.pools.entries = s.fs.pools.entries ∧
      (∀ i, fs'.PoolLive i ↔ s.fs.PoolLive i ∧ i ≠ handle.ndx) ∧ Booked v S (s.forgotten handle fs') := by
  set name := s.stored handle.ndx with hname
  have hndx : s.ndxOf name = some handle.ndx := ndxOf_eq_some.2 ⟨handle, n, hbook, rfl⟩
  have hlive : s.fs.PoolLive handle.ndx := (hb.live _).2 ⟨name, hndx⟩
  have hlt : handle.ndx < s.fs.npools := ((poolLive_iff hb.dir.len _).1 hlive).1
  have hlt' : handle.ndx < v.super.npools := hb.npools ▸ hlt
  have hle := hg.le
  obtain ⟨err, hck, hiff⟩ := hb.destroyCheck hg hS hlt' hstored
  obtain rfl := hiff.2 ⟨n, hbook⟩
  have hrel := releaseAll_null (hb.heads _ (hb.dir.used _ hlive))
  have hlt32 : handle.ndx < 2 ^ 32 := by omega
  have hltlen : handle.ndx < s.fs.pools.freelist.len := by rw [hb.dir.len]; exact hlt
  obtain ⟨fl, hfree, -, -⟩ := entriesFree_one hltlen hlt32
  obtain ⟨htbl, hrem, -, htable⟩ := remove_refines hb.table hg.size_pos hg.size_le hS.inj hS.unset hstored
  rw [hname, DirSys.stored, remove_cstr] at hrem
  have hforget := poolForget_eq hfree hrem
  obtain ⟨-, -, hdir, hent, hlv⟩ := poolForget_spec hb.dir (by rw [hb.npools]; omega) hlt hforget
  refine ⟨_, (poolDestroy_eq hck hrel).trans hforget, hent, hlv, hb.vol, hdir, ?_, fun i => ?_, ?_, ?_, hb.heads, hb.names,
    hb.issued⟩
  · rw [hb.ndxOf_forgotten hbook]
    exact htable
  · rw [hb.ndxOf_forgotten hbook]
    refine (hlv i).trans ?_
    rw [hb.live i]
    constructor
    · rintro ⟨⟨k, hk⟩, hne⟩
      have hkn : k ≠ name := fun h => by
        rw [h, hndx] at hk
        exact hne (Option.some.inj hk).symm
      exact ⟨k, by rw [update_of_ne hkn]; exact hk⟩
    · rintro ⟨k, hk⟩
      by_cases hkn : k = name
      · rw [hkn, update_self] at hk; cases hk
      · rw [update_of_ne hkn] at hk
        refine ⟨⟨k, hk⟩, fun hi => hkn (hb.inj k name i hk (by rw [hi]; exact hndx))⟩
  · rw [hb.ndxOf_forgotten hbook]
    intro a b i ha hb'
    by_cases ha' : a = name
    · rw [ha', update_self] at ha; cases ha
    by_cases hbn : b = name
    · rw [hbn, update_self] at hb'; cases hb'
    rw [update_of_ne ha'] at ha
    rw [update_of_ne hbn] at hb'
    exact hb.inj a b i ha hb'
  · intro k h m hbk
    refine hb.record k h m ?_
    simp only [DirSys.forgotten] at hbk
    split_ifs at hbk
    exact hbk

/-! ## Creating -/

/-- the system after index `k` was taken for a new pool with entry `e` -/
def poolMade (fs : Flexalloc) (k : ℕ) (fl : Freelist) (htbl : Htbl) (e : PoolEntry) : Flexalloc :=
  { fs with pools := { fs.pools with
    freelist := fl
    htbl := htbl
    entries := update fs.pools.entries k e
    entrieFuncs := update fs.pools.entrieFuncs k (some .dflt) } }

section New

variable {fs : Flexalloc} {arg : PoolCreateArg} {k n : ℕ} {fl : Freelist} {htbl : Htbl} {e : PoolEntry}

/-- once the name is entered, only the copy of the name can still go wrong -/
theorem poolCreateAt_entered (hk : k < fs.npools)
    (hins : htblInsert flaHashing fs.pools.htbl arg.name k = .ok (0, htbl)) :
    poolCreateAt env { fs with pools := { fs.pools with freelist := fl } } arg k n =
      (flaPoolEntryResetDefault env (fs.pools.entries k) arg n).map fun e =>
        ((0 : ℤ), some ⟨flaHashing.h2 arg.name, k⟩, poolMade fs k fl htbl e) := by
  have hentry : ({ fs with pools := { fs.pools with freelist := fl } } : Flexalloc).entryAt k =
      .ok (fs.pools.entries k) := if_pos hk
  rw [poolCreateAt, hentry, ok_bind, initializeEntrieFunc_eq]
  dsimp only
  rw [hins, ok_bind]
  dsimp only
  rw [if_neg (by simp)]
  have hfnc : Flexalloc.fncAt { fs with pools := { fs.pools with
      freelist := fl
      htbl := htbl
      entrieFuncs := update fs.pools.entrieFuncs k (some .dflt) } } k = .ok .dflt := by
    rw [Flexalloc.fncAt, if_pos hk]
    simp only [update_self]
  rw [hfnc, ok_bind]
  cases hreset : flaPoolEntryResetDefault env (fs.pools.entries k) arg n with
  | error f =>
    have hreset' : EntryFnc.dflt.poolEntryReset env (fs.pools.entries k) arg n = .error f := hreset
    rw [hreset']
    rfl
  | ok e =>
    have hreset' : EntryFnc.dflt.poolEntryReset env (fs.pools.entries k) arg n = .ok e := hreset
    rw [hreset', ok_bind]
    rfl

theorem poolCreateAt_eq (hk : k < fs.npools) (hins : htblInsert flaHashing fs.pools.htbl arg.name k = .ok (0, htbl))
    (hreset : flaPoolEntryResetDefault env (fs.pools.entries k) arg n = .ok e) :
    poolCreateAt env { fs with pools := { fs.pools with freelist := fl } } arg k n =
      .ok (0, some ⟨flaHashing.h2 arg.name, k⟩, poolMade fs k fl htbl e) := by
  rw [poolCreateAt_entered hk hins, hreset]
  rfl

/-- a create whose name is not found goes on to its own checks -/
theorem poolCreate_checks {e : ℤ} (hopen : flaBasePoolOpen env fs arg.name = .ok (e, none)) :
    flaBasePoolCreate env fs arg =
      (if (flaNameSizePool : ℤ) ≤ arg.nameLen then .ok (1, none, fs)
      else do
        let n ← flaCalcObjsInSlab fs.vol arg.objNlb
        if n < 1 then .ok (1, none, fs)
        else if csCheckPool fs arg.objNlb ≠ 0 then .ok (csCheckPool fs arg.objNlb, none, fs)
        else if ¬ env.mallocNew then .ok (-eNOMEM, none, fs)
        else
          let (k, fl) := flaFlistEntriesAlloc fs.pools.freelist 1
          let fs := { fs with pools := { fs.pools with freelist := fl } }
          if k < 0 then .ok (1, none, fs) else poolCreateAt env fs arg k.toNat n) := by
  rw [flaBasePoolCreate, hopen, ok_bind]
  split
  · rename_i heq
    cases (Prod.mk.inj heq).2
  · rfl

theorem poolCreate_absent {e : ℤ} (hopen : flaBasePoolOpen env fs arg.name = .ok (e, none))
    (hlen : arg.nameLen < flaNameSizePool) (hcalc : flaCalcObjsInSlab fs.vol arg.objNlb = .ok n) (hn : 1 ≤ n)
    (hcheck : csCheckPool fs arg.objNlb = 0) (hm : env.mallocNew) :
    flaBasePoolCreate env fs arg = (match takeEntry fs.pools.freelist with
      | none => .ok (1, none, fs)
      | some (k, fl) => if toInt k < 0 then .ok (1, none, { fs with pools := { fs.pools with freelist := fl } })
        else poolCreateAt env { fs with pools := { fs.pools with freelist := fl } } arg (toInt k).toNat n) := by
  rw [poolCreate_checks hopen, if_neg (by omega), hcalc, ok_bind, if_neg (by omega), if_neg (by simp [hcheck]),
    if_neg (by simp [hm]), entriesAlloc_one, flaFlistEntryAlloc]
  cases takeEntry fs.pools.freelist with
  | none => rfl
  | some r => rfl

theorem poolCreate_refused {e : ℤ} (hopen : flaBasePoolOpen env fs arg.name = .ok (e, none))
    (hlen : arg.nameLen < flaNameSizePool) (hcalc : flaCalcObjsInSlab fs.vol arg.objNlb = .ok n) (hn : 1 ≤ n)
    (hno : csCheckPool fs arg.objNlb ≠ 0 ∨ ¬ env.mallocNew) :
    ∃ err, err ≠ 0 ∧ flaBasePoolCreate env fs arg = .ok (err, none, fs) := by
  rw [poolCreate_checks hopen, if_neg (by omega), hcalc, ok_bind, if_neg (by omega)]
  by_cases hcheck : csCheckPool fs arg.objNlb = 0
  · rw [if_neg (by simp [hcheck]), if_pos (hno.resolve_left fun h => h hcheck)]
    exact ⟨_, by decide, rfl⟩
  · rw [if_pos hcheck]
    exact ⟨_, hcheck, rfl⟩

theorem poolCreate_new {e' : ℤ} (hopen : flaBasePoolOpen env fs arg.name = .ok (e', none))
    (hlen : arg.nameLen < flaNameSizePool) (hcalc : flaCalcObjsInSlab fs.vol arg.objNlb = .ok n) (hn : 1 ≤ n)
    (hcheck : csCheckPool fs arg.objNlb = 0) (hm : env.mallocNew) (htake : takeEntry fs.pools.freelist = some (k, fl))
    (hk : k < fs.npools) (hk31 : k < 2 ^ 31) (hins : htblInsert flaHashing fs.pools.htbl arg.name k = .ok (0, htbl))
    (hreset : flaPoolEntryResetDefault env (fs.pools.entries k) arg n = .ok e) :
    flaBasePoolCreate env fs arg = .ok (0, some ⟨flaHashing.h2 arg.name, k⟩, poolMade fs k fl htbl e) := by
  rw [poolCreate_absent hopen hlen hcalc hn hcheck hm, htake]
  dsimp only
  rw [toInt_of_lt hk31, if_neg (by omega), Int.toNat_natCast]
  exact poolCreateAt_eq hk hins hreset

theorem poolMade_live (hk : k < fs.pools.freelist.len) (htake : takeEntry fs.pools.freelist = some (k, fl)) (i : ℕ) :
    (poolMade fs k fl htbl e).PoolLive i ↔ i = k ∨ fs.PoolLive i := by
  obtain ⟨-, -, hlen, hfl⟩ := takeEntry_some htake
  show i ∈ fl.reserved ↔ i = k ∨ i ∈ fs.pools.freelist.reserved
  rw [mem_reserved, mem_reserved, hlen, hfl]
  by_cases hik : i = k
  · subst hik
    simp [hk]
  · simp [hik]

theorem poolCreate_found {h : PoolHandle} (hopen : flaBasePoolOpen env fs arg.name = .ok (0, some h))
    (hlt : h.ndx < fs.npools) :
    flaBasePoolCreate env fs arg = if (fs.pools.entries h.ndx).objNlb ≠ arg.objNlb then .ok (-eINVAL, none, fs)
      else .ok (0, some h, fs) := by
  have hentry : fs.entryAt h.ndx = .ok (fs.pools.entries h.ndx) := if_pos hlt
  rw [flaBasePoolCreate, hopen, ok_bind]
  split
  · rename_i h' heq
    obtain rfl : h = h' := Option.some.inj (Prod.mk.inj heq).2
    rw [hentry, ok_bind]
  · rename_i hne
    exact absurd rfl (hne h)

end New

/-- as many names are live as indices are taken -/
theorem Booked.count (hb : Booked v S s) :
    {name | s.book name ≠ none}.ncard = s.fs.pools.freelist.reserved.length := by
  have hset : {name | s.book name ≠ none} = {name | s.ndxOf name ≠ none} := by
    ext name
    exact not_congr ndxOf_eq_none.symm
  have hinj : Set.InjOn s.ndxOf {name | s.ndxOf name ≠ none} := fun a ha b _ hab => by
    obtain ⟨i, hi⟩ := Option.ne_none_iff_exists'.1 ha
    exact hb.inj a b i hi (hab ▸ hi)
  have himg : Set.image s.ndxOf {name | s.ndxOf name ≠ none} =
      Set.image some (s.fs.pools.freelist.reserved.toFinset : Set ℕ) := by
    ext x
    constructor
    · rintro ⟨name, hname, rfl⟩
      obtain ⟨i, hi⟩ := Option.ne_none_iff_exists'.1 hname
      refine ⟨i, ?_, hi.symm⟩
      rw [Finset.mem_coe, List.mem_toFinset]
      exact (hb.live i).2 ⟨name, hi⟩
    · rintro ⟨i, hi, rfl⟩
      rw [Finset.mem_coe, List.mem_toFinset] at hi
      obtain ⟨name, hname⟩ := (hb.live i).1 hi
      exact ⟨name, by rw [Set.mem_ofPred_eq, hname]; simp, hname⟩
  rw [hset, ← hinj.ncard_image, himg, (Option.some_injective ℕ).injOn.ncard_image, Set.ncard_coe_finset,
    List.toFinset_card_of_nodup (reserved_nodup _)]

theorem Booked.len (hS : Collisionless S) (hb : Booked v S s) :
    s.fs.pools.htbl.len = {name | s.book name ≠ none}.ncard := by
  rw [hb.table.len, hb.table.card hS.inj hS.unset]
  congr 1
  ext name
  exact not_congr ndxOf_eq_none

theorem takeEntry_none_length {fl : Freelist} (h : takeEntry fl = none) : fl.reserved.length = fl.len := by
  rw [Freelist.reserved, List.filter_eq_self.2, List.length_range]
  intro i _
  rw [takeEntry_none h i]
  rfl

theorem takeEntry_some_length {fl fl' : Freelist} {k : ℕ} (hok : fl.Ok) (h : takeEntry fl = some (k, fl')) :
    fl.reserved.length < fl.len := by
  have hlt := takeEntry_lt hok h
  have hfree := (takeEntry_some h).1
  have hle : fl.reserved.length ≤ (List.range fl.len).length := List.length_filter_le _ _
  rw [List.length_range] at hle
  refine lt_of_le_of_ne hle fun heq => ?_
  have hall := List.length_filter_eq_length_iff.1 (heq.trans (List.length_range).symm) k (List.mem_range.2 hlt)
  rw [hfree] at hall
  exact absurd hall (by decide)

theorem Booked.len_le (hb : Booked v S s) : s.fs.pools.freelist.reserved.length ≤ v.super.npools := by
  rw [← hb.npools, ← hb.dir.len]
  exact (List.length_filter_le _ _).trans (List.length_range).le

theorem entryReset_name {e : PoolEntry} {arg : PoolCreateArg} (n : ℕ) (he : Padded e.name) (hn : NameOk arg.name)
    (hlen : arg.nameLen = arg.name.length) :
    ∃ e', flaPoolEntryResetDefault env e arg n = .ok e' ∧ Padded e'.name ∧
      cstr e'.name = arg.name ++ (cstr e.name).drop arg.name.length := by
  obtain ⟨w, hw, hwlen, hname⟩ := he
  have hz : (0 : BitVec 8) ∉ arg.name ++ w.drop arg.name.length := by
    rw [List.mem_append]
    rintro (h | h)
    · exact hn.1 h
    · exact hw (List.mem_of_mem_drop h)
  have hn' := hn.2
  refine ⟨_, by rw [flaPoolEntryResetDefault, hname, hlen, memcpyName_padded _ hwlen hn, ok_bind], ⟨_, hz, ?_, rfl⟩, ?_⟩
  · simp only [List.length_append, List.length_drop]
    omega
  · simp only
    rw [cstr_padded hz, hname, cstr_padded hw]

theorem Booked.ndxOf_ne (hb : Booked v S s) {k : ℕ} {fl : Freelist} (htake : takeEntry s.fs.pools.freelist = some (k, fl))
    (name : PoolName) : s.ndxOf name ≠ some k := by
  intro hname
  have hfree := (takeEntry_some htake).1
  have hres := ((poolLive_iff hb.dir.len k).1 ((hb.live k).2 ⟨name, hname⟩)).2
  rw [hres] at hfree
  exact absurd hfree (by decide)

theorem update_names_inj {f : PoolName → Option ℕ} (hinj : ∀ a b i, f a = some i → f b = some i → a = b) {k : ℕ}
    (hfresh : ∀ a, f a ≠ some k) (name a b : PoolName) (i : ℕ) (ha : update f name (some k) a = some i)
    (hb : update f name (some k) b = some i) : a = b := by
  by_cases hne : a = name <;> by_cases hne' : b = name
  · rw [hne, hne']
  · rw [hne, update_self] at ha
    rw [update_of_ne hne', ← ha] at hb
    exact absurd hb (hfresh b)
  · rw [hne', update_self] at hb
    rw [update_of_ne hne, ← hb] at ha
    exact absurd ha (hfresh a)
  · rw [update_of_ne hne] at ha
    rw [update_of_ne hne'] at hb
    exact hinj a b i ha hb

/-- **Creating a new pool** takes the lowest free index; its entry keeps the end of a longer name left there. -/
theorem Booked.create_new (hg : Small v) (hS : Collisionless S) (hb : Booked v S s) (hm : env.mallocNew)
    {arg : PoolCreateArg} (harg : ArgOk s.fs.vol arg) (hcheck : csCheckPool s.fs arg.objNlb = 0) (hname : arg.name ∈ S)
    (hnone : s.book arg.name = none) {k : ℕ} {fl : Freelist}
    (htake : takeEntry s.fs.pools.freelist = some (k, fl)) :
    ∃ fs', flaBasePoolCreate env s.fs arg = .ok (0, some ⟨flaHashing.h2 arg.name, k⟩, fs') ∧
      (∀ i ≠ k, fs'.pools.entries i = s.fs.pools.entries i) ∧
      cstr (fs'.pools.entries k).name = arg.name ++ (s.stored k).drop arg.name.length ∧
      Booked v S (s.created arg (some ⟨flaHashing.h2 arg.name, k⟩) fs') := by
  obtain ⟨hn, hlen, -, hfits⟩ := harg
  obtain ⟨n, hcalc, hpos⟩ := fitsSlab_iff.1 hfits
  have hle := hg.le
  have hk : k < s.fs.npools := hb.dir.len ▸ takeEntry_lt hb.dir.ok htake
  have hk' : k < v.super.npools := hb.npools ▸ hk
  obtain ⟨r, htbl, hins, hr, htable⟩ := insert_refines hb.table hg.size_pos hg.size_le hS.inj hS.unset hname k
  have hroom : s.fs.pools.htbl.len ≠ 2 * v.super.npools := by
    have h1 := hb.len hS
    have h2 := hb.count
    have h3 := hb.len_le
    have h4 := hg.pos
    omega
  rw [if_neg hroom] at hr
  subst hr
  obtain ⟨e, hreset, hpad, hcstr⟩ := entryReset_name n (hb.names k) hn hlen
  obtain ⟨hnobj, hobj, hheads⟩ := entryReset_spec hreset
  have hopen := hb.open_none hg hS env hname hnone
  have hrun : flaBasePoolCreate env s.fs arg =
      .ok (0, some ⟨flaHashing.h2 arg.name, k⟩, poolMade s.fs k fl htbl e) := by
    have hn' := hn.2
    exact poolCreate_new hopen (by omega) hcalc hpos hcheck hm htake hk (by omega) hins hreset
  have hnp31 : s.fs.npools ≤ 2 ^ 31 := by rw [hb.npools]; omega
  obtain ⟨-, hdir, -⟩ := poolCreate_cases hb.dir hnp31 hrun
  have hlive : ∀ i, (poolMade s.fs k fl htbl e).PoolLive i ↔ i = k ∨ s.fs.PoolLive i :=
    poolMade_live (hb.dir.len ▸ hk) htake
  have hent : ∀ i ≠ k, (poolMade s.fs k fl htbl e).pools.entries i = s.fs.pools.entries i := fun i hi =>
    update_of_ne hi _ _
  have hentk : (poolMade s.fs k fl htbl e).pools.entries k = e := update_self ..
  have hbook : (s.created arg (some ⟨flaHashing.h2 arg.name, k⟩) (poolMade s.fs k fl htbl e)).book =
      update s.book arg.name (some (⟨flaHashing.h2 arg.name, k⟩, arg.objNlb)) := DirSys.created_new hnone _ _
  have hndx : (s.created arg (some ⟨flaHashing.h2 arg.name, k⟩) (poolMade s.fs k fl htbl e)).ndxOf =
      update s.ndxOf arg.name (some k) := by
    funext a
    rw [DirSys.ndxOf, hbook]
    by_cases ha : a = arg.name
    · rw [ha, update_self, update_self]; rfl
    · rw [update_of_ne ha, update_of_ne ha]; rfl
  have hfresh : ∀ a, s.ndxOf a ≠ some k := hb.ndxOf_ne htake
  refine ⟨_, hrun, hent, by rw [hentk, hcstr]; rfl, hb.vol, hdir, ?_, fun i => ?_, ?_, ?_, fun i hi q => ?_, fun i => ?_,
    fun h hh => ?_⟩
  · rw [hndx]
    exact htable
  · rw [hndx]
    refine (hlive i).trans ?_
    rw [hb.live i]
    constructor
    · rintro (rfl | ⟨a, ha⟩)
      · exact ⟨arg.name, update_self ..⟩
      · refine ⟨a, ?_⟩
        rw [update_of_ne fun h => by rw [h, ndxOf_eq_none.2 hnone] at ha; cases ha]
        exact ha
    · rintro ⟨a, ha⟩
      by_cases haa : a = arg.name
      · rw [haa, update_self] at ha
        exact Or.inl (Option.some.inj ha).symm
      · rw [update_of_ne haa] at ha
        exact Or.inr ⟨a, ha⟩
  · rw [hndx]
    exact update_names_inj hb.inj hfresh arg.name
  · rw [hbook]
    intro a h m ha
    by_cases haa : a = arg.name
    · rw [haa, update_self] at ha
      obtain ⟨rfl, rfl⟩ := Prod.mk.inj (Option.some.inj ha)
      rw [haa]
      refine ⟨rfl, ?_⟩
      show ((poolMade s.fs k fl htbl e).pools.entries k).objNlb = arg.objNlb
      rw [hentk, hobj]
    · rw [update_of_ne haa] at ha
      obtain ⟨h2, hobj'⟩ := hb.record a h m ha
      refine ⟨h2, ?_⟩
      have hne : h.ndx ≠ k := fun hk => hfresh a (ndxOf_eq_some.2 ⟨h, m, ha, hk⟩)
      show ((poolMade s.fs k fl htbl e).pools.entries h.ndx).objNlb = m
      rw [hent _ hne]
      exact hobj'
  · by_cases hik : i = k
    · show ((poolMade s.fs k fl htbl e).pools.entries i).head q = flaLinkedListNull
      rw [hik, hentk]
      exact hheads q
    · have hi' : ((poolMade s.fs k fl htbl e).pools.entries i).slabNobj ≠ 0 := hi
      show ((poolMade s.fs k fl htbl e).pools.entries i).head q = flaLinkedListNull
      rw [hent i hik] at hi' ⊢
      exact hb.heads i hi' q
  · show Padded ((poolMade s.fs k fl htbl e).pools.entries i).name
    by_cases hik : i = k
    · rw [hik, hentk]; exact hpad
    · rw [hent i hik]; exact hb.names i
  · rcases List.mem_append.1 hh with hh | hh
    · simp only [Option.toList_some, List.mem_singleton] at hh
      rw [hh]
      exact hk'
    · exact hb.issued h hh

theorem Booked.created_stays (hb : Booked v S s) {arg : PoolCreateArg} {h : Option PoolHandle}
    (hlt : ∀ h' ∈ h.toList, h'.ndx < v.super.npools) (hbk : h ≠ none → s.book arg.name ≠ none) :
    (s.created arg h s.fs).book = s.book ∧ Booked v S (s.created arg h s.fs) := by
  have hbook : (s.created arg h s.fs).book = s.book := by
    unfold DirSys.created
    cases h with
    | none => rfl
    | some h' =>
      obtain ⟨b, hb'⟩ := Option.ne_none_iff_exists'.1 (hbk (by simp))
      simp only [hb']
  have hndx : (s.created arg h s.fs).ndxOf = s.ndxOf := by
    funext a
    rw [DirSys.ndxOf, DirSys.ndxOf, hbook]
  refine ⟨hbook, hb.vol, hb.dir, by rw [hndx]; exact hb.table, by rw [hndx]; exact hb.live, by rw [hndx]; exact hb.inj,
    by rw [hbook]; exact hb.record, hb.heads, hb.names, fun h' hh => ?_⟩
  rcases List.mem_append.1 hh with hh | hh
  · exact hlt h' hh
  · exact hb.issued h' hh

/-- the book admits a create: the name is live with that object size, or it is not and a pool is left -/
def Creatable (s : DirSys) (arg : PoolCreateArg) : Prop :=
  (∃ h, s.book arg.name = some (h, arg.objNlb)) ∨
    (s.book arg.name = none ∧ {name | s.book name ≠ none}.ncard < s.fs.npools)

/-- what a create did, whatever failed: it returned 0 where the book admits it, or an error without a change, and with
memory and an admitted object size the error is the book's -/
structure CreateDone (v : Volume) (S : Set PoolName) (env : Env) (s : DirSys) (arg : PoolCreateArg) (err : ℤ)
    (h : Option PoolHandle) (fs' : Flexalloc) : Prop where
  admitted : err = 0 → Creatable s arg
  kept : err ≠ 0 → fs' = s.fs
  refused : err ≠ 0 → env.malloc → env.mallocNew → csCheckPool s.fs arg.objNlb = 0 → ¬ Creatable s arg
  entries : ∀ i, s.fs.PoolLive i → fs'.pools.entries i = s.fs.pools.entries i
  booked : Booked v S (s.created arg h fs')

theorem Booked.create_failed (hb : Booked v S s) {arg : PoolCreateArg} {err : ℤ} (herr : err ≠ 0)
    (hno : env.malloc → env.mallocNew → csCheckPool s.fs arg.objNlb = 0 → ¬ Creatable s arg) :
    CreateDone v S env s arg err none s.fs :=
  ⟨fun h => absurd h herr, fun _ => rfl, fun _ => hno, fun _ _ => rfl, (hb.created_stays (by simp) (by simp)).2⟩

theorem Booked.create_live (hg : Small v) (hS : Collisionless S) (hb : Booked v S s) (hm : env.malloc)
    {arg : PoolCreateArg} (hname : arg.name ∈ S) {h : PoolHandle} {n : ℕ} (hbk : s.book arg.name = some (h, n)) :
    ∃ err h fs', flaBasePoolCreate env s.fs arg = .ok (err, h, fs') ∧ CreateDone v S env s arg err h fs' := by
  have hopen := hb.open hg hS hm hname
  rw [hbk] at hopen
  have hlive : s.fs.PoolLive h.ndx := (hb.live _).2 ⟨_, ndxOf_eq_some.2 ⟨h, n, hbk, rfl⟩⟩
  have hlt := ((poolLive_iff hb.dir.len _).1 hlive).1
  have hobj := (hb.record _ h n hbk).2
  have hrun : flaBasePoolCreate env s.fs arg = _ := poolCreate_found hopen hlt
  by_cases hsize : n = arg.objNlb
  · rw [if_neg (by rw [hobj]; simp [hsize])] at hrun
    refine ⟨0, some h, s.fs, hrun, fun _ => .inl ⟨h, by rw [hbk, hsize]⟩, fun _ => rfl, fun h => absurd rfl h, fun _ _ => rfl,
      (hb.created_stays (fun h' hh => ?_) fun _ => by rw [hbk]; simp).2⟩
    simp only [Option.toList_some, List.mem_singleton] at hh
    rw [hh, ← hb.npools]
    exact hlt
  · rw [if_pos (by rw [hobj]; exact hsize)] at hrun
    refine ⟨-eINVAL, none, s.fs, hrun, hb.create_failed (by decide) fun _ _ _ hcan => ?_⟩
    rcases hcan with ⟨h', hh⟩ | ⟨hh, -⟩
    · rw [hbk] at hh
      exact hsize (Prod.mk.inj (Option.some.inj hh)).2
    · rw [hbk] at hh
      cases hh

/-- **Creating a pool**: found, refused or made, as the book says. A create that fails changes nothing. -/
theorem Booked.create (hg : Small v) (hS : Collisionless S) (hb : Booked v S s) {arg : PoolCreateArg}
    (hrec : Recalled s (env, .poolCreate arg)) (harg : ArgOk s.fs.vol arg) (hname : arg.name ∈ S) :
    ∃ err h fs', flaBasePoolCreate env s.fs arg = .ok (err, h, fs') ∧ CreateDone v S env s arg err h fs' := by
  obtain ⟨hn, hlen, -, hfits⟩ := id harg
  obtain ⟨n, hcalc, hpos⟩ := fitsSlab_iff.1 hfits
  have hlt : arg.nameLen < flaNameSizePool := by
    have := hn.2
    omega
  by_cases hlive : s.book arg.name ≠ none ∧ env.malloc
  · obtain ⟨⟨h, n⟩, hbk⟩ := Option.ne_none_iff_exists'.1 hlive.1
    exact hb.create_live hg hS hlive.2 hname hbk
  -- the name is not found, and unless it is live it is not there
  obtain ⟨e, hopen⟩ : ∃ e, flaBasePoolOpen env s.fs arg.name = .ok (e, none) := by
    by_cases hm : env.malloc
    · exact ⟨-1, hb.open_none hg hS env hname (by_contra fun h => hlive ⟨h, hm⟩)⟩
    · exact hb.open_refused hg hS hm hname
  by_cases hno : csCheckPool s.fs arg.objNlb ≠ 0 ∨ ¬ env.mallocNew
  · obtain ⟨err, herr, hrun⟩ := poolCreate_refused hopen hlt hcalc hpos hno
    exact ⟨err, none, s.fs, hrun, hb.create_failed herr fun _ hnew hcheck => hno.elim (absurd hcheck) (absurd hnew)⟩
  obtain ⟨hcheck, hnew⟩ := not_or.1 hno
  rw [not_not] at hcheck hnew
  have hbk : s.book arg.name = none := by
    by_contra hsome
    exact hlive ⟨hsome, hrec (Option.isSome_iff_ne_none.2 hsome) hnew⟩
  cases htake : takeEntry s.fs.pools.freelist with
  | none =>
    have hrun := poolCreate_absent hopen hlt hcalc hpos hcheck hnew
    rw [htake] at hrun
    refine ⟨1, none, s.fs, hrun, hb.create_failed (by decide) fun _ _ _ hcan => ?_⟩
    rcases hcan with ⟨h', hh⟩ | ⟨-, hroom⟩
    · rw [hbk] at hh
      cases hh
    · rw [hb.count, takeEntry_none_length htake, hb.dir.len] at hroom
      exact absurd hroom (lt_irrefl _)
  | some r =>
    obtain ⟨k, fl⟩ := r
    obtain ⟨fs', hrun, hent, -, hb'⟩ := hb.create_new hg hS hnew harg hcheck hname hbk htake
    refine ⟨0, _, fs', hrun, fun _ => .inr ⟨hbk, ?_⟩, fun h => absurd rfl h, fun h => absurd rfl h,
      fun i hi => hent i ?_, hb'⟩
    · have hroom := takeEntry_some_length hb.dir.ok htake
      rwa [hb.dir.len, ← hb.count] at hroom
    · rintro rfl
      have hfree := (takeEntry_some htake).1
      rw [((poolLive_iff hb.dir.len i).1 hi).2] at hfree
      exact absurd hfree (by decide)

theorem Booked.distinct (hb : Booked v S s) {i j : ℕ} (hi : i < 2 * v.super.npools)
    (hj : j < 2 * v.super.npools) (hoi : Occ s.fs.pools.htbl.tbl i) (hoj : Occ s.fs.pools.htbl.tbl j)
    (hval : (s.fs.pools.htbl.tbl i).val = (s.fs.pools.htbl.tbl j).val) : i = j := by
  obtain ⟨a, -, hna, hai⟩ := hb.table.live_key hi hoi
  obtain ⟨b, -, hnb, hbj⟩ := hb.table.live_key hj hoj
  have hab : a = b := hb.inj a b _ hna (hval ▸ hnb)
  refine hb.table.table.distinct i hi j hj (by simp) (by simp) hoi ?_
  rw [← hai, ← hbj, hab]

theorem Booked.values (hS : Collisionless S) (hb : Booked v S s) (x : ℕ) :
    (∃ i < 2 * v.super.npools, Occ s.fs.pools.htbl.tbl i ∧ (s.fs.pools.htbl.tbl i).val = x) ↔
      x ∈ s.fs.pools.freelist.reserved := by
  refine Iff.trans ?_ (hb.live x).symm
  constructor
  · rintro ⟨i, hi, ho, rfl⟩
    obtain ⟨a, -, ha, -⟩ := hb.table.live_key hi ho
    exact ⟨a, ha⟩
  · rintro ⟨a, ha⟩
    have haS := hb.table.dom a (by rw [ha]; simp)
    obtain ⟨i, hi, -, hx, hv⟩ := (hb.table.map a haS x).1 ha
    refine ⟨i, hi, ?_, hv⟩
    unfold Occ
    rw [hx]
    exact hS.unset a haS

/-- the name a call brings in is in `S` -/
def NamesIn (S : Set PoolName) : DirOp → Prop
  | .poolCreate arg => arg.name ∈ S
  | .poolOpen name => name ∈ S
  | .poolDestroy _ => True

/-- **One call** keeps the book in step with the directory, and touches no other live pool. -/
theorem dirStep_booked (hg : Small v) (hS : Collisionless S) (hb : Booked v S s)
    (hstored : ∀ i < v.super.npools, s.stored i ∈ S) {x : Env × DirOp} (hin : NamesIn S x.2) (h : dirStep s x = some t) :
    Booked v S t ∧ ∀ name handle n, s.book name = some (handle, n) → x.2 ≠ .poolDestroy handle →
      t.book name = some (handle, n) ∧ t.stored handle.ndx = s.stored handle.ndx := by
  obtain ⟨env, op⟩ := x
  obtain ⟨hrec, hlegal, err, hperf⟩ := dirStep_eq_some h
  cases op with
  | poolCreate arg =>
    obtain ⟨err', hnd, fs', hrun, -, -, -, hent, hb'⟩ := hb.create hg hS hrec hlegal hin
    obtain ⟨r, hr, hres⟩ := bind_eq_ok hperf
    rw [hrun] at hr
    cases hr
    cases hres
    refine ⟨hb', fun name handle n hbook _ => ⟨?_, ?_⟩⟩
    · exact s.created_book arg hnd fs' hbook
    · have hlive : s.fs.PoolLive handle.ndx := (hb.live _).2 ⟨name, ndxOf_eq_some.2 ⟨handle, n, hbook, rfl⟩⟩
      show cstr (fs'.pools.entries handle.ndx).name = _
      rw [hent _ hlive]
      rfl
  | poolOpen name =>
    obtain ⟨r, hr, hres⟩ := bind_eq_ok hperf
    cases hres
    refine ⟨⟨hb.vol, hb.dir, hb.table, hb.live, hb.inj, hb.record, hb.heads, hb.names, fun h hh => ?_⟩,
      fun _ _ _ hbook _ => ⟨hbook, rfl⟩⟩
    rcases List.mem_append.1 hh with hh | hh
    · -- the handle that was found is one of the book
      by_cases hm : env.malloc
      · rw [hb.open hg hS hm hin] at hr
        cases hr
        cases hbk : s.book name with
        | none => rw [hbk] at hh; cases hh
        | some b =>
          obtain ⟨h', n⟩ := b
          rw [hbk] at hh
          simp only [Option.toList_some, List.mem_singleton] at hh
          rw [hh, ← hb.npools]
          exact ((poolLive_iff hb.dir.len _).1 ((hb.live _).2 ⟨name, ndxOf_eq_some.2 ⟨h', n, hbk, rfl⟩⟩)).1
      · obtain ⟨e, hopen⟩ := hb.open_refused hg hS hm hin
        rw [hopen] at hr
        cases hr
        cases hh
    · exact hb.issued h hh
  | poolDestroy handle =>
    have hlt := hb.issued handle hlegal
    obtain ⟨err', hck, hiff⟩ := hb.destroyCheck hg hS hlt (hstored _ hlt)
    obtain ⟨r, hr, hres⟩ := bind_eq_ok hperf
    by_cases herr : err' = 0
    · obtain ⟨n, hbook⟩ := hiff.1 herr
      obtain ⟨fs', hrun, hent, -, hb'⟩ := hb.destroy hg hS (hstored _ hlt) hbook
      rw [hrun] at hr
      cases hr
      rw [if_pos rfl] at hres
      cases hres
      refine ⟨hb', fun name h' m hbk hne => ⟨?_, ?_⟩⟩
      · have hne' : h' ≠ handle := fun h => hne (by rw [h])
        simp only [DirSys.forgotten, hbk, Option.map_some, Option.some.injEq, if_neg hne']
      · show cstr (fs'.pools.entries h'.ndx).name = _
        rw [hent]
        rfl
    · have hrun := poolDestroy_checked hck herr
      rw [hrun] at hr
      cases hr
      rw [if_neg herr] at hres
      cases hres
      exact ⟨hb, fun _ _ _ hbook _ => ⟨hbook, rfl⟩⟩

end Calls

/-! ## Runs -/

/-- the names the calls bring in, and the strings stored in the entries in every state passed through, are in `S` -/
structure StringsIn (S : Set PoolName) (s : DirSys) (calls : List (Env × DirOp)) : Prop where
  names : ∀ x ∈ calls, NamesIn S x.2
  stored : ∀ pre u, pre <+: calls → run dirStep s pre = some u → ∀ i < u.fs.npools, u.stored i ∈ S

section Runs

variable {dev mdDev : Dev} {hasMd : Bool} {npools slabNlb : ℕ} {geo : Geo} {fs : Flexalloc} {v : Volume} {S : Set PoolName}
variable {s t : DirSys} {calls : List (Env × DirOp)}

theorem run_booked (hg : Small v) (hS : Collisionless S) (hb : Booked v S s) (hin : StringsIn S s calls)
    (hrun : run dirStep s calls = some t) : Booked v S t := by
  refine run_inv_visited (Q := fun u => ∀ i < u.fs.npools, u.stored i ∈ S) (fun u x v hu hq hr hstep => ?_) hb hin.names
    hin.stored hrun
  refine (dirStep_booked hg hS hu (fun i hi => ?_) hr hstep).1
  exact hq i (by rw [hu.npools]; exact hi)

theorem StringsIn.last (hin : StringsIn S s calls) (hrun : run dirStep s calls = some t) (i : ℕ) (hi : i < t.fs.npools) :
    t.stored i ∈ S := hin.stored calls t (List.prefix_refl _) hrun i hi

/-- what the directory answers in state `s`, for names in `S` -/
structure DirectoryConsistent (S : Set PoolName) (s : DirSys) : Prop where
  /-- no two slots of the table have the same value -/
  distinct : ∀ i < s.fs.pools.htbl.tblSize, ∀ j < s.fs.pools.htbl.tblSize, Occ s.fs.pools.htbl.tbl i →
    Occ s.fs.pools.htbl.tbl j → (s.fs.pools.htbl.tbl i).val = (s.fs.pools.htbl.tbl j).val → i = j
  /-- the values are the indices taken in the freelist -/
  values : ∀ v, (∃ i < s.fs.pools.htbl.tblSize, Occ s.fs.pools.htbl.tbl i ∧ (s.fs.pools.htbl.tbl i).val = v) ↔
    v ∈ s.fs.pools.freelist.reserved
  len : s.fs.pools.htbl.len = flaFlistNumReserved s.fs.pools.freelist ∧ s.fs.pools.htbl.len ≤ s.fs.npools
  /-- an open finds exactly the live pools, with the handle of their creation -/
  opens : ∀ env : Env, env.malloc → ∀ name ∈ S, flaBasePoolOpen env s.fs name = .ok (match s.book name with
    | some (h, _) => (0, some h)
    | none => (-1, none))
  creates : ∀ (env : Env) arg, env.malloc → env.mallocNew → ArgOk s.fs.vol arg → arg.name ∈ S → ∃ err h fs',
    flaBasePoolCreate env s.fs arg = .ok (err, h, fs') ∧
      (err = 0 ↔ (∃ h, s.book arg.name = some (h, arg.objNlb)) ∨
        (s.book arg.name = none ∧ {name | s.book name ≠ none}.ncard < s.fs.npools)) ∧
      (err ≠ 0 → fs' = s.fs)
  /-- a destroy that succeeds was for the handle of a live pool and removes that pool only; one that fails changes
  nothing -/
  destroys : ∀ handle ∈ s.issued, ∃ err fs', flaBasePoolDestroy s.fs handle = .ok (err, fs') ∧
    if err = 0 then ∃ name n, s.book name = some (handle, n) ∧
      (∀ i, i ∈ fs'.pools.freelist.reserved ↔ i ∈ s.fs.pools.freelist.reserved ∧ i ≠ handle.ndx) ∧
      (fs'.pools.entries = s.fs.pools.entries) ∧
      ∀ env : Env, env.malloc → ∀ k ∈ S, flaBasePoolOpen env fs' k =
        if k = name then .ok (-1, none) else flaBasePoolOpen env s.fs k
    else fs' = s.fs

/-- **The pool directory is consistent** in every state reached by creates, opens and destroys. -/
theorem directory_consistent (hf : Formatted dev npools slabNlb geo) (hnp : geo.npools ≤ 2 ^ 15) (disk : Bytes)
    (hS : Collisionless S) (hin : StringsIn S (.init dev geo disk) calls)
    (hrun : run dirStep (.init dev geo disk) calls = some s) : DirectoryConsistent S s := by
  have hg : Small (.formatted dev false geo) := ⟨hf.bounds.2.2.1, hnp⟩
  have hb := run_booked hg hS ((hf.mounted disk).booked hnp hS) hin hrun
  have hle := hg.le
  refine ⟨fun i hi j hj => ?_, fun v => ?_, ⟨?_, ?_⟩, fun env hm name hn => hb.open hg hS hm hn,
    fun env arg hm hnew harg hn => ?_, fun handle hh => ?_⟩
  · rw [hb.table.size] at hi hj
    exact hb.distinct hi hj
  · rw [hb.table.size]
    exact hb.values hS v
  · rw [numReserved_eq hb.dir.ok (by rw [hb.dir.len, hb.npools]; omega), hb.len hS, hb.count]
  · rw [hb.len hS, hb.count, hb.npools]
    exact hb.len_le
  · have hrec : Recalled s (env, .poolCreate arg) := fun _ _ => hm
    obtain ⟨err, h, fs', hrun', hdone⟩ := hb.create hg hS hrec harg hn
    have hcns : s.fs.vol.cs = .cns := (congrArg Volume.cs hb.vol).trans hf.cns
    have hcheck : csCheckPool s.fs arg.objNlb = 0 := by rw [csCheckPool, hcns]
    refine ⟨err, h, fs', hrun', ⟨hdone.admitted, fun hcan => ?_⟩, hdone.kept⟩
    by_contra herr
    exact hdone.refused herr hm hnew hcheck hcan
  · have hlt := hb.issued handle hh
    have hst := hin.last hrun handle.ndx (by rw [hb.npools]; exact hlt)
    obtain ⟨err, hck, hiff⟩ := hb.destroyCheck hg hS hlt hst
    by_cases herr : err = 0
    · obtain ⟨n, hbook⟩ := hiff.1 herr
      obtain ⟨fs', hrun', hent, hlive, hb'⟩ := hb.destroy hg hS hst hbook
      refine ⟨0, fs', hrun', ?_⟩
      rw [if_pos rfl]
      refine ⟨s.stored handle.ndx, n, hbook, hlive, hent, fun env hm k hk => ?_⟩
      have hopen : flaBasePoolOpen env fs' k = _ := hb'.open hg hS hm hk
      rw [hb.book_forgotten hbook] at hopen
      rw [hopen, hb.open hg hS hm hk]
      by_cases hkn : k = s.stored handle.ndx
      · rw [if_pos hkn, hkn, update_self]
      · rw [if_neg hkn, update_of_ne hkn]
    · exact ⟨err, s.fs, poolDestroy_checked hck herr, by rw [if_neg herr]⟩

/-- a create from `s`: the entry carries the name it was asked for, and a destroy through the handle succeeds in every
later state, as long as the pool has not been destroyed through it before -/
def CreatedDestroyable (S : Set PoolName) (s : DirSys) (arg : PoolCreateArg) : Prop :=
  ∀ (env : Env) (h : PoolHandle) (fs' : Flexalloc), flaBasePoolCreate env s.fs arg = .ok (0, some h, fs') →
    cstr (fs'.pools.entries h.ndx).name = arg.name ∧ flaHashing.h2 (fs'.pools.entries h.ndx).name = h.h2 ∧
    ∀ later t, StringsIn S (s.created arg (some h) fs') later → (∀ x ∈ later, x.2 ≠ .poolDestroy h) →
      run dirStep (s.created arg (some h) fs') later = some t → ∃ fs'', flaBasePoolDestroy t.fs h = .ok (0, fs'')

/-- a live pool stays in the book, with the string stored for it, until it is destroyed -/
theorem run_keeps (hg : Small v) (hS : Collisionless S) (hb : Booked v S s) (hin : StringsIn S s calls)
    {name : PoolName} {h : PoolHandle} {n : ℕ} (hbook : s.book name = some (h, n))
    (hno : ∀ x ∈ calls, x.2 ≠ .poolDestroy h) (hrun : run dirStep s calls = some t) :
    Booked v S t ∧ t.book name = some (h, n) ∧ t.stored h.ndx = s.stored h.ndx := by
  refine run_inv_visited (Q := fun u => ∀ i < u.fs.npools, u.stored i ∈ S)
    (R := fun x => NamesIn S x.2 ∧ x.2 ≠ .poolDestroy h)
    (P := fun u => Booked v S u ∧ u.book name = some (h, n) ∧ u.stored h.ndx = s.stored h.ndx)
    (fun u x w hu hq hr hstep => ?_) ⟨hb, hbook, rfl⟩ (fun x hx => ⟨hin.names x hx, hno x hx⟩) hin.stored hrun
  obtain ⟨hbu, hbk, hst⟩ := hu
  obtain ⟨hbw, hkeep⟩ := dirStep_booked hg hS hbu (fun i hi => hq i (by rw [hbu.npools]; exact hi)) hr.1 hstep
  obtain ⟨hbk', hst'⟩ := hkeep name h n hbk hr.2
  exact ⟨hbw, hbk', hst'.trans hst⟩

/-- **Created pools can be destroyed** exactly when the string left in the entry that is taken is not longer than the
name, in every state reached by creates, opens and destroys on any volume. -/
theorem created_destroyable_iff (hm : Mounted dev mdDev hasMd npools slabNlb geo fs) (hnp : geo.npools ≤ 2 ^ 15)
    (hS : Collisionless S) (hin : StringsIn S ⟨fs, fun _ => none, []⟩ calls)
    (hrun : run dirStep ⟨fs, fun _ => none, []⟩ calls = some s) {arg : PoolCreateArg} (harg : ArgOk s.fs.vol arg)
    (hcheck : csCheckPool s.fs arg.objNlb = 0) (hname : arg.name ∈ S) (hnew : s.book arg.name = none) {k : ℕ} {fl : Freelist}
    (htake : takeEntry s.fs.pools.freelist = some (k, fl)) :
    CreatedDestroyable S s arg ↔ (s.stored k).length ≤ arg.name.length := by
  have hg : Small (.formatted dev hasMd geo) := ⟨(accepted_bounds hm.accepted).1, hnp⟩
  have hb := run_booked hg hS (hm.booked hnp hS) hin hrun
  constructor
  · intro hcd
    have hmem : Env.reliable.mallocNew := rfl
    obtain ⟨fs', hcreate, -, hcstr, -⟩ := hb.create_new hg hS hmem harg hcheck hname hnew htake
    have hstr := (hcd .reliable _ fs' hcreate).1
    rw [hcstr] at hstr
    have hnil := List.append_right_eq_self.1 hstr
    exact List.drop_eq_nil_iff.1 hnil
  · intro hle env h fs' hcreate
    -- a create that returned a handle had memory for it
    have hmem : env.mallocNew := by
      by_contra hno
      obtain ⟨hn, hlen, -, hfits⟩ := harg
      obtain ⟨n, hcalc, hpos⟩ := fitsSlab_iff.1 hfits
      obtain ⟨err, herr, hrun'⟩ := poolCreate_refused (hb.open_none hg hS env hname hnew) (by have := hn.2; omega) hcalc hpos
        (.inr hno)
      rw [hrun'] at hcreate
      cases hcreate
    obtain ⟨fs₁, hcreate', -, hcstr, hb'⟩ := hb.create_new hg hS hmem harg hcheck hname hnew htake
    rw [hcreate'] at hcreate
    cases hcreate
    rw [List.drop_eq_nil_iff.2 hle, List.append_nil] at hcstr
    refine ⟨hcstr, by rw [← h2_cstr, hcstr], fun later t hin' hno hrun' => ?_⟩
    have hbook : (s.created arg (some ⟨flaHashing.h2 arg.name, k⟩) fs').book arg.name =
        some (⟨flaHashing.h2 arg.name, k⟩, arg.objNlb) := by
      rw [DirSys.created_new hnew, update_self]
    obtain ⟨hbt, hbk, hst⟩ := run_keeps hg hS hb' hin' hbook hno hrun'
    have hst' : t.stored k = arg.name := hst.trans hcstr
    have hbk' : t.book (t.stored k) = some (⟨flaHashing.h2 arg.name, k⟩, arg.objNlb) := by rw [hst']; exact hbk
    have hin : t.stored (⟨flaHashing.h2 arg.name, k⟩ : PoolHandle).ndx ∈ S := hst' ▸ hname
    obtain ⟨fs'', hdestroy, -⟩ := hbt.destroy hg hS hin hbk'
    exact ⟨fs'', hdestroy⟩

end Runs

/-! ## On a small device -/

def namedArg (name : PoolName) : PoolCreateArg := ⟨0, name, name.length, 1, 0, 0⟩

/-- the names `ab` and `a`, and the empty string of entries never used -/
def smallNames : Set PoolName := {name | name ∈ ([[], [97], [97, 98]] : List PoolName)}

theorem smallNames_collisionless : Collisionless smallNames := by
  refine ⟨fun a ha b hb h => ?_, fun a ha => ?_⟩
  · have hall : ∀ a ∈ ([[], [97], [97, 98]] : List PoolName), ∀ b ∈ ([[], [97], [97, 98]] : List PoolName),
        flaHashing.h2 a = flaHashing.h2 b → a = b := by decide
    exact hall a ha b hb h
  · have hall : ∀ a ∈ ([[], [97], [97, 98]] : List PoolName), flaHashing.h2 a ≠ flaHtblEntryUnset := by decide
    exact hall a ha

def dirReliably (ops : List DirOp) : List (Env × DirOp) := ops.map (Env.reliable, ·)

/-- a pool `ab` is created and destroyed, so that its name is left in the entry -/
def leftover : List (Env × DirOp) := dirReliably [.poolCreate (namedArg [97, 98]), .poolDestroy ⟨6363201, 0⟩]

theorem leftover_strings : StringsIn smallNames (.init smallDev smallGeo 0) leftover := by
  refine ⟨fun x hx => ?_, fun pre u hpre hu i hi => ?_⟩
  · have hall : ∀ x ∈ leftover, match x.2 with
        | .poolCreate arg => arg.name ∈ ([[], [97], [97, 98]] : List PoolName)
        | .poolOpen name => name ∈ ([[], [97], [97, 98]] : List PoolName)
        | .poolDestroy _ => True := by
      intro x hx
      fin_cases hx <;> simp [namedArg]
    have := hall x hx
    obtain ⟨env, op⟩ := x
    cases op <;> exact this
  · have hall : ∀ n < 3, (run dirStep (.init smallDev smallGeo 0) (leftover.take n)).all (fun u =>
        (List.range u.fs.npools).all fun i => u.stored i ∈ ([[], [97], [97, 98]] : List PoolName)) = true := by
      decide +kernel
    have hlen : pre.length < 3 := Nat.lt_succ_of_le hpre.length_le
    have hthis := hall pre.length hlen
    rw [← List.prefix_iff_eq_take.1 hpre, hu, Option.all_some, List.all_eq_true] at hthis
    have hmem := hthis i (List.mem_range.2 hi)
    rw [decide_eq_true_eq] at hmem
    exact hmem

theorem leftover_reached : ∃ s, run dirStep (.init smallDev smallGeo 0) leftover = some s ∧ s.book [97] = none ∧
    s.book [97, 98] = none ∧ s.stored 0 = [97, 98] ∧ (∃ fl, takeEntry s.fs.pools.freelist = some (0, fl)) ∧
    ArgOk s.fs.vol (namedArg [97]) ∧ ArgOk s.fs.vol (namedArg [97, 98]) ∧ csCheckPool s.fs 1 = 0 := by
  obtain ⟨s, hs, hval⟩ := Option.map_eq_some_iff.1 (show (run dirStep (.init smallDev smallGeo 0) leftover).map
    (fun s => decide (s.book [97] = none ∧ s.book [97, 98] = none ∧ s.stored 0 = [97, 98] ∧
      (takeEntry s.fs.pools.freelist).map Prod.fst = some 0 ∧ ArgOk s.fs.vol (namedArg [97]) ∧
      ArgOk s.fs.vol (namedArg [97, 98]) ∧ csCheckPool s.fs 1 = 0)) = some true by decide +kernel)
  rw [decide_eq_true_eq] at hval
  obtain ⟨ha, hab, hst, htake, hargs⟩ := hval
  obtain ⟨⟨k, fl⟩, hfl, hk⟩ := Option.map_eq_some_iff.1 htake
  obtain rfl : k = 0 := hk
  exact ⟨s, hs, ha, hab, hst, ⟨fl, hfl⟩, hargs⟩

/-- the directory after a create and a destroy -/
theorem directory_consistent_small : ∃ s, run dirStep (.init smallDev smallGeo 0) leftover = some s ∧
    DirectoryConsistent smallNames s := by
  obtain ⟨s, hs, -⟩ := leftover_reached
  exact ⟨s, hs, directory_consistent smallGeo_formatted (by decide +kernel) 0 smallNames_collisionless leftover_strings hs⟩

/-- after `ab`, its own name can be used again, and the shorter `a` cannot -/
theorem created_destroyable_small : ∃ s, run dirStep (.init smallDev smallGeo 0) leftover = some s ∧
    CreatedDestroyable smallNames s (namedArg [97, 98]) ∧ ¬ CreatedDestroyable smallNames s (namedArg [97]) := by
  obtain ⟨s, hs, ha, hab, hst, ⟨fl, htake⟩, harga, hargab, hcheck⟩ := leftover_reached
  have hnp : smallGeo.npools ≤ 2 ^ 15 := by decide +kernel
  refine ⟨s, hs, ?_, fun h => ?_⟩
  · refine (created_destroyable_iff small_mounted hnp smallNames_collisionless leftover_strings hs hargab hcheck ?_ hab
      htake).2 (by rw [hst]; decide)
    show ([97, 98] : PoolName) ∈ ([[], [97], [97, 98]] : List PoolName)
    decide
  · have := (created_destroyable_iff small_mounted hnp smallNames_collisionless leftover_strings hs harga hcheck (by
      show ([97] : PoolName) ∈ ([[], [97], [97, 98]] : List PoolName)
      decide) ha htake).1 h
    rw [hst] at this
    exact absurd this (by decide)

/-- `ab` is created and destroyed, then `a` is created in the same entry: the name stored is `ab`, and the destroy of
the new pool returns 1 -/
theorem leftover_name_blocks_destroy : ∃ s h fs', run dirStep (.init smallDev smallGeo 0) leftover = some s ∧
    flaBasePoolCreate .reliable s.fs (namedArg [97]) = .ok (0, some h, fs') ∧ s.book [97] = none ∧
    cstr (fs'.pools.entries h.ndx).name = [97, 98] ∧ ∃ fs'', flaBasePoolDestroy fs' h = .ok (1, fs'') := by
  obtain ⟨s, hs, hval⟩ := Option.map_eq_some_iff.1 (show (run dirStep (.init smallDev smallGeo 0) leftover).map
    (fun s => decide (s.book [97] = none ∧ ∃ r ∈ (flaBasePoolCreate .reliable s.fs (namedArg [97])).toOption,
      r.1 = 0 ∧ r.2.1 = some ⟨97, 0⟩ ∧ cstr (r.2.2.pools.entries 0).name = [97, 98] ∧
        ∃ r' ∈ (flaBasePoolDestroy r.2.2 ⟨97, 0⟩).toOption, r'.1 = 1)) = some true by decide +kernel)
  rw [decide_eq_true_eq] at hval
  obtain ⟨ha, ⟨err, h, fs'⟩, hcreate, rfl, rfl, hstr, ⟨err', fs''⟩, hdestroy, rfl⟩ := hval
  exact ⟨s, ⟨97, 0⟩, fs', hs, toOption_eq_some hcreate, ha, hstr, fs'', toOption_eq_some hdestroy⟩

end FlexAlloc
