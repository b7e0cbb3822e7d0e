/-
Which arguments `fla_base_pool_create` copes with.

The call divides by `obj_nlb` before it has looked at it, and compares `name_len` with the size of the field as a signed
number only. `CreateTotal` is what a create should do: return, with 0 or with the pools as they were, having copied fewer
than `FLA_NAME_SIZE_POOL` bytes of the name. `CreateOk` says when it does, by the checks in the order of the source.

- `takeEntry_undone`: an index taken and given back leaves the freelist word for word as it was.
- `enter_total_iff`: entering a pool at an index just taken.
- `pool_create_total_iff`: in every state a session reaches, for every argument. `pool_create_divides` has `obj_nlb` 0.
- `insert_ends`: an unset slot in the hash table is enough for the insert to end.
-/
import FlexAlloc.FailedDestroy
import FlexAlloc.FreeQueue
import FlexAlloc.PoolMap
import FlexAlloc.Registry

namespace FlexAlloc

open FlexAlloc.Core Function

/-! ## Taking an index back -/

theorem words_eq_of_isFree {fl fl' : Freelist} (hlen : fl'.len = fl.len) (h : ∀ i, fl'.isFree i = fl.isFree i) :
    fl' = fl := by
  have hsize : fl'.words.length = fl.words.length := by rw [fl'.size, fl.size, hlen]
  have hwords : fl'.words = fl.words := eq_of_bit (by decide) hsize h
  cases fl'
  cases fl
  cases hlen
  cases hwords
  rfl

theorem takeEntry_undone {fl fl' fl'' : Freelist} {k : ℕ} (htake : takeEntry fl = some (k, fl')) (hlen : fl''.len = fl'.len)
    (hfree : ∀ j, fl''.isFree j = (fl'.isFree j || decide (j = k))) : fl'' = fl := by
  obtain ⟨hk, -, hlen', hrest⟩ := takeEntry_some htake
  refine words_eq_of_isFree (hlen.trans hlen') fun i => ?_
  rw [hfree, hrest]
  by_cases hi : i = k
  · simp [hi, hk]
  · simp [hi]

/-! ## What a create should do -/

/-- the pools are as they were -/
structure PoolsKept (fs fs' : Flexalloc) : Prop where
  flist : fs'.pools.freelist = fs.pools.freelist
  htbl : fs'.pools.htbl = fs.pools.htbl
  entries : fs'.pools.entries = fs.pools.entries

theorem PoolsKept.refl (fs : Flexalloc) : PoolsKept fs fs := ⟨rfl, rfl, rfl⟩

/-- the names are as they were but for fewer than `FLA_NAME_SIZE_POOL` bytes, taken from a buffer -/
def NamesBounded (buf : List (BitVec 8)) (fs fs' : Flexalloc) : Prop :=
  ∀ i, ∃ n < flaNameSizePool, (fs'.pools.entries i).name = buf.take n ++ (fs.pools.entries i).name.drop n

theorem PoolsKept.names {fs fs' : Flexalloc} (h : PoolsKept fs fs') (buf : List (BitVec 8)) :
    NamesBounded buf fs fs' := fun i => ⟨0, by decide, by simp [h.entries]⟩

/-- a call that returns, with 0 or with the pools as they were, having copied less than a full name -/
def Total (fs : Flexalloc) (buf : List (BitVec 8)) (x : Ret (ℤ × Option PoolHandle × Flexalloc)) : Prop :=
  ∃ err handle fs', x = .ok (err, handle, fs') ∧ NamesBounded buf fs fs' ∧ (err = 0 ∨ PoolsKept fs fs')

/-- the caller's buffer: the name, its terminator, and what lies behind it -/
def nameBuf (env : Env) (arg : PoolCreateArg) : List (BitVec 8) := arg.name ++ 0 :: env.pastName

def CreateTotal (env : Env) (fs : Flexalloc) (arg : PoolCreateArg) : Prop :=
  Total fs (nameBuf env arg) (flaBasePoolCreate env fs arg)

/-! ## When it does -/

/-- the name is found -/
def Known (fs : Flexalloc) (name : List (BitVec 8)) : Prop := ∃ i, htblLookup flaHashing fs.pools.htbl name = .ok (some i)

/-- the probe of `htbl_insert` comes to an unset slot or to the hash of the name -/
def InsertEnds (t : Htbl) (name : List (BitVec 8)) (ndx : ℕ) : Prop :=
  ∃ r, htblInsertLoop t.tblSize (2 ^ 16 * t.tblSize) t.tbl (flaHtblCompress (flaHashing.h1 name) t.tblSize)
    ⟨flaHashing.h2 name, ndx, 0⟩ = .ok r

/-- the hash table is full by its count, or takes the name, and the length given is within the buffer of the caller -/
def EnterOk (env : Env) (fs : Flexalloc) (arg : PoolCreateArg) (ndx : ℕ) : Prop :=
  fs.pools.htbl.len = fs.pools.htbl.tblSize ∨
    InsertEnds fs.pools.htbl arg.name ndx ∧ 0 ≤ arg.nameLen ∧ arg.nameLen ≤ (nameBuf env arg).length

/-- the arguments a create copes with: the pool exists, the name is too long, or the objects have blocks and either some
check refuses them or the pool can be entered -/
def CreateOk (env : Env) (fs : Flexalloc) (arg : PoolCreateArg) : Prop :=
  (env.malloc ∧ Known fs arg.name) ∨ (flaNameSizePool : ℤ) ≤ arg.nameLen ∨
    arg.objNlb ≠ 0 ∧ (flaCalcObjsInSlab fs.vol arg.objNlb = .ok 0 ∨ csCheckPool fs arg.objNlb ≠ 0 ∨ ¬ env.mallocNew ∨
      ∀ k fl, takeEntry fs.pools.freelist = some (k, fl) → EnterOk env fs arg k)

theorem insert_ends {t : Htbl} {name : List (BitVec 8)} (ndx : ℕ) {i : ℕ} (hi : i < t.tblSize) (hu : ¬ Occ t.tbl i) :
    InsertEnds t name ndx := by
  have hhome : flaHtblCompress (flaHashing.h1 name) t.tblSize < t.tblSize := Nat.mod_lt _ (by omega)
  obtain ⟨m, hm, rfl⟩ := exists_pos hhome hi
  exact insertLoop_ends _ m hhome hm hu (by omega)

section Create

variable {env : Env} {fs : Flexalloc} {arg : PoolCreateArg}

theorem not_total_error (buf : List (BitVec 8)) (f : Fault) : ¬ Total fs buf (.error f) := by
  rintro ⟨err, handle, fs', hrun, -⟩
  cases hrun

theorem total_same (buf : List (BitVec 8)) (err : ℤ) (handle : Option PoolHandle) :
    Total fs buf (.ok (err, handle, fs)) :=
  ⟨err, handle, fs, rfl, (PoolsKept.refl fs).names buf, .inr (.refl fs)⟩

/-! ## Entering a pool -/

theorem nameBuf_length (env : Env) (arg : PoolCreateArg) :
    ((nameBuf env arg).length : ℤ) = arg.name.length + 1 + env.pastName.length := by
  simp only [nameBuf, List.length_append, List.length_cons]
  omega

theorem memcpyName_ok {dst : List (BitVec 8)} (h0 : 0 ≤ arg.nameLen) (hn : arg.nameLen ≤ (nameBuf env arg).length) :
    memcpyName dst arg.name env.pastName arg.nameLen =
      .ok ((nameBuf env arg).take arg.nameLen.toNat ++ dst.drop arg.nameLen.toNat) := by
  rw [nameBuf_length] at hn
  exact if_neg (by omega)

theorem memcpyName_out {dst : List (BitVec 8)} (h : ¬ (0 ≤ arg.nameLen ∧ arg.nameLen ≤ (nameBuf env arg).length)) :
    memcpyName dst arg.name env.pastName arg.nameLen = .error .outOfBounds := by
  rw [nameBuf_length] at h
  exact if_pos (by omega)

theorem names_entered {k n : ℕ} {fl : Freelist} {t : Htbl} {e : PoolEntry} (hlen : arg.nameLen < flaNameSizePool)
    (hreset : flaPoolEntryResetDefault env (fs.pools.entries k) arg n = .ok e) :
    NamesBounded (nameBuf env arg) fs (poolMade fs k fl t e) := by
  obtain ⟨name, hcopy, hreset⟩ := bind_eq_ok hreset
  have hin : 0 ≤ arg.nameLen ∧ arg.nameLen ≤ (nameBuf env arg).length := by
    by_contra hout
    rw [memcpyName_out hout] at hcopy
    cases hcopy
  rw [memcpyName_ok hin.1 hin.2] at hcopy
  cases hcopy
  cases hreset
  intro i
  by_cases hi : i = k
  · subst hi
    refine ⟨arg.nameLen.toNat, by omega, ?_⟩
    simp [poolMade]
  · refine ⟨0, by decide, ?_⟩
    simp [poolMade, hi]

theorem poolCreateAt_insert_error {k n : ℕ} {fl : Freelist} {f : Fault} (hk : k < fs.npools)
    (hins : htblInsert flaHashing fs.pools.htbl arg.name k = .error f) :
    poolCreateAt env { fs with pools := { fs.pools with freelist := fl } } arg k n = .error f := by
  have hentry : ({ fs with pools := { fs.pools with freelist := fl } } : Flexalloc).entryAt k =
      .ok (fs.pools.entries k) := if_pos hk
  rw [poolCreateAt, hentry, ok_bind, initializeEntrieFunc_eq]
  dsimp only
  rw [hins]
  rfl

/-- **Entering a pool** at an index just taken. -/
theorem enter_total_iff (h : Registry fs) {k n : ℕ} {fl : Freelist} (htake : takeEntry fs.pools.freelist = some (k, fl))
    (hk : k < fs.npools) (hlen : arg.nameLen < flaNameSizePool) :
    Total fs (nameBuf env arg) (poolCreateAt env { fs with pools := { fs.pools with freelist := fl } } arg k n) ↔
      EnterOk env fs arg k := by
  by_cases hfull : fs.pools.htbl.len = fs.pools.htbl.tblSize
  · -- the table is full by its count, and the index is given back
    refine iff_of_true ?_ (.inl hfull)
    have hins : htblInsert flaHashing fs.pools.htbl arg.name k = .ok (2, fs.pools.htbl) := by
      rw [htblInsert, if_neg h.slots.ne', if_pos hfull]
    have h1 := h.setFlist (takeEntry_some htake).2.2.1 (takeEntry_ok h.ok htake)
    obtain ⟨fl', hfree, hlen', -, hrest⟩ := h1.free hk
    obtain rfl : fl' = fs.pools.freelist := takeEntry_undone htake hlen' hrest
    have hentry : ({ fs with pools := { fs.pools with freelist := fl } } : Flexalloc).entryAt k =
        .ok (fs.pools.entries k) := if_pos hk
    refine ⟨2, none, { fs with pools := { fs.pools with
      entrieFuncs := update fs.pools.entrieFuncs k (some .dflt) } }, ?_, fun i => ⟨0, by decide, by simp⟩,
      .inr ⟨rfl, rfl, rfl⟩⟩
    rw [poolCreateAt, hentry, ok_bind, initializeEntrieFunc_eq]
    dsimp only
    rw [hins, ok_bind]
    dsimp only
    rw [if_pos (by decide), hfree, ok_bind]
  cases hloop : htblInsertLoop fs.pools.htbl.tblSize (2 ^ 16 * fs.pools.htbl.tblSize) fs.pools.htbl.tbl
      (flaHtblCompress (flaHashing.h1 arg.name) fs.pools.htbl.tblSize) ⟨flaHashing.h2 arg.name, k, 0⟩ with
  | error f =>
    have hins : htblInsert flaHashing fs.pools.htbl arg.name k = .error f := by
      rw [htblInsert, if_neg h.slots.ne', if_neg hfull, hloop]
      rfl
    rw [poolCreateAt_insert_error hk hins]
    refine iff_of_false (not_total_error _ f) ?_
    rintro (hfull' | ⟨⟨r, hr⟩, -⟩)
    · exact hfull hfull'
    · cases hloop.symm.trans hr
  | ok r =>
    have hins : htblInsert flaHashing fs.pools.htbl arg.name k = .ok (0, { fs.pools.htbl with
        tbl := r.1
        len := if r.2 then u32 (fs.pools.htbl.len + 1) else fs.pools.htbl.len }) := by
      rw [htblInsert, if_neg h.slots.ne', if_neg hfull, hloop]
      rfl
    rw [poolCreateAt_entered hk hins]
    by_cases hin : 0 ≤ arg.nameLen ∧ arg.nameLen ≤ (nameBuf env arg).length
    · refine iff_of_true ?_ (.inr ⟨⟨r, hloop⟩, hin⟩)
      cases hreset : flaPoolEntryResetDefault env (fs.pools.entries k) arg n with
      | error f =>
        rw [flaPoolEntryResetDefault, memcpyName_ok hin.1 hin.2] at hreset
        cases hreset
      | ok e => exact ⟨0, _, _, rfl, names_entered hlen hreset, .inl rfl⟩
    · have hreset : flaPoolEntryResetDefault env (fs.pools.entries k) arg n = .error .outOfBounds := by
        rw [flaPoolEntryResetDefault, memcpyName_out hin]
        rfl
      rw [hreset]
      refine iff_of_false (not_total_error _ _) ?_
      rintro (hfull' | ⟨-, hin'⟩)
      · exact hfull hfull'
      · exact hin hin'

/-! ## Creating a pool -/

theorem open_known (hm : env.malloc) {i : ℕ} (hlook : htblLookup flaHashing fs.pools.htbl arg.name = .ok (some i)) :
    flaBasePoolOpen env fs arg.name = .ok (0, some ⟨(fs.pools.htbl.tbl i).h2, (fs.pools.htbl.tbl i).val⟩) := by
  rw [flaBasePoolOpen, hlook, ok_bind]
  exact if_neg (by simp [hm])

/-- a pool that is not found, or not opened for want of memory, is created -/
theorem poolCreate_unknown (h : Registry fs) (hnot : ¬ (env.malloc ∧ Known fs arg.name)) :
    flaBasePoolCreate env fs arg =
      if (flaNameSizePool : ℤ) ≤ arg.nameLen then .ok (1, none, fs)
      else flaCalcObjsInSlab fs.vol arg.objNlb >>= fun n =>
        if n < 1 then .ok (1, none, fs)
        else if csCheckPool fs arg.objNlb ≠ 0 then .ok (csCheckPool fs arg.objNlb, none, fs)
        else if ¬ env.mallocNew then .ok (-eNOMEM, none, fs)
        else match takeEntry fs.pools.freelist with
          | none => .ok (1, none, fs)
          | some (k, fl) => poolCreateAt env { fs with pools := { fs.pools with freelist := fl } } arg k n := by
  obtain ⟨r, hlook, hr⟩ := h.lookup arg.name
  have halloc : ∀ n, (if (flaFlistEntriesAlloc fs.pools.freelist 1).1 < 0 then
        (.ok (1, none, { fs with pools := { fs.pools with freelist := (flaFlistEntriesAlloc fs.pools.freelist 1).2 } }) :
          Ret (ℤ × Option PoolHandle × Flexalloc))
      else poolCreateAt env { fs with pools := { fs.pools with freelist := (flaFlistEntriesAlloc fs.pools.freelist 1).2 } } arg
        (flaFlistEntriesAlloc fs.pools.freelist 1).1.toNat n) = match takeEntry fs.pools.freelist with
        | none => .ok (1, none, fs)
        | some (k, fl) => poolCreateAt env { fs with pools := { fs.pools with freelist := fl } } arg k n := by
    intro n
    rcases h.alloc with ⟨htake, halloc⟩ | ⟨k, fl, htake, -, halloc⟩
    · rw [halloc, htake]
      rfl
    · rw [halloc, htake]
      dsimp only
      rw [if_neg (by omega), Int.toNat_natCast]
  have hopen : ∃ e, flaBasePoolOpen env fs arg.name = .ok (e, none) := by
    rw [flaBasePoolOpen, hlook, ok_bind]
    cases r with
    | none => exact ⟨-1, rfl⟩
    | some i =>
      have hm : ¬ env.malloc := fun hm => hnot ⟨hm, i, hlook⟩
      exact ⟨-eNOMEM, if_pos hm⟩
  obtain ⟨e, hopen⟩ := hopen
  rw [poolCreate_checks hopen]
  simp only [halloc]

/-- **Creating a pool** is total on the arguments that `CreateOk` lists, and on no others. -/
theorem Registry.create_total_iff (h : Registry fs) : CreateTotal env fs arg ↔ CreateOk env fs arg := by
  unfold CreateTotal
  by_cases hknown : env.malloc ∧ Known fs arg.name
  · -- the pool exists
    refine iff_of_true ?_ (.inl hknown)
    obtain ⟨hm, i, hlook⟩ := hknown
    obtain ⟨r, hlook', hr⟩ := h.lookup arg.name
    obtain rfl : some i = r := Except.ok.inj (hlook.symm.trans hlook')
    rw [poolCreate_found (open_known hm hlook) (hr i rfl).2]
    split_ifs
    · exact total_same _ _ _
    · exact total_same _ _ _
  rw [poolCreate_unknown h hknown]
  by_cases hlong : (flaNameSizePool : ℤ) ≤ arg.nameLen
  · rw [if_pos hlong]
    exact iff_of_true (total_same _ _ _) (.inr (.inl hlong))
  rw [if_neg hlong]
  have hok : CreateOk env fs arg ↔ arg.objNlb ≠ 0 ∧ (flaCalcObjsInSlab fs.vol arg.objNlb = .ok 0 ∨
      csCheckPool fs arg.objNlb ≠ 0 ∨ ¬ env.mallocNew ∨
        ∀ k fl, takeEntry fs.pools.freelist = some (k, fl) → EnterOk env fs arg k) := by
    unfold CreateOk
    rw [or_iff_right hknown, or_iff_right hlong]
  rw [hok]
  by_cases hzero : arg.objNlb = 0
  · -- the division
    have hcalc : flaCalcObjsInSlab fs.vol arg.objNlb = .error .divByZero := if_pos hzero
    rw [hcalc]
    exact iff_of_false (not_total_error _ _) fun hne => hne.1 hzero
  obtain ⟨n, hcalc⟩ := calcObjs_ok fs.vol (Nat.one_le_iff_ne_zero.2 hzero)
  rw [hcalc, ok_bind, and_iff_right hzero]
  by_cases hn : n < 1
  · rw [if_pos hn]
    obtain rfl : n = 0 := Nat.lt_one_iff.1 hn
    exact iff_of_true (total_same _ _ _) (.inl rfl)
  rw [if_neg hn]
  by_cases hcheck : csCheckPool fs arg.objNlb ≠ 0
  · rw [if_pos hcheck]
    exact iff_of_true (total_same _ _ _) (.inr (.inl hcheck))
  rw [if_neg hcheck]
  by_cases hm : ¬ env.mallocNew
  · rw [if_pos hm]
    exact iff_of_true (total_same _ _ _) (.inr (.inr (.inl hm)))
  rw [if_neg hm]
  have hn0 : ¬ (Except.ok n : Ret ℕ) = .ok 0 := fun heq => hn (by cases heq; decide)
  rw [or_iff_right hn0, or_iff_right hcheck, or_iff_right hm]
  cases htake : takeEntry fs.pools.freelist with
  | none => exact iff_of_true (total_same _ _ _) fun k fl hsome => by cases hsome
  | some r =>
    obtain ⟨k, fl⟩ := r
    have hk : k < fs.npools := h.len ▸ takeEntry_lt h.ok htake
    refine (enter_total_iff h htake hk (lt_of_not_ge hlong)).trans ⟨fun henter k' fl' hsome => ?_, fun hall => hall k fl rfl⟩
    cases hsome
    exact henter

end Create

section Session

variable {dev mdDev : Dev} {hasMd : Bool} {npools slabNlb : ℕ} {geo : Geo} {fs fs' : Flexalloc}
variable {wiped : Bytes} {async : StrpXfer}

/-- **Creating pools in a session.** In every state reached, a create returns as it should exactly on the arguments that
`CreateOk` lists. -/
theorem pool_create_total_iff (hm : Mounted dev mdDev hasMd npools slabNlb geo fs) (hlb : 512 ≤ dev.lbNbytes)
    (hbytes : flaGeoNbytes geo < 2 ^ 32) {xs : List (Env × SessionOp)}
    (hxs : ∀ x ∈ xs, ExactRanges (if hasMd then mdDev else dev) x)
    (hrun : run (sessionStep wiped async) fs xs = some fs') (env : Env) (arg : PoolCreateArg) :
    CreateTotal env fs' arg ↔ CreateOk env fs' arg :=
  (session_registry hm hlb hbytes hxs hrun).create_total_iff

/-- a pool `a`, created again -/
theorem pool_create_total_again : ∃ fs', run (sessionStep 0 noStripe) (flaMkfs smallDev smallGeo 0)
    [(.reliable, .call (.poolCreate (smallArg 97 1)))] = some fs' ∧ CreateTotal .reliable fs' (smallArg 97 1) := by
  obtain ⟨fs', hrun, hval⟩ := Option.map_eq_some_iff.1 (show (run (sessionStep 0 noStripe) (flaMkfs smallDev smallGeo 0)
    [(.reliable, .call (.poolCreate (smallArg 97 1)))]).map
      (fun fs => (htblLookup flaHashing fs.pools.htbl [97]).toOption) = some (some (some 3)) by decide +kernel)
  refine ⟨fs', hrun, (pool_create_total_iff small_mounted (by decide) (by decide +kernel) ?_ hrun .reliable _).2 ?_⟩
  · rintro x hx
    obtain rfl := List.mem_singleton.1 hx
    exact trivial
  · exact .inl ⟨rfl, 3, toOption_eq_some hval⟩

/-- **Objects of no blocks.** On a system just formatted the create divides by 0. -/
theorem pool_create_divides : Mounted smallDev smallDev false 2 8 smallGeo (flaMkfs smallDev smallGeo 0) ∧
    ¬ CreateTotal .reliable (flaMkfs smallDev smallGeo 0) (smallArg 97 0) := by
  refine ⟨small_mounted, ?_⟩
  rintro ⟨err, handle, fs', hrun, -⟩
  have hfault : (flaBasePoolCreate .reliable (flaMkfs smallDev smallGeo 0) (smallArg 97 0)).toOption.isNone = true := by
    decide +kernel
  rw [hrun] at hfault
  cases hfault

end Session

end FlexAlloc
