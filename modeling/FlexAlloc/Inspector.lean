/-
The inspector: a second reading of the pool directory, written apart from the allocator.

`checkPoolsNumEntries` compares the counts of the super block, the pool freelist and the hash table;
`checkPoolEntries` goes over the slots of the table and checks the freelist entry, the name and the object size of each
pool; `flistBitReserved` reads one bit of a freelist.

- `flistBitReserved_eq`: the bit is read as the allocator writes it, except that a positive multiple of 32 is looked up
  in the word before its own, with a shift by the width of the word. `bits_agree_iff`: all bits of a freelist are read
  right if and only if it has at most 32 entries.
- `inspector_accepts`: after every run of creates and destroys that keeps clear of three defects (more than 32 pools,
  objects of ten blocks, an entry that keeps the end of a longer name) the inspector finds nothing.
  `inspector_rejects`: a system with one healthy pool of ten-block objects, and one with a shorter name after a longer
  one.
-/
import FlexAlloc.FreeSlabs
import FlexAlloc.PoolMap

namespace FlexAlloc

open FlexAlloc.Core Function

/-! ## The checks -/

def poolsSuperFlistDiscrepancy : ℕ := 1

def poolsFlistHtblReservedDiscrepancy : ℕ := 2

def poolEntryNoFlistEntry : ℕ := 1

def poolEntryHtblValOutOfBounds : ℕ := 2

def poolEntryNameUnset : ℕ := 4

def poolEntryNameNoNullterm : ℕ := 8

def poolEntryH2Discrepancy : ℕ := 16

def poolEntryInvalidObjSize : ℕ := 32

/-- the loop of `__flist_bit_reserved` from a word on: a word is passed while more than 32 entries remain -/
def bitReservedFrom : List (BitVec 32) → ℕ → Ret Bool
  | [], _ => .error .outOfBounds
  | w :: ws, ndx =>
    if 32 < ndx then bitReservedFrom ws (ndx - 32)
    else if ndx = 32 then .error .shift
    else .ok (!w.getLsbD ndx)

def flistBitReserved (fl : Freelist) (ndx : ℕ) : Ret Bool := bitReservedFrom fl.words ndx

def flaStrnlen (s : List (BitVec 8)) (maxlen : ℕ) : ℕ := (cstr (s.take maxlen)).length

/-- the name and size checks of one pool entry found under `h2`, added to `err` -/
def checkPoolEntry (poolEntry : PoolEntry) (h2 err : ℕ) : ℕ :=
  let err := if poolEntry.name.headD 0 = 0 then err ||| poolEntryNameUnset else err
  let err := if flaStrnlen poolEntry.name flaNameSizePool = flaNameSizePool then err ||| poolEntryNameNoNullterm else err
  let err := if err &&& poolEntryNameUnset ≠ 0 ∨ err &&& poolEntryNameNoNullterm ≠ 0 ∨
      flaHashing.h2 poolEntry.name ≠ h2 then err ||| poolEntryH2Discrepancy else err
  let err := if poolEntry.objNlb = 0 then err ||| poolEntryInvalidObjSize else err
  if poolEntry.objNlb = 10 then err ||| poolEntryInvalidObjSize else err

/-- the body of the loop of `check_pool_entries`, with the bits of the freelist read by `bit`: the errors of one slot, and
whether the loop is left at once -/
def checkSlot (bit : ℕ → Ret Bool) (fs : Flexalloc) (entry : HtblEntry) : Ret (ℕ × Bool) :=
  if entry.h2 = flaHtblEntryUnset then .ok (0, false) else do
    let reserved ← bit entry.val
    let err := if reserved then 0 else poolEntryNoFlistEntry
    if flaFlistLen fs.pools.freelist ≤ entry.val then .ok (err ||| poolEntryHtblValOutOfBounds, true)
    else do
      let poolEntry ← fs.entryAt entry.val
      .ok (checkPoolEntry poolEntry entry.h2 err, false)

/-- the loop of `check_pool_entries` over `n` slots from `slot` on: the errors and `delta` at its end -/
def checkSlots (bit : ℕ → Ret Bool) (fs : Flexalloc) : ℕ → ℕ → ℕ → Ret (ℕ × ℕ)
  | 0, _, delta => .ok (0, delta)
  | n + 1, slot, delta => do
    let (err, exit) ← checkSlot bit fs (fs.pools.htbl.tbl slot)
    if exit then .ok (err, delta)
    else if err ≠ 0 then .ok (err, delta + 1)
    else checkSlots bit fs n (slot + 1) (delta + 1)

/-- `check_pool_entries` with the bits of the freelist read by `bit`: the errors of the first slot from `offset` on that has
any, and the offset left -/
def checkEntriesBy (bit : ℕ → Ret Bool) (fs : Flexalloc) (offset : ℕ) : Ret (ℕ × ℕ) :=
  if fs.pools.htbl.tblSize < offset then .error .outOfBounds else do
    let (err, delta) ← checkSlots bit fs (fs.pools.htbl.tblSize - offset) offset 0
    .ok (err, if err ≠ 0 then u32 (offset + sub32 delta 1) else 0)

def checkPoolEntries (fs : Flexalloc) (offset : ℕ) : Ret (ℕ × ℕ) :=
  checkEntriesBy (flistBitReserved fs.pools.freelist) fs offset

/-- the slots counted by `check_pools_num_entries` -/
def htblReserved (fs : Flexalloc) : ℕ := (List.range fs.pools.htbl.tblSize).countP (Occ fs.pools.htbl.tbl ·)

def checkPoolsNumEntries (fs : Flexalloc) : ℕ :=
  let err := if fs.vol.super.npools ≠ flaFlistLen fs.pools.freelist then poolsSuperFlistDiscrepancy else 0
  if flaFlistNumReserved fs.pools.freelist ≠ htblReserved fs then err ||| poolsFlistHtblReservedDiscrepancy else err

/-! ## Reading a bit -/

/-- **`__flist_bit_reserved`** reads the bit of the entry, but for the positive multiples of 32. -/
theorem flistBitReserved_eq {fl : Freelist} {i : ℕ} (hi : i < 32 * fl.words.length) :
    flistBitReserved fl i = if 0 < i ∧ i % 32 = 0 then .error .shift else .ok (!fl.isFree i) := by
  unfold flistBitReserved Freelist.isFree
  generalize fl.words = ws at hi
  induction ws generalizing i with
  | nil => exact absurd hi (by simp)
  | cons w ws ih =>
    rw [List.length_cons] at hi
    rw [bitReservedFrom, bit_cons _ _ _ (by decide)]
    rcases lt_trichotomy i 32 with hlt | rfl | hgt
    · rw [if_neg (by omega), if_neg (by omega), if_neg (by omega), if_pos hlt]
    · rfl
    · have hmod : (i - 32) % 32 = i % 32 := by omega
      rw [if_pos hgt, ih (by omega), hmod, if_neg (show ¬ i < 32 by omega)]
      by_cases h0 : i % 32 = 0
      · rw [if_pos ⟨by omega, h0⟩, if_pos ⟨by omega, h0⟩]
      · rw [if_neg fun h => h0 h.2, if_neg fun h => h0 h.2]

/-- the inspector reads every entry as the allocator does -/
def BitsAgree (fl : Freelist) : Prop := ∀ i < fl.len, flistBitReserved fl i = .ok (!fl.isFree i)

theorem Freelist.len_le_words (fl : Freelist) : fl.len ≤ 32 * fl.words.length := by
  rw [fl.size]
  exact le_ceilDiv_mul (by decide) _

/-- all bits are read right exactly for a list of at most 32 entries -/
theorem bits_agree_iff (fl : Freelist) : BitsAgree fl ↔ fl.len ≤ 32 := by
  have hle := fl.len_le_words
  constructor
  · intro h
    by_contra hlt
    have h32 := h 32 (by omega)
    rw [flistBitReserved_eq (by omega), if_pos ⟨by decide, by decide⟩] at h32
    cases h32
  · intro h i hi
    rw [flistBitReserved_eq (by omega), if_neg (by omega)]

/-! ## One pool -/

theorem flaStrnlen_padded {w : PoolName} (hw : (0 : BitVec 8) ∉ w) (hlen : w.length < flaNameSizePool) :
    flaStrnlen (w ++ List.replicate (flaNameSizePool - w.length) 0) flaNameSizePool = w.length := by
  rw [flaStrnlen, List.take_of_length_le (by simp; omega), cstr_padded hw]

/-- an entry whose string is not empty and hashes to its key, and whose object size is neither 0 nor 10, passes -/
theorem checkPoolEntry_zero {e : PoolEntry} {h2 : ℕ} (hpad : Padded e.name) (hname : cstr e.name ≠ [])
    (hh2 : flaHashing.h2 e.name = h2) (h0 : e.objNlb ≠ 0) (h10 : e.objNlb ≠ 10) : checkPoolEntry e h2 0 = 0 := by
  obtain ⟨w, hw, hlen, hfield⟩ := hpad
  have hstr : flaStrnlen e.name flaNameSizePool ≠ flaNameSizePool := by
    rw [hfield, flaStrnlen_padded hw hlen]
    omega
  have hset : e.name.headD 0 ≠ 0 := by
    rw [hfield, cstr_padded hw] at hname
    obtain ⟨b, w', rfl⟩ := List.exists_cons_of_ne_nil hname
    rw [hfield]
    exact fun h => hw (List.mem_cons.2 (Or.inl h.symm))
  simp only [checkPoolEntry, hset, hstr, hh2, h0, h10, if_false, ne_eq, not_true_eq_false, or_false]
  decide

/-- a slot passes: unset, or the name of a reserved entry that passes -/
def SlotOk (fs : Flexalloc) (entry : HtblEntry) : Prop :=
  checkSlot (flistBitReserved fs.pools.freelist) fs entry = .ok (0, false)

theorem checkSlots_zero {fs : Flexalloc} (n : ℕ) {slot : ℕ} (delta : ℕ)
    (h : ∀ i, slot ≤ i → i < slot + n → SlotOk fs (fs.pools.htbl.tbl i)) :
    checkSlots (flistBitReserved fs.pools.freelist) fs n slot delta = .ok (0, delta + n) := by
  induction n generalizing slot delta with
  | zero => rfl
  | succ n ih =>
    have hslot : checkSlot _ fs (fs.pools.htbl.tbl slot) = .ok (0, false) := h slot le_rfl (by omega)
    have hrest : checkSlots _ fs n (slot + 1) (delta + 1) = .ok (0, delta + 1 + n) :=
      ih (delta + 1) fun i h1 h2 => h i (by omega) (by omega)
    rw [checkSlots, hslot, ok_bind]
    dsimp only
    rw [if_neg (by simp), if_neg (by simp), hrest, Nat.add_right_comm, Nat.add_assoc]

theorem checkPoolEntries_zero {fs : Flexalloc} (h : ∀ i < fs.pools.htbl.tblSize, SlotOk fs (fs.pools.htbl.tbl i)) :
    checkPoolEntries fs 0 = .ok (0, 0) := by
  rw [checkPoolEntries, checkEntriesBy, if_neg (by omega), checkSlots_zero _ 0 fun i _ hi => h i (by omega), ok_bind]
  rfl

/-! ## Healthy systems -/

/-- the names of the live pools -/
def DirSys.names (s : DirSys) : Set PoolName := {name | s.book name ≠ none}

/-- the names of the live pools do not collide, each entry carries the name of its pool, and no pool has an object size
that the inspector refuses -/
structure Healthy (v : Volume) (s : DirSys) : Prop where
  keys : Collisionless s.names
  booked : Booked v s.names s
  issued : ∀ h ∈ s.issued, h.h2 ≠ flaHtblEntryUnset
  own : ∀ name h n, s.book name = some (h, n) → s.stored h.ndx = name ∧ name ≠ [] ∧ n ≠ 0 ∧ n ≠ 10

/-- what the inspector is to find -/
structure Passes (fs : Flexalloc) : Prop where
  counts : checkPoolsNumEntries fs = 0
  entries : checkPoolEntries fs 0 = .ok (0, 0)
  bits : BitsAgree fs.pools.freelist

variable {v : Volume} {s t : DirSys}

theorem occupied_eq_countP (n : ℕ) (T : ℕ → HtblEntry) : (List.range n).countP (Occ T ·) = occupied n T := by
  rw [occupied, List.countP_eq_length_filter]
  rfl

/-- **A healthy system passes** when it has at most 32 pools. -/
theorem Healthy.passes (h : Healthy v s) (h32 : v.super.npools ≤ 32) : Passes s.fs := by
  have hb := h.booked
  have hlen : s.fs.pools.freelist.len = v.super.npools := hb.dir.len.trans hb.npools
  have hbits := (bits_agree_iff s.fs.pools.freelist).2 (by omega)
  refine ⟨?_, checkPoolEntries_zero fun i hi => ?_, hbits⟩
  · have hcount : flaFlistNumReserved s.fs.pools.freelist = htblReserved s.fs := by
      rw [numReserved_eq hb.dir.ok (by omega), ← hb.count, ← hb.len h.keys, hb.table.len, htblReserved, hb.table.size,
        occupied_eq_countP]
    have hsuper : s.fs.vol.super.npools = flaFlistLen s.fs.pools.freelist := hb.dir.len.symm
    simp [checkPoolsNumEntries, hcount, hsuper]
  · rw [hb.table.size] at hi
    unfold SlotOk checkSlot
    by_cases ho : (s.fs.pools.htbl.tbl i).h2 = flaHtblEntryUnset
    · rw [if_pos ho]
    obtain ⟨name, -, hndx, hkey⟩ := hb.table.live_key hi ho
    obtain ⟨hnd, n, hbook, hval⟩ := ndxOf_eq_some.1 hndx
    have hlive : s.fs.PoolLive (s.fs.pools.htbl.tbl i).val := (hb.live _).2 ⟨name, hndx⟩
    obtain ⟨hlt, hres⟩ := (poolLive_iff hb.dir.len _).1 hlive
    obtain ⟨hstored, hne, h0, h10⟩ := h.own name hnd n hbook
    have hobj := (hb.record name hnd n hbook).2
    rw [hval] at hstored hobj
    have hh2 : flaHashing.h2 (s.fs.pools.entries (s.fs.pools.htbl.tbl i).val).name = (s.fs.pools.htbl.tbl i).h2 := by
      rw [← h2_cstr, ← hkey]
      exact congrArg _ hstored
    rw [if_neg ho, hbits _ (by rw [hb.dir.len]; exact hlt), ok_bind, hres, if_neg (by rw [flaFlistLen, hb.dir.len]; omega),
      hb.dir.entryAt hlive, ok_bind, Bool.not_false, if_pos rfl,
      checkPoolEntry_zero (hb.names _) (by rw [← DirSys.stored, hstored]; exact hne) hh2 (by rw [hobj]; exact h0)
        (by rw [hobj]; exact h10)]

/-! ## Creates and destroys -/

/-- a legal call that returns 0 -/
def dirStepOk (s : DirSys) (x : Env × DirOp) : Option DirSys :=
  if Recalled s x ∧ DirLegal s x.2 then
    match dirPerform x.1 s x.2 with
    | .ok (err, t) => if err = 0 then some t else none
    | .error _ => none
  else none

theorem dirStepOk_eq_some {x : Env × DirOp} (h : dirStepOk s x = some t) :
    Recalled s x ∧ DirLegal s x.2 ∧ dirPerform x.1 s x.2 = .ok (0, t) := by
  unfold dirStepOk at h
  split_ifs at h with hl
  refine ⟨hl.1, hl.2, ?_⟩
  split at h
  · rename_i err t' hp
    split_ifs at h with herr
    rw [hp, herr, Option.some.inj h]
  · cases h

/-- a create or a destroy that keeps clear of the defects: a new pool has a name that no live pool has the secondary
hash of, does not have objects of ten blocks, and takes an entry whose string is not longer than its name -/
def Inspectable (s : DirSys) : DirOp → Prop
  | .poolCreate arg => s.book arg.name = none → arg.name ≠ [] ∧ arg.objNlb ≠ 10 ∧
      (∀ r ∈ takeEntry s.fs.pools.freelist, (s.stored r.1).length ≤ arg.name.length) ∧
      flaHashing.h2 arg.name ≠ flaHtblEntryUnset ∧
      ∀ i ∈ s.fs.pools.freelist.reserved, flaHashing.h2 (s.stored i) ≠ flaHashing.h2 arg.name
  | .poolOpen _ => False
  | .poolDestroy _ => True

instance (s : DirSys) : (op : DirOp) → Decidable (Inspectable s op)
  | .poolCreate _ => inferInstanceAs (Decidable (_ → _))
  | .poolOpen _ => inferInstanceAs (Decidable False)
  | .poolDestroy _ => inferInstanceAs (Decidable True)

theorem Booked.rebase {S S' : Set PoolName} (hb : Booked v S s) (hS : Collisionless S) (hS' : Collisionless S')
    (hsub : s.names ⊆ S') : Booked v S' s :=
  ⟨hb.vol, hb.dir, hb.table.rebase hS.inj hS'.inj hS'.unset fun _ hk => hsub fun h => hk (ndxOf_eq_none.2 h), hb.live,
    hb.inj, hb.record, hb.heads, hb.names, hb.issued⟩

theorem Healthy.handle (h : Healthy v s) {name : PoolName} {hnd : PoolHandle} {n : ℕ}
    (hbook : s.book name = some (hnd, n)) : hnd.ndx < v.super.npools ∧ hnd.h2 ≠ flaHtblEntryUnset := by
  have hb := h.booked
  have hlive : s.fs.PoolLive hnd.ndx := (hb.live _).2 ⟨name, ndxOf_eq_some.2 ⟨hnd, n, hbook, rfl⟩⟩
  have hlt := ((poolLive_iff hb.dir.len _).1 hlive).1
  refine ⟨hb.npools ▸ hlt, ?_⟩
  rw [(hb.record name hnd n hbook).1]
  exact h.keys.unset name (by rw [DirSys.names, Set.mem_ofPred_eq, hbook]; simp)

theorem Healthy.insert_collisionless (h : Healthy v s) {name : PoolName} (hunset : flaHashing.h2 name ≠ flaHtblEntryUnset)
    (hfresh : ∀ i ∈ s.fs.pools.freelist.reserved, flaHashing.h2 (s.stored i) ≠ flaHashing.h2 name) :
    Collisionless (insert name s.names) := by
  have hne : ∀ a ∈ s.names, flaHashing.h2 a ≠ flaHashing.h2 name := fun a ha => by
    obtain ⟨⟨hnd, n⟩, hbook⟩ := Option.ne_none_iff_exists'.1 ha
    have hlive : s.fs.PoolLive hnd.ndx := (h.booked.live _).2 ⟨a, ndxOf_eq_some.2 ⟨hnd, n, hbook, rfl⟩⟩
    have := hfresh hnd.ndx hlive
    rwa [(h.own a hnd n hbook).1] at this
  refine ⟨fun a ha b hb hab => ?_, fun a ha => ?_⟩
  · rcases ha with rfl | ha <;> rcases hb with rfl | hb
    · rfl
    · exact absurd hab.symm (hne b hb)
    · exact absurd hab (hne a ha)
    · exact h.keys.inj ha hb hab
  · rcases ha with rfl | ha
    · exact hunset
    · exact h.keys.unset a ha

/-- **A create** under the conditions keeps the system healthy. -/
theorem Healthy.create (h : Healthy v s) (hg : Small v) {env : Env} {arg : PoolCreateArg}
    (hrec : Recalled s (env, .poolCreate arg)) (harg : ArgOk s.fs.vol arg) (hin : Inspectable s (.poolCreate arg))
    {hnd : Option PoolHandle} {fs' : Flexalloc} (hrun : flaBasePoolCreate env s.fs arg = .ok (0, hnd, fs')) :
    Healthy v (s.created arg hnd fs') := by
  obtain ⟨n, hcalc, hpos⟩ := fitsSlab_iff.1 harg.2.2.2
  have hlt : arg.nameLen < flaNameSizePool := by
    have hn := harg.1.2
    rw [harg.2.1]
    omega
  -- a create that succeeds without finding the name passed the checks
  have hpassed : ∀ {e}, flaBasePoolOpen env s.fs arg.name = .ok (e, none) →
      csCheckPool s.fs arg.objNlb = 0 ∧ env.mallocNew := fun hopen => by
    by_contra hno
    obtain ⟨err, herr, hrun'⟩ := poolCreate_refused hopen hlt hcalc hpos
      (or_iff_not_imp_left.2 fun hcheck hnew => hno ⟨not_not.1 hcheck, hnew⟩)
    rw [hrun'] at hrun
    exact herr (Prod.mk.inj (Except.ok.inj hrun)).1
  cases hbk : s.book arg.name with
  | some b =>
    obtain ⟨h₀, n₀⟩ := b
    have hname : arg.name ∈ s.names := by rw [DirSys.names, Set.mem_ofPred_eq, hbk]; simp
    have hm : env.malloc := by
      by_contra hm
      obtain ⟨e, hopen⟩ := h.booked.open_refused hg h.keys hm hname
      exact hm (hrec (by rw [hbk]; rfl) (hpassed hopen).2)
    have hopen := h.booked.open hg h.keys hm hname
    rw [hbk] at hopen
    obtain ⟨hlt, hunset⟩ := h.handle hbk
    rw [poolCreate_found hopen (h.booked.npools ▸ hlt)] at hrun
    split_ifs at hrun with hsize
    · exact absurd (Prod.mk.inj (Except.ok.inj hrun)).1 (by decide)
    cases hrun
    have hlive : some h₀ ≠ none → s.book arg.name ≠ none := fun _ => by rw [hbk]; simp
    obtain ⟨hbook, hb⟩ := h.booked.created_stays (by simpa using hlt) hlive
    have hnames : (s.created arg (some h₀) s.fs).names = s.names := by
      unfold DirSys.names
      rw [hbook]
    refine ⟨hnames ▸ h.keys, hnames ▸ hb, fun h' hh => ?_, by rw [hbook]; exact h.own⟩
    rcases List.mem_append.1 hh with hh | hh
    · rw [Option.toList_some, List.mem_singleton] at hh
      rw [hh]
      exact hunset
    · exact h.issued h' hh
  | none =>
    obtain ⟨hne, h10, hshort, hunset, hfresh⟩ := hin hbk
    have hkeys := h.insert_collisionless hunset hfresh
    have hb := h.booked.rebase h.keys hkeys (Set.subset_insert _ _)
    have hmem : arg.name ∈ insert arg.name s.names := Set.mem_insert _ _
    have hopen := hb.open_none hg hkeys env hmem hbk
    obtain ⟨hcheck, hnew⟩ := hpassed hopen
    cases htake : takeEntry s.fs.pools.freelist with
    | none =>
      rw [poolCreate_absent hopen hlt hcalc hpos hcheck hnew, htake] at hrun
      cases hrun
    | some r =>
      obtain ⟨k, fl⟩ := r
      obtain ⟨fs₁, hrun₁, hent, hcstr, hb'⟩ := hb.create_new hg hkeys hnew harg hcheck hmem hbk htake
      rw [hrun₁] at hrun
      cases hrun
      rw [List.drop_eq_nil_iff.2 (hshort (k, fl) htake), List.append_nil] at hcstr
      have hbook : (s.created arg (some ⟨flaHashing.h2 arg.name, k⟩) fs').book =
          update s.book arg.name (some (⟨flaHashing.h2 arg.name, k⟩, arg.objNlb)) := DirSys.created_new hbk _ _
      have hnames : (s.created arg (some ⟨flaHashing.h2 arg.name, k⟩) fs').names = insert arg.name s.names := by
        ext a
        rw [DirSys.names, Set.mem_ofPred_eq, hbook, Set.mem_insert_iff]
        by_cases ha : a = arg.name
        · simp [ha]
        · rw [update_of_ne ha, DirSys.names, Set.mem_ofPred_eq]
          simp [ha]
      refine ⟨hnames ▸ hkeys, hnames ▸ hb', fun h' hh => ?_, fun name h' m hbook' => ?_⟩
      · rcases List.mem_append.1 hh with hh | hh
        · rw [Option.toList_some, List.mem_singleton] at hh
          rw [hh]
          exact hunset
        · exact h.issued h' hh
      · rw [hbook] at hbook'
        by_cases ha : name = arg.name
        · rw [ha, update_self] at hbook'
          obtain ⟨rfl, rfl⟩ := Prod.mk.inj (Option.some.inj hbook')
          refine ⟨hcstr.trans ha.symm, ha ▸ hne, fun h0 => ?_, h10⟩
          rw [flaCalcObjsInSlab, if_pos h0] at hcalc
          cases hcalc
        · rw [update_of_ne ha] at hbook'
          have hk : h'.ndx ≠ k := fun hk => h.booked.ndxOf_ne htake name (ndxOf_eq_some.2 ⟨h', m, hbook', hk⟩)
          obtain ⟨hst, hrest⟩ := h.own name h' m hbook'
          refine ⟨?_, hrest⟩
          show cstr (fs'.pools.entries h'.ndx).name = name
          rw [hent _ hk]
          exact hst

theorem poolDestroyCheck_slot {fs : Flexalloc} {handle : PoolHandle} (hlt : handle.ndx < fs.npools)
    (h : poolDestroyCheck fs handle = .ok 0) :
    ∃ i, htblLookup flaHashing fs.pools.htbl (fs.pools.entries handle.ndx).name = .ok (some i) ∧
      (fs.pools.htbl.tbl i).h2 = handle.h2 ∧ (fs.pools.htbl.tbl i).val = handle.ndx := by
  have hentry : fs.entryAt handle.ndx = .ok (fs.pools.entries handle.ndx) := if_pos hlt
  have hcopy := h
  rw [poolDestroyCheck, if_neg (by omega), hentry, ok_bind] at hcopy
  obtain ⟨slot, hlook, -⟩ := bind_eq_ok hcopy
  cases slot with
  | none =>
    rw [poolDestroyCheck_absent hlt hlook] at h
    cases h
  | some i =>
    rw [poolDestroyCheck_found hlt hlook] at h
    split_ifs at h with hne
    · cases h
    · push Not at hne
      exact ⟨i, hlook, hne⟩

/-- **A destroy** keeps the system healthy. -/
theorem Healthy.destroy (h : Healthy v s) (hg : Small v) {handle : PoolHandle} (hissued : handle ∈ s.issued)
    {fs' : Flexalloc} (hrun : flaBasePoolDestroy s.fs handle = .ok (0, fs')) : Healthy v (s.forgotten handle fs') := by
  have hb := h.booked
  obtain ⟨-, herr, -⟩ | ⟨hck, -⟩ := poolDestroy_cases hrun
  · exact absurd rfl herr
  -- the slot found holds the key of the handle, so it is not unset and the index is live
  have hlt := hb.issued handle hissued
  obtain ⟨i, hlook, hval⟩ : ∃ i, htblLookup flaHashing s.fs.pools.htbl (s.fs.pools.entries handle.ndx).name = .ok (some i) ∧
      (s.fs.pools.htbl.tbl i).h2 = handle.h2 ∧ (s.fs.pools.htbl.tbl i).val = handle.ndx :=
    poolDestroyCheck_slot (hb.npools ▸ hlt) hck
  have hi : i < 2 * v.super.npools := hb.table.size ▸ lookup_lt hlook
  have hocc : Occ s.fs.pools.htbl.tbl i := by
    unfold Occ
    rw [hval.1]
    exact h.issued handle hissued
  obtain ⟨name, hname, hndx, -⟩ := hb.table.live_key hi hocc
  rw [hval.2] at hndx
  obtain ⟨h₀, n₀, hbook₀, hndx₀⟩ := ndxOf_eq_some.1 hndx
  have hstored : s.stored handle.ndx = name := hndx₀ ▸ (h.own name h₀ n₀ hbook₀).1
  have hmem : s.stored handle.ndx ∈ s.names := hstored ▸ hname
  obtain ⟨err, hck', hiff⟩ := hb.destroyCheck hg h.keys hlt hmem
  rw [hck] at hck'
  obtain ⟨n, hbook⟩ := hiff.1 (Except.ok.inj hck').symm
  obtain ⟨fs₁, hrun₁, hent, -, hb'⟩ := hb.destroy hg h.keys hmem hbook
  rw [hrun₁] at hrun
  cases hrun
  have hback : ∀ k b, (s.forgotten handle fs').book k = some b → s.book k = some b := fun k b hk => by
    rw [hb.book_forgotten hbook] at hk
    by_cases hkn : k = s.stored handle.ndx
    · rw [hkn, update_self] at hk
      cases hk
    · rwa [update_of_ne hkn] at hk
  have hsub : (s.forgotten handle fs').names ⊆ s.names := fun k hk => by
    obtain ⟨b, hb⟩ := Option.ne_none_iff_exists'.1 hk
    show s.book k ≠ none
    rw [hback k b hb]
    simp
  have hkeys : Collisionless (s.forgotten handle fs').names :=
    ⟨h.keys.inj.mono hsub, fun k hk => h.keys.unset k (hsub hk)⟩
  refine ⟨hkeys, hb'.rebase h.keys hkeys subset_rfl, h.issued, fun k h' m hk => ?_⟩
  obtain ⟨hst, hrest⟩ := h.own k h' m (hback k _ hk)
  refine ⟨?_, hrest⟩
  show cstr (fs'.pools.entries h'.ndx).name = k
  rw [hent]
  exact hst

theorem dirStepOk_healthy (hg : Small v) {x : Env × DirOp} (h : Healthy v s) (hin : Inspectable s x.2)
    (hstep : dirStepOk s x = some t) : Healthy v t := by
  obtain ⟨env, op⟩ := x
  obtain ⟨hrec, hlegal, hperf⟩ := dirStepOk_eq_some hstep
  cases op with
  | poolCreate arg =>
    obtain ⟨r, hr, hres⟩ := bind_eq_ok hperf
    obtain ⟨err, hnd, fs'⟩ := r
    cases hres
    exact h.create hg hrec hlegal hin hr
  | poolOpen name => exact absurd hin not_false
  | poolDestroy handle =>
    obtain ⟨r, hr, hres⟩ := bind_eq_ok hperf
    obtain ⟨err, fs'⟩ := r
    obtain ⟨rfl, rfl⟩ := Prod.mk.inj (Except.ok.inj hres)
    rw [if_pos rfl]
    exact h.destroy hg hlegal hr

/-! ## Runs -/

/-- **The inspector accepts** every system of at most 32 pools reached by creates and destroys under the conditions. -/
theorem inspector_accepts {dev mdDev : Dev} {hasMd : Bool} {npools slabNlb : ℕ} {geo : Geo} {fs : Flexalloc}
    (hm : Mounted dev mdDev hasMd npools slabNlb geo fs) (h32 : geo.npools ≤ 32) {calls : List (Env × DirOp)}
    (hrun : run (guard (fun s x => Inspectable s x.2) dirStepOk) ⟨fs, fun _ => none, []⟩ calls = some s) :
    Passes s.fs := by
  have hpos : 0 < geo.npools := (accepted_bounds hm.accepted).1
  have hg : Small (.formatted dev hasMd geo) := ⟨hpos, h32.trans (by decide)⟩
  have hkeys : Collisionless (DirSys.names ⟨fs, fun _ => none, []⟩) := ⟨fun a ha => absurd rfl ha, fun a ha => absurd rfl ha⟩
  have hstart : Healthy (.formatted dev hasMd geo) ⟨fs, fun _ => none, []⟩ :=
    ⟨hkeys, hm.fresh.booked rfl hpos (htblTblSize_eq hm.accepted (h32.trans (by decide))) hkeys, by simp,
      fun name h n hb => by cases hb⟩
  refine Healthy.passes (run_inv (fun u x u' hu hstep => ?_) hstart hrun) h32
  obtain ⟨hin, hok⟩ := guard_eq_some hstep
  exact dirStepOk_healthy hg hu hin hok

/-- pools `a` and `bc` are created, `a` is destroyed and its name used again -/
theorem inspector_accepts_small : ∃ s, run (guard (fun s x => Inspectable s x.2) dirStepOk) (.init smallDev smallGeo 0)
    (dirReliably [.poolCreate (namedArg [97]), .poolCreate (namedArg [98, 99]), .poolDestroy ⟨97, 0⟩,
      .poolCreate (namedArg [97])]) = some s ∧ s.fs.pools.freelist.reserved = [0, 1] ∧ Passes s.fs := by
  obtain ⟨s, hs, hres⟩ := Option.map_eq_some_iff.1 (show (run (guard (fun s x => Inspectable s x.2) dirStepOk)
    (.init smallDev smallGeo 0) (dirReliably [.poolCreate (namedArg [97]), .poolCreate (namedArg [98, 99]),
      .poolDestroy ⟨97, 0⟩, .poolCreate (namedArg [97])])).map (·.fs.pools.freelist.reserved) = some [0, 1]
    by decide +kernel)
  exact ⟨s, hs, hres, inspector_accepts small_mounted (by decide +kernel) hs⟩

def tenBlocks : PoolCreateArg := ⟨0, [97], 1, 10, 0, 0⟩

/-- slabs of 16 blocks on the small device -/
def sixteenGeo : Geo := mkfsGeo smallDev 16 2 3

theorem sixteen_mounted : Mounted smallDev smallDev false 2 16 sixteenGeo (flaMkfs smallDev sixteenGeo 0) :=
  ⟨by decide +kernel, by decide, rfl, mkfs_fresh smallDev sixteenGeo 0, rfl, rfl⟩

/-- one pool with objects of ten blocks is reported with an invalid object size, and a pool `a` in the entry left by
`ab` with a name that does not match its hash -/
theorem inspector_rejects :
    Mounted smallDev smallDev false 2 16 sixteenGeo (flaMkfs smallDev sixteenGeo 0) ∧
    (∃ s, run dirStepOk (.init smallDev sixteenGeo 0) (dirReliably [.poolCreate tenBlocks]) = some s ∧
      checkPoolEntries s.fs 0 = .ok (poolEntryInvalidObjSize, 3) ∧ ¬ Passes s.fs) ∧
    ∃ s, run dirStepOk (.init smallDev smallGeo 0) (leftover ++ dirReliably [.poolCreate (namedArg [97])]) = some s ∧
      checkPoolEntries s.fs 0 = .ok (poolEntryH2Discrepancy, 3) ∧ ¬ Passes s.fs := by
  refine ⟨sixteen_mounted, ?_, ?_⟩
  · obtain ⟨s, hs, hval⟩ := Option.map_eq_some_iff.1 (show (run dirStepOk (.init smallDev sixteenGeo 0)
      (dirReliably [.poolCreate tenBlocks])).map (fun s => (checkPoolEntries s.fs 0).toOption) =
      some (some (poolEntryInvalidObjSize, 3)) by decide +kernel)
    have hval := toOption_eq_some hval
    refine ⟨s, hs, hval, fun h => ?_⟩
    rw [h.entries] at hval
    exact absurd (Except.ok.inj hval) (by decide)
  · obtain ⟨s, hs, hval⟩ := Option.map_eq_some_iff.1 (show (run dirStepOk (.init smallDev smallGeo 0)
      (leftover ++ dirReliably [.poolCreate (namedArg [97])])).map (fun s => (checkPoolEntries s.fs 0).toOption) =
      some (some (poolEntryH2Discrepancy, 3)) by decide +kernel)
    have hval := toOption_eq_some hval
    refine ⟨s, hs, hval, fun h => ?_⟩
    rw [h.entries] at hval
    exact absurd (Except.ok.inj hval) (by decide)

end FlexAlloc
