/-
`flexalloc_freelist.c`: the bitmap freelist.

A freelist of `len` entries is a length word followed by `ceil(len / 32)` words, one bit an entry, 1 = free. `Freelist`
keeps the number of words in step with the length. `isFree fl i` reads the bit of entry `i`; a well formed list (`Ok`)
has no free entry at or past its length, i.e. the padding bits of the last word are 0.

- `reset_isFree`, `reset_ok`: a reset makes exactly the entries below `len` free.
- `entryAlloc_none`, `entryAlloc_some`: an allocation takes the lowest free entry and touches no other, and finds none
  exactly when no entry is free.
- `entryFree_of_lt`: freeing an entry below `len` makes it free and touches no other.
- `numReserved_eq`: `fla_flist_num_reserved` counts the reserved entries below `len`.
- `search_calls`: which entries `fla_flist_search_wfunc` calls its function on. For a length that is a multiple of 32
  it skips the last word whole.

The index of an allocated entry is returned through a C `int` (`toInt`): an index from 2^31 on comes back negative.
-/
import FlexAlloc.Bits

namespace FlexAlloc

open FlexAlloc.Core

/-- `FLA_FREELIST_U32_ELEMS`: words needed for `len` entries -/
def flaFreelistU32Elems (len : ℕ) : ℕ := flaCeilDiv len 32

/-- a freelist: its length word and its bit words -/
structure Freelist where
  len : ℕ
  words : List (BitVec 32)
  size : words.length = flaFreelistU32Elems len
deriving DecidableEq

/-- `fla_flist_size`: bytes of a freelist of `len` entries, length word included -/
def flaFlistSize (len : ℕ) : ℕ := 4 * (1 + flaFreelistU32Elems len)

def flaFlistLen (fl : Freelist) : ℕ := fl.len

def flaFlistNumReserved (fl : Freelist) : ℕ := sub32 fl.len (u32 (fl.words.map countSetBits).sum)

/-- the words written by `fla_flist_reset`: all ones, and the unused high bits of the last word 0 (`len` at least 1) -/
def resetWords (len : ℕ) : List (BitVec 32) :=
  let elems := flaFreelistU32Elems len
  if elems = 0 then [] else
    List.replicate (elems - 1) (BitVec.allOnes 32) ++ [BitVec.allOnes 32 >>> (elems * 32 - len)]

theorem resetWords_length (len : ℕ) : (resetWords len).length = flaFreelistU32Elems len := by
  unfold resetWords
  by_cases h : flaFreelistU32Elems len = 0
  · simp [h]
  · simp [h]; omega

/-- `fla_flist_init`: set the length word, then reset -/
def flaFlistInit (len : ℕ) : Freelist := ⟨len, resetWords len, resetWords_length len⟩

def flaFlistReset (fl : Freelist) : Freelist := flaFlistInit fl.len

/-- the loop of `fla_flist_entry_alloc` over the words from index `i` on: the first non-zero word gives up its lowest
set bit -/
def entryAllocLoop : List (BitVec 32) → ℕ → Option (ℕ × List (BitVec 32))
  | [], _ => none
  | elem :: rest, i =>
    if elem = 0 then (entryAllocLoop rest (i + 1)).map fun r => (r.1, elem :: r.2)
    else
      let wndx := elem &&& -elem
      some (i * 32 + ntz wndx, (elem &&& ~~~wndx) :: rest)

theorem entryAllocLoop_length {ws ws' : List (BitVec 32)} {i k : ℕ} (h : entryAllocLoop ws i = some (k, ws')) :
    ws'.length = ws.length := by
  induction ws generalizing i ws' with
  | nil => simp [entryAllocLoop] at h
  | cons x ws ih =>
    unfold entryAllocLoop at h
    split_ifs at h
    · obtain ⟨⟨k', v⟩, hv, he⟩ := Option.map_eq_some_iff.1 h
      cases he
      simp [ih hv]
    · cases h; simp

/-- the entry taken, before it is returned as an `int`, and the list without it -/
def takeEntry (fl : Freelist) : Option (ℕ × Freelist) :=
  match h : entryAllocLoop fl.words 0 with
  | none => none
  | some (k, ws) => some (k, ⟨fl.len, ws, (entryAllocLoop_length h).trans fl.size⟩)

/-- `fla_flist_entry_alloc`: the index taken, or -1 -/
def flaFlistEntryAlloc (fl : Freelist) : ℤ × Freelist :=
  match takeEntry fl with
  | none => (-1, fl)
  | some (k, fl') => (toInt k, fl')

/-- the loop of `fla_flist_entries_alloc` for the entries after the first -/
def entriesAllocLoop : ℕ → ℤ → Freelist → ℤ × Freelist
  | 0, ret, fl => (ret, fl)
  | n + 1, ret, fl =>
    let r := flaFlistEntryAlloc fl
    if r.1 = -1 then (-1, r.2) else entriesAllocLoop n ret r.2

/-- `fla_flist_entries_alloc`: `num` entries, the index of the first -/
def flaFlistEntriesAlloc (fl : Freelist) (num : ℕ) : ℤ × Freelist :=
  let r := flaFlistEntryAlloc fl
  if num = 1 then r else entriesAllocLoop (sub32 num 1) r.1 r.2

/-- `fla_flist_entry_free`; the check lets `ndx = len` through, whose word may lie past the list -/
def flaFlistEntryFree (fl : Freelist) (ndx : ℕ) : Ret (ℤ × Freelist) :=
  if fl.len < ndx then .ok (-1, fl)
  else if ndx / 32 < fl.words.length then
    .ok (0, ⟨fl.len, fl.words.set (ndx / 32) (fl.words.getD (ndx / 32) 0 ||| BitVec.twoPow 32 (ndx % 32)),
      by rw [List.length_set, fl.size]⟩)
  else .error .outOfBounds

/-- `fla_flist_entries_free`: entries `ndx`, `ndx + 1`, .. one by one -/
def flaFlistEntriesFree : Freelist → ℕ → ℕ → Ret (ℤ × Freelist)
  | fl, _, 0 => .ok (0, fl)
  | fl, ndx, num + 1 => do
    let r ← flaFlistEntryFree fl (u32 ndx)
    if r.1 ≠ 0 then .ok (-1, r.2) else flaFlistEntriesFree r.2 (ndx + 1) num

/-! ## The entries of a list -/

/-- the bit of entry `i` -/
def Freelist.isFree (fl : Freelist) (i : ℕ) : Bool := bit fl.words i

/-- no entry at or past the length is free -/
def Freelist.Ok (fl : Freelist) : Prop := ∀ i, fl.len ≤ i → fl.isFree i = false

theorem u32Elems_mul (len : ℕ) : len ≤ 32 * flaFreelistU32Elems len ∧ 32 * flaFreelistU32Elems len < len + 32 := by
  unfold flaFreelistU32Elems flaCeilDiv; omega

theorem div_lt_u32Elems {len i : ℕ} (h : i < len) : i / 32 < flaFreelistU32Elems len := by
  have := u32Elems_mul len; omega

theorem bit_resetWords (len i : ℕ) : bit (resetWords len) i = decide (i < len) := by
  obtain ⟨h1, h2⟩ := u32Elems_mul len
  unfold resetWords
  set e := flaFreelistU32Elems len
  by_cases he : e = 0
  · have : len = 0 := by omega
    simp [he, bit, this]
  · rw [if_neg he, bit]
    rcases Nat.lt_trichotomy (i / 32) (e - 1) with hlt | heq | hgt
    · rw [List.getD_append _ _ _ _ (by simpa using hlt), List.getD_replicate _ hlt, BitVec.getLsbD_allOnes]
      have h3 : i < len := by omega
      have h4 : i % 32 < 32 := Nat.mod_lt _ (by decide)
      simp [h3, h4]
    · rw [heq, List.getD_append_right _ _ _ _ (by simp), List.length_replicate, Nat.sub_self, List.getD_cons_zero,
        BitVec.getLsbD_ushiftRight, BitVec.getLsbD_allOnes, decide_eq_decide]
      omega
    · have h3 : ¬ i < len := by omega
      have h4 : (List.replicate (e - 1) (BitVec.allOnes 32) ++ [BitVec.allOnes 32 >>> (e * 32 - len)]).length ≤ i / 32 := by
        simp; omega
      rw [List.getD_eq_getElem?_getD, List.getElem?_eq_none h4]
      simp [h3]

theorem init_isFree (len i : ℕ) : (flaFlistInit len).isFree i = decide (i < len) := bit_resetWords len i

theorem init_ok (len : ℕ) : (flaFlistInit len).Ok := fun i hi => by
  rw [init_isFree]; exact decide_eq_false (Nat.not_lt.2 hi)

/-! ## Allocation -/

theorem entryAllocLoop_none {ws : List (BitVec 32)} {i : ℕ} (h : entryAllocLoop ws i = none) (j : ℕ) :
    bit ws j = false := by
  induction ws generalizing i j with
  | nil => simp [bit]
  | cons x ws ih =>
    unfold entryAllocLoop at h
    split_ifs at h with hx
    rw [Option.map_eq_none_iff] at h
    rw [bit_cons _ _ _ (by decide)]
    split_ifs
    · simp [hx]
    · exact ih h _

theorem entryAllocLoop_some {ws ws' : List (BitVec 32)} {i k : ℕ} (h : entryAllocLoop ws i = some (k, ws')) :
    ∃ m, k = i * 32 + m ∧ bit ws m = true ∧ (∀ j < m, bit ws j = false) ∧
      ∀ j, bit ws' j = (bit ws j && decide (j ≠ m)) := by
  induction ws generalizing i ws' with
  | nil => simp [entryAllocLoop] at h
  | cons x ws ih =>
    unfold entryAllocLoop at h
    split_ifs at h with hx
    · -- a fully booked word: the entry is in a later one
      obtain ⟨⟨k', v⟩, hv, he⟩ := Option.map_eq_some_iff.1 h
      cases he
      obtain ⟨m, hk, hm, hmin, hrest⟩ := ih hv
      refine ⟨m + 32, by omega, ?_, fun j hj => ?_, fun j => ?_⟩
      · rw [bit_cons _ _ _ (by decide), if_neg (by omega), Nat.add_sub_cancel]; exact hm
      · rw [bit_cons _ _ _ (by decide)]
        split_ifs
        · simp [hx]
        · exact hmin _ (by omega)
      · rw [bit_cons _ _ _ (by decide), bit_cons _ _ _ (by decide)]
        split_ifs with hj
        · simp [hx]
        · rw [hrest]
          have : j - 32 = m ↔ j = m + 32 := by omega
          simp [this]
    · obtain ⟨b, hb, hset, hmin, hlow⟩ := low_spec x hx
      simp only [hlow, ntz_twoPow b hb] at h
      cases h
      refine ⟨b, rfl, ?_, fun j hj => ?_, fun j => ?_⟩
      · rw [bit_cons _ _ _ (by decide), if_pos hb]; exact hset
      · rw [bit_cons _ _ _ (by decide), if_pos (by omega)]; exact hmin j hj
      · rw [bit_cons _ _ _ (by decide), bit_cons _ _ _ (by decide)]
        split_ifs with hj
        · rw [BitVec.getLsbD_and, BitVec.getLsbD_not, BitVec.getLsbD_twoPow]
          simp [hj, hb, eq_comm]
        · have : j ≠ b := by omega
          simp [this]

theorem takeEntry_eq_some {fl fl' : Freelist} {k : ℕ} (h : entryAllocLoop fl.words 0 = some (k, fl'.words))
    (hlen : fl'.len = fl.len) : takeEntry fl = some (k, fl') := by
  unfold takeEntry
  split
  · rename_i hn
    rw [h] at hn
    cases hn
  · rename_i k' ws hs
    rw [h] at hs
    cases hs
    cases fl'
    cases hlen
    rfl

theorem takeEntry_none {fl : Freelist} (h : takeEntry fl = none) (i : ℕ) : fl.isFree i = false := by
  unfold takeEntry at h
  split at h
  · rename_i hn; exact entryAllocLoop_none hn i
  · exact absurd h (by simp)

/-- **Allocation takes the lowest free entry** and leaves every other entry as it was. -/
theorem takeEntry_some {fl fl' : Freelist} {k : ℕ} (h : takeEntry fl = some (k, fl')) :
    fl.isFree k = true ∧ (∀ j < k, fl.isFree j = false) ∧ fl'.len = fl.len ∧
      ∀ j, fl'.isFree j = (fl.isFree j && decide (j ≠ k)) := by
  unfold takeEntry at h
  split at h
  · exact absurd h (by simp)
  · rename_i k' ws hs
    cases h
    obtain ⟨m, hk, hm, hmin, hrest⟩ := entryAllocLoop_some hs
    have hkm : k = m := by omega
    subst hkm
    exact ⟨hm, hmin, rfl, hrest⟩

theorem takeEntry_lt {fl fl' : Freelist} {k : ℕ} (hok : fl.Ok) (h : takeEntry fl = some (k, fl')) : k < fl.len := by
  by_contra hle
  have := hok k (by omega)
  rw [(takeEntry_some h).1] at this
  exact absurd this (by decide)

/-- an entry that is taken lies in the words of the list, whatever the bits past its length -/
theorem takeEntry_lt_words {fl fl' : Freelist} {k : ℕ} (h : takeEntry fl = some (k, fl')) :
    k < 32 * flaFreelistU32Elems fl.len := by
  obtain ⟨hfree, -, -, -⟩ := takeEntry_some h
  by_contra hk
  have hfalse : fl.isFree k = false := bit_eq_false_of_le _ _ (by decide) (by rw [fl.size]; omega)
  rw [hfalse] at hfree
  cases hfree

theorem takeEntry_ok {fl fl' : Freelist} {k : ℕ} (hok : fl.Ok) (h : takeEntry fl = some (k, fl')) : fl'.Ok := by
  obtain ⟨-, -, hlen, hrest⟩ := takeEntry_some h
  intro i hi
  rw [hrest, hok i (hlen ▸ hi)]
  rfl

theorem entriesAlloc_one (fl : Freelist) : flaFlistEntriesAlloc fl 1 = flaFlistEntryAlloc fl := by
  simp [flaFlistEntriesAlloc]

theorem entryAlloc_len (fl : Freelist) : (flaFlistEntryAlloc fl).2.len = fl.len := by
  unfold flaFlistEntryAlloc
  cases htake : takeEntry fl with
  | none => rfl
  | some r =>
    obtain ⟨k, fl'⟩ := r
    exact (takeEntry_some htake).2.2.1

theorem entriesAllocLoop_len (n : ℕ) (ret : ℤ) (fl : Freelist) : (entriesAllocLoop n ret fl).2.len = fl.len := by
  induction n generalizing fl with
  | zero => rfl
  | succ n ih =>
    rw [entriesAllocLoop]
    by_cases h : (flaFlistEntryAlloc fl).1 = -1
    · rw [if_pos h]
      exact entryAlloc_len fl
    · rw [if_neg h, ih, entryAlloc_len]

theorem entriesAlloc_len (fl : Freelist) (num : ℕ) : (flaFlistEntriesAlloc fl num).2.len = fl.len := by
  rw [flaFlistEntriesAlloc]
  by_cases h : num = 1
  · rw [if_pos h, entryAlloc_len]
  · rw [if_neg h, entriesAllocLoop_len, entryAlloc_len]

/-! ## Freeing -/

/-- **Freeing an entry below the length** makes it free and leaves every other entry as it was. -/
theorem entryFree_of_lt {fl : Freelist} {ndx : ℕ} (h : ndx < fl.len) :
    ∃ fl', flaFlistEntryFree fl ndx = .ok (0, fl') ∧ fl'.len = fl.len ∧
      ∀ j, fl'.isFree j = (fl.isFree j || decide (j = ndx)) := by
  have hw : ndx / 32 < fl.words.length := by rw [fl.size]; exact div_lt_u32Elems h
  refine ⟨⟨fl.len, fl.words.set (ndx / 32) (fl.words.getD (ndx / 32) 0 ||| BitVec.twoPow 32 (ndx % 32)),
    by rw [List.length_set, fl.size]⟩, by rw [flaFlistEntryFree, if_neg (by omega), if_pos hw], rfl, fun j => ?_⟩
  exact bit_set_or fl.words ndx j (by decide) hw

theorem entriesFree_one {fl : Freelist} {ndx : ℕ} (h : ndx < fl.len) (hu : ndx < 2 ^ 32) :
    ∃ fl', flaFlistEntriesFree fl ndx 1 = .ok (0, fl') ∧ fl'.len = fl.len ∧
      ∀ j, fl'.isFree j = (fl.isFree j || decide (j = ndx)) := by
  obtain ⟨fl', hfree, hlen, hrest⟩ := entryFree_of_lt h
  refine ⟨fl', ?_, hlen, hrest⟩
  simp only [flaFlistEntriesFree, u32_of_lt hu, hfree]
  rfl

theorem entriesFree_len {fl fl' : Freelist} {ndx num : ℕ} {err : ℤ}
    (h : flaFlistEntriesFree fl ndx num = .ok (err, fl')) : fl'.len = fl.len := by
  induction num generalizing fl ndx with
  | zero =>
    cases h
    rfl
  | succ num ih =>
    obtain ⟨⟨err₁, fl₁⟩, hfree, h⟩ := bind_eq_ok h
    have hlen : fl₁.len = fl.len := by
      unfold flaFlistEntryFree at hfree
      split_ifs at hfree <;> cases hfree <;> rfl
    dsimp only at h
    split_ifs at h
    · cases h
      exact hlen
    · rw [ih h, hlen]

theorem free_ok {fl fl' : Freelist} {ndx : ℕ} (hok : fl.Ok) (h : ndx < fl.len) (hlen : fl'.len = fl.len)
    (hrest : ∀ j, fl'.isFree j = (fl.isFree j || decide (j = ndx))) : fl'.Ok := by
  intro i hi
  rw [hrest, hok i (hlen ▸ hi)]
  have : i ≠ ndx := by omega
  simp [this]

/-! ## Counting -/

def Freelist.reserved (fl : Freelist) : List ℕ := (List.range fl.len).filter fun i => !fl.isFree i

theorem mem_reserved {fl : Freelist} {i : ℕ} : i ∈ fl.reserved ↔ i < fl.len ∧ fl.isFree i = false := by
  simp [Freelist.reserved]

theorem reserved_nodup (fl : Freelist) : fl.reserved.Nodup := List.nodup_range.filter _

/-- **`fla_flist_num_reserved` counts the reserved entries.** -/
theorem numReserved_eq {fl : Freelist} (hok : fl.Ok) (hlen : fl.len < 2 ^ 32) :
    flaFlistNumReserved fl = fl.reserved.length := by
  have hcount : (fl.words.map countSetBits).sum = (List.range fl.len).countP (fl.isFree ·) := by
    have h1 : fl.words.map countSetBits = fl.words.map bitCount :=
      List.map_congr_left fun x _ => countSetBits_eq x
    obtain ⟨hle, -⟩ := u32Elems_mul fl.len
    -- the bits past the length are padding
    have hsplit : 32 * fl.words.length = fl.len + (32 * fl.words.length - fl.len) := by rw [fl.size]; omega
    rw [h1, bitCount_packed _ (by decide), hsplit, List.range_add, List.countP_append, List.countP_map]
    have hpad : (List.range (32 * fl.words.length - fl.len)).countP ((bit fl.words ·) ∘ (fl.len + ·)) = 0 := by
      rw [List.countP_eq_zero]
      intro i _
      have := hok (fl.len + i) (by omega)
      simpa [Freelist.isFree] using this
    rw [hpad]; rfl
  have hsum := List.length_eq_countP_add_countP (fl.isFree ·) (l := List.range fl.len)
  have hres : fl.reserved.length = (List.range fl.len).countP (fun i => !fl.isFree i) := by
    rw [Freelist.reserved, List.countP_eq_length_filter]
  have hres' : (List.range fl.len).countP (fun i => !fl.isFree i) =
      (List.range fl.len).countP (fun i => decide ¬ fl.isFree i = true) :=
    List.countP_congr fun i _ => by simp
  rw [List.length_range] at hsum
  rw [flaFlistNumReserved, hcount, u32_of_lt (by omega), sub32_of_le (by omega) hlen, hres, hres']
  omega

/-! ## Search -/

def flaFlistSearchExecFirst : BitVec 64 := 1

section Search

variable {σ : Type} (f : σ → ℕ → ℤ × σ)

/-- the inner loop of `fla_flist_search_wfunc`: isolate the lowest zero bit, call `f` on its index, mark it done;
`some ret` when `f` returned something other than 0 or 1 -/
def searchWord (base : ℕ) : ℕ → BitVec 32 → ℕ × σ → Option ℤ × ℕ × σ
  | 0, _, a => (none, a)
  | j + 1, elemCpy, (found, s) =>
    if elemCpy = BitVec.allOnes 32 then (none, found, s)
    else
      let wndx := ~~~elemCpy &&& (elemCpy + 1)
      let r := f s (base + ntz wndx)
      if r.1 = 1 then searchWord base j (elemCpy ||| wndx) (found + 1, r.2)
      else if r.1 = 0 then searchWord base j (elemCpy ||| wndx) (found, r.2)
      else (some r.1, found, r.2)

/-- the outer loop from word `i` on; in the last word the unused bits are set first -/
def searchLoop (len : ℕ) : List (BitVec 32) → ℕ → ℕ × σ → ℤ × ℕ × σ
  | [], _, a => (0, a)
  | elem :: rest, i, a =>
    let elemCpy := if rest = [] then elem ||| (BitVec.allOnes 32 <<< (len % 32)) else elem
    match searchWord f (i * 32) 32 elemCpy a with
    | (some ret, a') => (ret, a')
    | (none, a') => searchLoop len rest (i + 1) a'

/-- `fla_flist_search_wfunc`: the result, `*found` (left alone when the flags are refused) and the state of `f` -/
def flaFlistSearchWfunc (fl : Freelist) (flags : BitVec 64) (found : ℕ) (s : σ) : ℤ × ℕ × σ :=
  if flags &&& flaFlistSearchExecFirst = 0 then (-eINVAL, found, s)
  else searchLoop f fl.len fl.words 0 (0, s)

/-- one call of `f` that goes on -/
def visit (a : ℕ × σ) (i : ℕ) : ℕ × σ := (a.1 + (f a.2 i).1.toNat, (f a.2 i).2)

/-- call `f` on the indices in turn and count the calls that return 1; a call that returns something other than 0 or 1
is the last, and its value is kept -/
def callEach : List ℕ → ℕ × σ → Option ℤ × ℕ × σ
  | [], a => (none, a)
  | i :: is, (found, s) =>
    let r := f s i
    if r.1 = 1 then callEach is (found + 1, r.2)
    else if r.1 = 0 then callEach is (found, r.2)
    else (some r.1, found, r.2)

/-- the search has returned: 0 unless a call stopped it -/
def ended (r : Option ℤ × ℕ × σ) : ℤ × ℕ × σ := (r.1.getD 0, r.2)

/-- the zero bits of a word, lowest first -/
def zeros (e : BitVec 32) : List ℕ := (List.range 32).filter fun b => !e.getLsbD b

theorem zeros_allOnes : zeros (BitVec.allOnes 32) = [] := by decide

theorem zeros_eq_cons {e : BitVec 32} {k : ℕ} (hk : k < 32) (hbit : e.getLsbD k = false)
    (hmin : ∀ j < k, e.getLsbD j = true) : zeros e = k :: zeros (e ||| BitVec.twoPow 32 k) := by
  have hsplit : List.range 32 = List.range k ++ k :: (List.range (31 - k)).map (k + 1 + ·) := by
    rw [show (32 : ℕ) = k + (1 + (31 - k)) by omega, List.range_add, List.range_add, List.map_append]
    simp [Nat.add_assoc]
  have hlow : ∀ j ∈ List.range k, e.getLsbD j = true := fun j hj => hmin j (List.mem_range.1 hj)
  have hlow' : ∀ j ∈ List.range k, (e ||| BitVec.twoPow 32 k).getLsbD j = true := fun j hj => by
    rw [BitVec.getLsbD_or, hlow j hj, Bool.true_or]
  have hnil : (List.range k).filter (fun b => !e.getLsbD b) = [] :=
    List.filter_eq_nil_iff.2 fun j hj => by simp [hlow j hj]
  have hnil' : (List.range k).filter (fun b => !(e ||| BitVec.twoPow 32 k).getLsbD b) = [] :=
    List.filter_eq_nil_iff.2 fun j hj => by rw [hlow' j hj]; decide
  have hk' : (e ||| BitVec.twoPow 32 k).getLsbD k = true := by simp [hk]
  unfold zeros
  rw [hsplit, List.filter_append, List.filter_append, List.filter_cons, List.filter_cons, hnil, hnil', hk', hbit]
  simp only [Bool.not_false, if_true, Bool.not_true, List.nil_append, Bool.false_eq_true, if_false, List.cons.injEq,
    true_and]
  refine List.filter_congr fun j hj => ?_
  obtain ⟨i, -, rfl⟩ := List.mem_map.1 hj
  rw [BitVec.getLsbD_or, BitVec.getLsbD_twoPow]
  simp [show k ≠ k + 1 + i by omega]

variable {f}

theorem callEach_cons (i : ℕ) (is : List ℕ) (a : ℕ × σ) : callEach f (i :: is) a =
    if (f a.2 i).1 = 1 then callEach f is (a.1 + 1, (f a.2 i).2)
    else if (f a.2 i).1 = 0 then callEach f is (a.1, (f a.2 i).2)
    else (some (f a.2 i).1, a.1, (f a.2 i).2) := rfl

theorem callEach_append (l m : List ℕ) (a : ℕ × σ) : callEach f (l ++ m) a =
    if (callEach f l a).1 = none then callEach f m (callEach f l a).2 else callEach f l a := by
  induction l generalizing a with
  | nil => rfl
  | cons i l ih =>
    rw [List.cons_append, callEach_cons, callEach_cons]
    by_cases h1 : (f a.2 i).1 = 1
    · rw [if_pos h1, if_pos h1, ih]
    · by_cases h0 : (f a.2 i).1 = 0
      · rw [if_neg h1, if_neg h1, if_pos h0, if_pos h0, ih]
      · rw [if_neg h1, if_neg h1, if_neg h0, if_neg h0]
        rfl

theorem callEach_visit (hf : ∀ s i, (f s i).1 = 0 ∨ (f s i).1 = 1) (l : List ℕ) (a : ℕ × σ) :
    callEach f l a = (none, l.foldl (visit f) a) := by
  induction l generalizing a with
  | nil => rfl
  | cons i l ih =>
    rw [callEach_cons, List.foldl_cons]
    rcases hf a.2 i with h0 | h1
    · rw [h0, if_neg (by decide), if_pos rfl, ih, visit, h0]
      rfl
    · rw [h1, if_pos rfl, ih, visit, h1]
      rfl

/-- the inner loop calls `f` on every zero bit, lowest first -/
theorem searchWord_eq (base j : ℕ) (e : BitVec 32) (a : ℕ × σ) (hj : (zeros e).length ≤ j) :
    searchWord f base j e a = callEach f ((zeros e).map (base + ·)) a := by
  induction j generalizing e a with
  | zero =>
    rw [List.length_eq_zero_iff.1 (Nat.le_zero.1 hj)]
    rfl
  | succ j ih =>
    unfold searchWord
    split_ifs with he
    · rw [he, zeros_allOnes]; rfl
    · have hne : ~~~e ≠ 0 := fun h => he (by rw [← BitVec.not_not (b := e), h]; decide)
      obtain ⟨k, hk, hset, hmin, hlow⟩ := low_spec (~~~e) hne
      rw [BitVec.neg_eq_not_add, BitVec.not_not, show (1#32) = (1 : BitVec 32) from rfl] at hlow
      have hbit : e.getLsbD k = false := by simpa [hk] using hset
      have hbelow : ∀ i < k, e.getLsbD i = true := fun i hi => by
        simpa [show i < 32 by omega] using hmin i hi
      have hz := zeros_eq_cons hk hbit hbelow
      have hlen : (zeros (e ||| BitVec.twoPow 32 k)).length ≤ j := by
        rw [hz, List.length_cons] at hj; omega
      simp only [hlow, ntz_twoPow k hk]
      rw [hz, List.map_cons, callEach_cons, ih _ _ hlen, ih _ _ hlen]

/-- the entries the search comes to: those of the last word only as far as `len % 32` -/
def searched (len elems i : ℕ) : Bool := decide (i / 32 + 1 < elems) || decide (i % 32 < len % 32)

theorem searchLoop_eq (len : ℕ) (ws : List (BitVec 32)) (i : ℕ) (a : ℕ × σ) : searchLoop f len ws i a =
    ended (callEach f (((List.range (32 * ws.length)).filter fun j => !bit ws j && searched len ws.length j).map
      (i * 32 + ·)) a) := by
  induction ws generalizing i a with
  | nil => rfl
  | cons e ws ih =>
    have hword : (zeros (if ws = [] then e ||| (BitVec.allOnes 32 <<< (len % 32)) else e)) =
        (List.range 32).filter fun j => !bit (e :: ws) j && searched len (ws.length + 1) j := by
      unfold zeros
      refine List.filter_congr fun j hj => ?_
      have hj32 := List.mem_range.1 hj
      rw [bit_cons _ _ _ (by decide), if_pos hj32, searched, Nat.div_eq_of_lt hj32, Nat.mod_eq_of_lt hj32]
      cases ws with
      | nil =>
        rw [if_pos rfl, BitVec.getLsbD_or, BitVec.getLsbD_shiftLeft, BitVec.getLsbD_allOnes]
        have hlt : j - len % 32 < 32 := by omega
        by_cases hu : j < len % 32 <;> simp [hj32, hu, hlt]
      | cons x ws => simp
    have hrest : ((List.range (32 * ws.length)).filter fun j => !bit ws j && searched len ws.length j) =
        ((List.range (32 * ws.length)).filter
          ((fun j => !bit (e :: ws) j && searched len (ws.length + 1) j) ∘ (32 + ·))) := by
      refine List.filter_congr fun j _ => ?_
      have h1 : (32 + j) / 32 = j / 32 + 1 := by omega
      simp [bit_cons e ws (32 + j) (by decide), searched, h1]
    have hmap : ∀ l : List ℕ, (l.map (32 + ·)).map (i * 32 + ·) = l.map ((i + 1) * 32 + ·) := fun l => by
      rw [List.map_map]; exact List.map_congr_left fun j _ => by simp only [Function.comp]; omega
    have hfuel : ∀ x : BitVec 32, (zeros x).length ≤ 32 := fun x =>
      (List.length_filter_le _ _).trans (List.length_range).le
    have hlist : (((List.range (32 * (e :: ws).length)).filter
          fun j => !bit (e :: ws) j && searched len (e :: ws).length j).map (i * 32 + ·)) =
        ((zeros (if ws = [] then e ||| (BitVec.allOnes 32 <<< (len % 32)) else e)).map (i * 32 + ·)) ++
          (((List.range (32 * ws.length)).filter fun j => !bit ws j && searched len ws.length j).map ((i + 1) * 32 + ·)) := by
      rw [hword, List.length_cons, show 32 * (ws.length + 1) = 32 + 32 * ws.length by ring, List.range_add,
        List.filter_append, List.map_append, List.filter_map, hmap, hrest]
    rw [hlist, callEach_append, ← searchWord_eq _ _ _ _ (hfuel _), searchLoop]
    cases hcall : searchWord f (i * 32) 32 (if ws = [] then e ||| (BitVec.allOnes 32 <<< (len % 32)) else e) a with
    | mk stop a' =>
      cases stop with
      | none => exact ih _ _
      | some ret => rfl

/-- **The search calls** its function on the reserved entries in increasing order, except that when the length is a
multiple of 32 it passes over the last 32 of them. -/
theorem search_calls (fl : Freelist) (found : ℕ) (s : σ) :
    flaFlistSearchWfunc f fl flaFlistSearchExecFirst found s = ended (callEach f
      (fl.reserved.filter fun i => decide (fl.len % 32 ≠ 0) || decide (i + 32 < fl.len)) (0, s)) := by
  rw [flaFlistSearchWfunc, if_neg (by decide), searchLoop_eq]
  obtain ⟨hle, hlt⟩ := u32Elems_mul fl.len
  have hsplit : 32 * fl.words.length = fl.len + (32 * fl.words.length - fl.len) := by rw [fl.size]; omega
  have hpad : ((List.range (32 * fl.words.length - fl.len)).map (fl.len + ·)).filter
      (fun j => !bit fl.words j && searched fl.len fl.words.length j) = [] := by
    refine List.filter_eq_nil_iff.2 fun j hj => ?_
    obtain ⟨i, hi, rfl⟩ := List.mem_map.1 hj
    have hi' := List.mem_range.1 hi
    have : searched fl.len fl.words.length (fl.len + i) = false := by
      rw [fl.size] at hi' ⊢
      simp only [searched, Bool.or_eq_false_iff, decide_eq_false_iff_not]
      omega
    simp [this]
  rw [hsplit, List.range_add, List.filter_append, hpad, List.append_nil, Freelist.reserved, List.filter_filter]
  have hid : ∀ l : List ℕ, l.map (0 * 32 + ·) = l := fun l => by simp
  rw [hid]
  refine congrArg (fun l => ended (callEach f l (0, s))) (List.filter_congr fun i hi => ?_)
  have hi' := List.mem_range.1 hi
  have hs : searched fl.len fl.words.length i = (decide (fl.len % 32 ≠ 0) || decide (i + 32 < fl.len)) := by
    rw [fl.size, searched, Bool.eq_iff_iff]
    simp only [Bool.or_eq_true, decide_eq_true_eq]
    omega
  rw [hs, Bool.and_comm]
  rfl

theorem search_visits (hf : ∀ s i, (f s i).1 = 0 ∨ (f s i).1 = 1) (fl : Freelist) (found : ℕ) (s : σ) :
    flaFlistSearchWfunc f fl flaFlistSearchExecFirst found s =
      (0, (fl.reserved.filter fun i => decide (fl.len % 32 ≠ 0) || decide (i + 32 < fl.len)).foldl (visit f) (0, s)) := by
  rw [search_calls, callEach_visit hf]
  rfl

end Search

end FlexAlloc
