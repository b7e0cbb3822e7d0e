/-
The freelist over whole histories of calls.

`Freelist.free fl` lists the free entries in increasing order: taking an entry takes its head (`free_takeEntry`) and
taking `num` entries drops that many, or all there are (`entriesAlloc_spec`).

- `flist_implements_set`: a freelist whose entries are taken one by one is a set of free indices.
- `free_outside_rejected`: an index past the list is refused unless it is the length itself.
  `free_len_accepted`: the length is taken for an index, and is handed out later.
- `multi_alloc_atomic_iff`: taking several entries is all or nothing if and only if there are none or enough.
  `partial_alloc_kept`: two of three.
- `stride_contiguous_iff`: taking and giving back blocks of one size, a block is always contiguous and aligned; its index
  is returned as such if and only if the last block starts below 2^31. `stride_negative`: a block that does not.
-/
import FlexAlloc.Freelist
import FlexAlloc.Core.Run

namespace FlexAlloc

open FlexAlloc.Core

/-! ## The free entries in order -/

/-- the free entries, lowest first -/
def Freelist.free (fl : Freelist) : List ℕ := (List.range fl.len).filter fl.isFree

theorem mem_free {fl : Freelist} (hok : fl.Ok) {i : ℕ} : i ∈ fl.free ↔ fl.isFree i = true := by
  rw [Freelist.free, List.mem_filter, List.mem_range]
  refine ⟨fun h => h.2, fun h => ⟨?_, h⟩⟩
  by_contra hge
  rw [hok i (not_lt.1 hge)] at h
  cases h

theorem free_lt {fl : Freelist} {i : ℕ} (h : i ∈ fl.free) : i < fl.len :=
  List.mem_range.1 (List.mem_filter.1 h).1

theorem free_nodup (fl : Freelist) : fl.free.Nodup := List.nodup_range.filter _

theorem init_free (len : ℕ) : (flaFlistInit len).free = List.range len := by
  refine List.filter_eq_self.2 fun i hi => ?_
  rw [init_isFree]
  exact decide_eq_true (List.mem_range.1 hi)

theorem free_length (fl : Freelist) : fl.free.length + fl.reserved.length = fl.len := by
  have hsum := List.length_eq_length_filter_add (l := List.range fl.len) fl.isFree
  rw [List.length_range] at hsum
  exact hsum.symm

theorem free_count {fl : Freelist} (hok : fl.Ok) (hlen : fl.len < 2 ^ 32) :
    fl.free.length = fl.len - flaFlistNumReserved fl := by
  have h := free_length fl
  rw [numReserved_eq hok hlen]
  omega

theorem free_takeEntry_none {fl : Freelist} (h : takeEntry fl = none) : fl.free = [] :=
  List.filter_eq_nil_iff.2 fun i _ => by simp [takeEntry_none h i]

/-- **Taking an entry** takes the first of the free ones. -/
theorem free_takeEntry {fl fl' : Freelist} {k : ℕ} (hok : fl.Ok) (h : takeEntry fl = some (k, fl')) :
    fl.free = k :: fl'.free := by
  obtain ⟨hk, hmin, hlen, hrest⟩ := takeEntry_some h
  have hlt := takeEntry_lt hok h
  have hsplit : List.range fl.len = List.range k ++ k :: (List.range (fl.len - k - 1)).map (k + 1 + ·) := by
    rw [show fl.len = k + (1 + (fl.len - k - 1)) by omega, List.range_add, List.range_add, List.map_append]
    simp [Nat.add_assoc]
  have hlow : (List.range k).filter fl.isFree = [] :=
    List.filter_eq_nil_iff.2 fun j hj => by simp [hmin j (List.mem_range.1 hj)]
  have hlow' : (List.range k).filter fl'.isFree = [] :=
    List.filter_eq_nil_iff.2 fun j hj => by simp [hrest, hmin j (List.mem_range.1 hj)]
  have hk' : fl'.isFree k = false := by simp [hrest]
  have hhigh : ((List.range (fl.len - k - 1)).map (k + 1 + ·)).filter fl'.isFree =
      ((List.range (fl.len - k - 1)).map (k + 1 + ·)).filter fl.isFree := by
    refine List.filter_congr fun j hj => ?_
    obtain ⟨i, -, rfl⟩ := List.mem_map.1 hj
    rw [hrest]
    have hne : k + 1 + i ≠ k := by omega
    simp [hne]
  unfold Freelist.free
  rw [hlen, hsplit, List.filter_append, List.filter_append, hlow, hlow', List.filter_cons_of_pos hk,
    List.filter_cons_of_neg (by simp [hk']), hhigh]
  rfl

theorem toInt_ne_neg_one {k : ℕ} (h : k < 2 ^ 32 - 1) : toInt k ≠ -1 := by
  unfold toInt
  rw [u32_of_lt (by omega)]
  split_ifs <;> omega

theorem entryAlloc_nil {fl : Freelist} (hok : fl.Ok) (h : fl.free = []) : flaFlistEntryAlloc fl = (-1, fl) := by
  unfold flaFlistEntryAlloc
  cases ht : takeEntry fl with
  | none => rfl
  | some r =>
    rw [free_takeEntry hok ht] at h
    cases h

theorem entryAlloc_cons {fl : Freelist} {k : ℕ} {rest : List ℕ} (hok : fl.Ok) (h : fl.free = k :: rest) :
    ∃ fl', flaFlistEntryAlloc fl = (toInt k, fl') ∧ fl'.free = rest ∧ fl'.Ok ∧ fl'.len = fl.len := by
  unfold flaFlistEntryAlloc
  cases ht : takeEntry fl with
  | none =>
    rw [free_takeEntry_none ht] at h
    cases h
  | some r =>
    obtain ⟨j, fl'⟩ := r
    rw [free_takeEntry hok ht] at h
    cases h
    exact ⟨fl', rfl, rfl, takeEntry_ok hok ht, (takeEntry_some ht).2.2.1⟩

section Several

variable {fl : Freelist} (hlen : fl.len < 2 ^ 32)

include hlen

theorem entriesAllocLoop_spec (n : ℕ) (ret : ℤ) (hok : fl.Ok) :
    ∃ fl', entriesAllocLoop n ret fl = (if n ≤ fl.free.length then ret else -1, fl') ∧ fl'.free = fl.free.drop n ∧
      fl'.Ok ∧ fl'.len = fl.len := by
  induction n generalizing fl with
  | zero => exact ⟨fl, by simp [entriesAllocLoop], rfl, hok, rfl⟩
  | succ n ih =>
    cases hfree : fl.free with
    | nil =>
      refine ⟨fl, ?_, by rw [hfree, List.drop_nil], hok, rfl⟩
      rw [entriesAllocLoop, entryAlloc_nil hok hfree]
      simp
    | cons k rest =>
      obtain ⟨fl₁, hone, hrest, hok₁, hlen₁⟩ := entryAlloc_cons hok hfree
      have hk : k < fl.len := free_lt (hfree ▸ List.mem_cons_self)
      obtain ⟨fl', hloop, hdrop, hok', hlen'⟩ := ih (hlen₁ ▸ hlen) hok₁
      refine ⟨fl', ?_, by rw [hdrop, hrest, List.drop_succ_cons], hok', hlen'.trans hlen₁⟩
      rw [entriesAllocLoop, hone]
      dsimp only
      rw [if_neg (toInt_ne_neg_one (by omega)), hloop, hrest, List.length_cons]
      simp only [Nat.add_le_add_iff_right]

/-- **Taking `num` entries** takes the `num` lowest free ones and returns the first; when there are not as many it takes
all there are and returns -1. -/
theorem entriesAlloc_spec {num : ℕ} (hok : fl.Ok) (h1 : 1 ≤ num) (hnum : num < 2 ^ 32) :
    ∃ fl', flaFlistEntriesAlloc fl num = (if num ≤ fl.free.length then toInt (fl.free.headD 0) else -1, fl') ∧
      fl'.free = fl.free.drop num ∧ fl'.Ok ∧ fl'.len = fl.len ∧ (fl.free = [] → fl' = fl) := by
  obtain ⟨n, rfl⟩ : ∃ n, num = n + 1 := ⟨num - 1, by omega⟩
  have hsub : sub32 (n + 1) 1 = n := by
    rw [sub32_of_le (by omega) hnum]
    omega
  unfold flaFlistEntriesAlloc
  dsimp only
  rw [hsub]
  cases hfree : fl.free with
  | nil =>
    rw [entryAlloc_nil hok hfree]
    obtain ⟨fl', hloop, hdrop, hok', hlen'⟩ := entriesAllocLoop_spec hlen n (-1) hok
    rw [hfree, List.drop_nil] at hdrop
    by_cases hn : n = 0
    · subst hn
      exact ⟨fl, by simp, by rw [hfree, List.drop_nil], hok, rfl, fun _ => rfl⟩
    · -- the next one fails as well, on the same list
      obtain ⟨m, rfl⟩ := Nat.exists_eq_succ_of_ne_zero hn
      rw [if_neg (by omega)]
      refine ⟨fl, ?_, by rw [hfree, List.drop_nil], hok, rfl, fun _ => rfl⟩
      rw [entriesAllocLoop, entryAlloc_nil hok hfree]
      simp
  | cons k rest =>
    obtain ⟨fl₁, hone, hrest, hok₁, hlen₁⟩ := entryAlloc_cons hok hfree
    rw [hone]
    by_cases hn : n = 0
    · subst hn
      exact ⟨fl₁, by simp, by rw [hrest]; rfl, hok₁, hlen₁, fun h => absurd h (List.cons_ne_nil _ _)⟩
    · rw [if_neg (by omega)]
      obtain ⟨fl', hloop, hdrop, hok', hlen'⟩ := entriesAllocLoop_spec (hlen₁ ▸ hlen) n (toInt k) hok₁
      refine ⟨fl', ?_, by rw [hdrop, hrest, List.drop_succ_cons], hok', hlen'.trans hlen₁,
        fun h => absurd h (List.cons_ne_nil _ _)⟩
      rw [hloop, hrest, List.length_cons]
      simp only [Nat.add_le_add_iff_right, List.headD_cons]

end Several

/-! ## One entry at a time -/

/-- a call that takes or gives back one entry, or resets the list -/
inductive EntryCall where
  | alloc
  | free (ndx : ℕ)
  | reset
deriving DecidableEq, Repr

/-- the return value (0 for a reset, which has none) and the list -/
def EntryCall.perform (fl : Freelist) : EntryCall → Ret (ℤ × Freelist)
  | .alloc => .ok (flaFlistEntriesAlloc fl 1)
  | .free ndx => flaFlistEntryFree fl ndx
  | .reset => .ok (0, flaFlistReset fl)

/-- the return values of calls made one after another, and the list at the end -/
def entryCalls : Freelist → List EntryCall → Ret (List ℤ × Freelist)
  | fl, [] => .ok ([], fl)
  | fl, c :: calls => do
    let (ret, fl) ← c.perform fl
    let (rets, fl) ← entryCalls fl calls
    .ok (ret :: rets, fl)

/-- the same call on a set of free indices below `len` -/
def EntryCall.onSet (len : ℕ) (S : Finset ℕ) : EntryCall → ℤ × Finset ℕ
  | .alloc => if h : S.Nonempty then (S.min' h, S.erase (S.min' h)) else (-1, S)
  | .free ndx => (0, insert ndx S)
  | .reset => (0, Finset.range len)

def setCalls (len : ℕ) : Finset ℕ → List EntryCall → List ℤ × Finset ℕ
  | S, [] => ([], S)
  | S, c :: calls =>
    let r := c.onSet len S
    let q := setCalls len r.2 calls
    (r.1 :: q.1, q.2)

/-- the freelist holds the set: `free` entries are its elements, none of them at or past the length, where the bits of
the last word are padding, and the others are counted as reserved -/
structure HoldsSet (fl : Freelist) (len : ℕ) (S : Finset ℕ) : Prop where
  len_eq : fl.len = len
  free : ∀ i, fl.isFree i = true ↔ i ∈ S
  padding : fl.Ok
  below : ∀ i ∈ S, i < len
  reserved : flaFlistNumReserved fl = len - S.card

theorem holdsSet_free {fl : Freelist} (hok : fl.Ok) (hlen : fl.len < 2 ^ 32) : HoldsSet fl fl.len fl.free.toFinset := by
  refine ⟨rfl, fun i => ?_, hok, fun i hi => free_lt (List.mem_toFinset.1 hi), ?_⟩
  · rw [List.mem_toFinset, mem_free hok]
  · have h := free_length fl
    rw [List.toFinset_card_of_nodup (free_nodup fl), numReserved_eq hok hlen]
    omega

theorem HoldsSet.eq_free {fl : Freelist} {len : ℕ} {S : Finset ℕ} (h : HoldsSet fl len S) : S = fl.free.toFinset := by
  ext i
  rw [List.mem_toFinset, mem_free h.padding, h.free]

section Set

variable {fl : Freelist} {len : ℕ} {S : Finset ℕ}

theorem free_sorted (fl : Freelist) : fl.free.Pairwise (· < ·) :=
  List.Pairwise.filter _ List.pairwise_lt_range

theorem min_free {k : ℕ} {rest : List ℕ} (h : fl.free = k :: rest) (hne : fl.free.toFinset.Nonempty) :
    fl.free.toFinset.min' hne = k := by
  have hmem : k ∈ fl.free.toFinset := by simp [h]
  refine le_antisymm (Finset.min'_le _ _ hmem) (Finset.le_min' _ _ _ fun i hi => ?_)
  rw [List.mem_toFinset, h] at hi
  rcases List.mem_cons.1 hi with rfl | hi
  · exact le_rfl
  · have hsorted := free_sorted fl
    rw [h] at hsorted
    exact (List.rel_of_pairwise_cons hsorted hi).le

/-- **One call** on a freelist is the call on its set. -/
theorem perform_holdsSet (hlen : len ≤ 2 ^ 31 - 1) (h : HoldsSet fl len S) (c : EntryCall)
    (hc : ∀ ndx, c = .free ndx → ndx < len) :
    ∃ fl', c.perform fl = .ok ((c.onSet len S).1, fl') ∧ HoldsSet fl' len (c.onSet len S).2 := by
  obtain rfl := h.len_eq
  have hok := h.padding
  have hS := h.eq_free
  cases c with
  | alloc =>
    unfold EntryCall.perform EntryCall.onSet
    rw [entriesAlloc_one]
    cases hfree : fl.free with
    | nil =>
      have hempty : ¬ S.Nonempty := by rw [hS, hfree]; simp
      rw [dif_neg hempty, entryAlloc_nil hok hfree]
      exact ⟨fl, rfl, h⟩
    | cons k rest =>
      obtain ⟨fl', hone, hrest, hok', hlen'⟩ := entryAlloc_cons hok hfree
      have hne : S.Nonempty := by rw [hS, hfree]; simp
      have hmin : S.min' hne = k := by
        subst hS
        exact min_free hfree hne
      have hk : k < fl.len := free_lt (hfree ▸ List.mem_cons_self)
      rw [dif_pos hne, hmin, hone]
      refine ⟨fl', by rw [toInt_of_lt (by omega)], ?_⟩
      have hS' : S.erase k = fl'.free.toFinset := by
        have hnd := free_nodup fl
        rw [hfree] at hnd
        rw [hS, hfree, hrest, List.toFinset_cons, Finset.erase_insert (by simpa using (List.nodup_cons.1 hnd).1)]
      rw [hS', ← hlen']
      exact holdsSet_free hok' (by omega)
  | free ndx =>
    obtain ⟨fl', hfree, hlen', hbits⟩ := entryFree_of_lt (hc ndx rfl)
    refine ⟨fl', hfree, ?_⟩
    have hok' := free_ok hok (hc ndx rfl) hlen' hbits
    have hS' : insert ndx S = fl'.free.toFinset := by
      ext i
      rw [List.mem_toFinset, mem_free hok', hbits, Finset.mem_insert, ← h.free]
      simp [or_comm]
    show HoldsSet fl' fl.len (insert ndx S)
    rw [hS', ← hlen']
    exact holdsSet_free hok' (by omega)
  | reset =>
    refine ⟨flaFlistInit fl.len, rfl, ?_⟩
    have hS' : Finset.range fl.len = (flaFlistInit fl.len).free.toFinset := by
      ext i
      rw [init_free]
      simp
    show HoldsSet (flaFlistInit fl.len) fl.len (Finset.range fl.len)
    rw [hS']
    exact holdsSet_free (init_ok _) (by show fl.len < 2 ^ 32; omega)

theorem entryCalls_holdsSet (hlen : len ≤ 2 ^ 31 - 1) (calls : List EntryCall)
    (hcalls : ∀ ndx, .free ndx ∈ calls → ndx < len) (h : HoldsSet fl len S) :
    ∃ fl', entryCalls fl calls = .ok ((setCalls len S calls).1, fl') ∧ HoldsSet fl' len (setCalls len S calls).2 := by
  induction calls generalizing fl S with
  | nil => exact ⟨fl, rfl, h⟩
  | cons c calls ih =>
    obtain ⟨fl₁, hone, h₁⟩ := perform_holdsSet hlen h c fun ndx hc => hcalls ndx (hc ▸ List.mem_cons_self)
    obtain ⟨fl', hrest, h'⟩ := ih (fun ndx hmem => hcalls ndx (List.mem_cons_of_mem _ hmem)) h₁
    refine ⟨fl', ?_, h'⟩
    rw [entryCalls, hone, ok_bind]
    dsimp only
    rw [hrest, ok_bind]
    rfl

end Set

/-- **A freelist is a set of free indices.** From a fresh list, the calls return what they return on a set that starts
full, none of them faults, and the list holds the set. -/
theorem flist_implements_set {len : ℕ} (h1 : 1 ≤ len) (hlen : len ≤ 2 ^ 31 - 1) (calls : List EntryCall)
    (hcalls : ∀ ndx, .free ndx ∈ calls → ndx < len) :
    ∃ fl, entryCalls (flaFlistInit len) calls = .ok ((setCalls len (Finset.range len) calls).1, fl) ∧
      HoldsSet fl len (setCalls len (Finset.range len) calls).2 := by
  have hinit : HoldsSet (flaFlistInit len) len (Finset.range len) := by
    have h := holdsSet_free (init_ok len) (show (flaFlistInit len).len < 2 ^ 32 by show len < 2 ^ 32; omega)
    rwa [init_free, List.toFinset_range] at h
  exact entryCalls_holdsSet hlen calls hcalls hinit

/-- a list that fills its word and one more -/
theorem flist_implements_set_37 : ∃ fl,
    entryCalls (flaFlistInit 37) [.alloc, .alloc, .free 0, .alloc] = .ok ([0, 1, 0, 0], fl) ∧
    HoldsSet fl 37 (setCalls 37 (Finset.range 37) [.alloc, .alloc, .free 0, .alloc]).2 := by
  have h := flist_implements_set (show 1 ≤ 37 by decide) (by decide) [.alloc, .alloc, .free 0, .alloc]
    (fun ndx hmem => by simp at hmem; omega)
  rwa [show (setCalls 37 (Finset.range 37) [.alloc, .alloc, .free 0, .alloc]).1 = [0, 1, 0, 0] by decide +kernel] at h

/-! ## Indices past the list -/

section Outside

variable {fl : Freelist} {len : ℕ}

theorem entryFree_past {ndx : ℕ} (h : fl.len < ndx) : flaFlistEntryFree fl ndx = .ok (-1, fl) := if_pos h

/-- the length of a list is not refused -/
theorem entryFree_len (fl : Freelist) : flaFlistEntryFree fl fl.len ≠ .ok (-1, fl) := by
  unfold flaFlistEntryFree
  rw [if_neg (lt_irrefl _)]
  split_ifs
  · intro h
    have hret : (0 : ℤ) = -1 := congrArg Prod.fst (Except.ok.inj h)
    exact absurd hret (by decide)
  · intro h
    cases h

/-- no index that a well formed list hands out is at or past its length -/
theorem entryAlloc_below (h1 : 1 ≤ fl.len) (hok : fl.Ok) :
    ∃ ret fl', flaFlistEntriesAlloc fl 1 = (ret, fl') ∧ ret < fl.len ∧ fl'.len = fl.len ∧ fl'.Ok := by
  rw [entriesAlloc_one]
  cases hfree : fl.free with
  | nil => exact ⟨-1, fl, entryAlloc_nil hok hfree, by omega, rfl, hok⟩
  | cons k rest =>
    obtain ⟨fl', hone, -, hok', hlen'⟩ := entryAlloc_cons hok hfree
    have hk : k < fl.len := free_lt (hfree ▸ List.mem_cons_self)
    have hle : toInt k ≤ k := by
      unfold toInt u32
      split_ifs <;> omega
    exact ⟨toInt k, fl', hone, by omega, hlen', hok'⟩

theorem perform_ok {c : EntryCall} (h1 : 1 ≤ len) (hl : fl.len = len) (hok : fl.Ok) (hc : c ≠ .free len) :
    ∃ ret fl', c.perform fl = .ok (ret, fl') ∧ ret < len ∧ fl'.len = len ∧ fl'.Ok := by
  subst hl
  cases c with
  | alloc =>
    obtain ⟨ret, fl', hone, hlt, hlen', hok'⟩ := entryAlloc_below h1 hok
    exact ⟨ret, fl', congrArg Except.ok hone, hlt, hlen', hok'⟩
  | free ndx =>
    rcases lt_trichotomy ndx fl.len with hlt | heq | hgt
    · obtain ⟨fl', hfree, hlen', hbits⟩ := entryFree_of_lt hlt
      exact ⟨0, fl', hfree, by omega, hlen', free_ok hok hlt hlen' hbits⟩
    · exact absurd (by rw [heq]) hc
    · exact ⟨-1, fl, entryFree_past hgt, by omega, rfl, hok⟩
  | reset => exact ⟨0, flaFlistInit fl.len, rfl, by omega, rfl, init_ok _⟩

theorem entryCalls_ok (h1 : 1 ≤ len) (calls : List EntryCall) (hcalls : .free len ∉ calls) (hl : fl.len = len)
    (hok : fl.Ok) :
    ∃ rets fl', entryCalls fl calls = .ok (rets, fl') ∧ (∀ r ∈ rets, r < len) ∧ fl'.len = len ∧ fl'.Ok := by
  induction calls generalizing fl with
  | nil => exact ⟨[], fl, rfl, nofun, hl, hok⟩
  | cons c calls ih =>
    obtain ⟨ret, fl₁, hone, hret, hl₁, hok₁⟩ := perform_ok h1 hl hok fun hc => hcalls (hc ▸ List.mem_cons_self)
    obtain ⟨rets, fl', hrest, hrets, hl', hok'⟩ := ih (fun hmem => hcalls (List.mem_cons_of_mem _ hmem)) hl₁ hok₁
    refine ⟨ret :: rets, fl', ?_, ?_, hl', hok'⟩
    · rw [entryCalls, hone, ok_bind]
      dsimp only
      rw [hrest, ok_bind]
    · intro r hr
      rcases List.mem_cons.1 hr with rfl | hr
      · exact hret
      · exact hrets r hr

end Outside

/-- **Indices past the list.** In every history of calls with any indices but the length itself, no call faults, no index
that is handed out lies past the list and no more than `len` entries are reserved; and in the list reached, an index at or
past the length is refused without a trace if and only if it is not the length. -/
theorem free_outside_rejected {len : ℕ} (h1 : 1 ≤ len) (hlen : len < 2 ^ 32) (calls : List EntryCall)
    (hcalls : .free len ∉ calls) :
    ∃ rets fl, entryCalls (flaFlistInit len) calls = .ok (rets, fl) ∧ (∀ r ∈ rets, r < len) ∧
      flaFlistNumReserved fl ≤ len ∧
      ∀ ndx, len ≤ ndx → (flaFlistEntryFree fl ndx = .ok (-1, fl) ↔ ndx ≠ len) := by
  obtain ⟨rets, fl, hrun, hrets, hl, hok⟩ := entryCalls_ok h1 calls hcalls rfl (init_ok len)
  refine ⟨rets, fl, hrun, hrets, ?_, fun ndx hndx => ?_⟩
  · have h := free_length fl
    rw [numReserved_eq hok (hl ▸ hlen)]
    omega
  · constructor
    · rintro hrej rfl
      rw [← hl] at hrej
      exact entryFree_len fl hrej
    · intro hne
      exact entryFree_past (by omega)

/-- eight entries, and indices around them -/
theorem free_outside_rejected_8 : ∃ rets fl, entryCalls (flaFlistInit 8) [.alloc, .free 9, .free 0, .free 4000000000] =
      .ok (rets, fl) ∧ (∀ r ∈ rets, r < 8) ∧ flaFlistNumReserved fl ≤ 8 ∧
    ∀ ndx, 8 ≤ ndx → (flaFlistEntryFree fl ndx = .ok (-1, fl) ↔ ndx ≠ 8) :=
  free_outside_rejected (by decide) (by decide) _ (by decide)

/-- **The length is taken for an index.** Giving back entry 8 of a list of eight succeeds: the list counts nine free
entries, and after the eight there are, entry 8 is handed out. When the length fills its words, the write lands past them. -/
theorem free_len_accepted :
    (∃ fl, entryCalls (flaFlistInit 8) (.free 8 :: List.replicate 9 .alloc) =
      .ok ([0, 0, 1, 2, 3, 4, 5, 6, 7, 8], fl)) ∧
    (∃ fl, flaFlistEntryFree (flaFlistInit 8) 8 = .ok (0, fl) ∧ flaFlistNumReserved fl = 2 ^ 32 - 1) ∧
    flaFlistEntryFree (flaFlistInit 32) 32 = .error .outOfBounds := by
  refine ⟨?_, ?_, rfl⟩
  · obtain ⟨r, hr, hrets⟩ := Option.map_eq_some_iff.1 (show ((entryCalls (flaFlistInit 8)
      (.free 8 :: List.replicate 9 .alloc)).toOption).map (·.1) = some [0, 0, 1, 2, 3, 4, 5, 6, 7, 8] by decide +kernel)
    exact ⟨r.2, by rw [toOption_eq_some hr, ← hrets]⟩
  · obtain ⟨r, hr, hret⟩ := Option.map_eq_some_iff.1 (show ((flaFlistEntryFree (flaFlistInit 8) 8).toOption).map
      (fun r => (r.1, flaFlistNumReserved r.2)) = some (0, 2 ^ 32 - 1) by decide +kernel)
    obtain ⟨hzero, hnum⟩ := Prod.mk.inj hret
    exact ⟨r.2, by rw [toOption_eq_some hr, ← hzero], hnum⟩

/-! ## Several entries at a time -/

/-- **Giving back `num` entries** makes exactly these free. -/
theorem entriesFree_spec {fl : Freelist} {ndx num : ℕ} (hlen : fl.len < 2 ^ 32) (hok : fl.Ok) (h : ndx + num ≤ fl.len) :
    ∃ fl', flaFlistEntriesFree fl ndx num = .ok (0, fl') ∧ fl'.len = fl.len ∧ fl'.Ok ∧
      ∀ j, fl'.isFree j = (fl.isFree j || decide (ndx ≤ j ∧ j < ndx + num)) := by
  induction num generalizing fl ndx with
  | zero => exact ⟨fl, rfl, rfl, hok, fun j => by simp⟩
  | succ num ih =>
    obtain ⟨fl₁, hone, hlen₁, hbits₁⟩ := entryFree_of_lt (show ndx < fl.len by omega)
    have hok₁ := free_ok hok (by omega) hlen₁ hbits₁
    obtain ⟨fl', hrest, hlen', hok', hbits'⟩ := ih (hlen₁ ▸ hlen) hok₁ (show ndx + 1 + num ≤ fl₁.len by omega)
    refine ⟨fl', ?_, hlen'.trans hlen₁, hok', fun j => ?_⟩
    · rw [flaFlistEntriesFree, u32_of_lt (by omega), hone, ok_bind, if_neg (by simp), hrest]
    · rw [hbits', hbits₁, Bool.or_assoc, ← Bool.decide_or]
      congr 1
      exact decide_eq_decide.2 (by omega)

/-- the lists that are reached from a fresh one by any calls, with indices within the list -/
inductive Reachable (len : ℕ) : Freelist → Prop
  | init : Reachable len (flaFlistInit len)
  | alloc {fl : Freelist} (num : ℕ) (h1 : 1 ≤ num) (hnum : num < 2 ^ 32) (h : Reachable len fl) :
    Reachable len (flaFlistEntriesAlloc fl num).2
  | free {fl fl' : Freelist} {ret : ℤ} (ndx num : ℕ) (hndx : ndx + num ≤ len) (h : Reachable len fl)
    (hfree : flaFlistEntriesFree fl ndx num = .ok (ret, fl')) : Reachable len fl'
  | freeOne {fl fl' : Freelist} {ret : ℤ} (ndx : ℕ) (hndx : ndx < len) (h : Reachable len fl)
    (hfree : flaFlistEntryFree fl ndx = .ok (ret, fl')) : Reachable len fl'
  | reset {fl : Freelist} (h : Reachable len fl) : Reachable len (flaFlistReset fl)

theorem Reachable.ok {len : ℕ} {fl : Freelist} (hlen : len < 2 ^ 32) (h : Reachable len fl) : fl.len = len ∧ fl.Ok := by
  induction h with
  | init => exact ⟨rfl, init_ok len⟩
  | alloc num h1 hnum _ ih =>
    obtain ⟨hl, hok⟩ := ih
    obtain ⟨fl', hcall, -, hok', hlen', -⟩ := entriesAlloc_spec (hl ▸ hlen) hok h1 hnum
    rw [hcall]
    exact ⟨hlen'.trans hl, hok'⟩
  | free ndx num hndx _ hfree ih =>
    obtain ⟨hl, hok⟩ := ih
    obtain ⟨fl₁, hcall, hlen', hok', -⟩ := entriesFree_spec (hl ▸ hlen) hok (hl ▸ hndx)
    rw [hcall] at hfree
    cases hfree
    exact ⟨hlen'.trans hl, hok'⟩
  | freeOne ndx hndx _ hfree ih =>
    obtain ⟨hl, hok⟩ := ih
    obtain ⟨fl₁, hcall, hlen', hbits⟩ := entryFree_of_lt (hl ▸ hndx)
    rw [hcall] at hfree
    cases hfree
    exact ⟨hlen'.trans hl, free_ok hok (hl ▸ hndx) hlen' hbits⟩
  | reset _ ih => exact ⟨ih.1, init_ok _⟩

/-- **All or nothing.** A call for `num` entries that fails leaves the list as it was, and fails only for want of entries,
if and only if no entry is free or `num` are. -/
theorem multi_alloc_atomic_iff {len num : ℕ} {fl : Freelist} (hlen : len < 2 ^ 32) (h : Reachable len fl) (h1 : 1 ≤ num)
    (hnum : num < 2 ^ 32) :
    ((flaFlistEntriesAlloc fl num).1 = -1 →
      (flaFlistEntriesAlloc fl num).2 = fl ∧ len - flaFlistNumReserved fl < num) ↔
    (len - flaFlistNumReserved fl = 0 ∨ num ≤ len - flaFlistNumReserved fl) := by
  obtain ⟨rfl, hok⟩ := h.ok hlen
  obtain ⟨fl', hcall, hdrop, -, -, hnone⟩ := entriesAlloc_spec hlen hok h1 hnum
  rw [← free_count hok hlen, hcall]
  by_cases hfew : num ≤ fl.free.length
  · -- enough: the call does not fail
    refine iff_of_true (fun hret => ?_) (Or.inr hfew)
    have hne : fl.free ≠ [] := fun he => by rw [he, List.length_nil] at hfew; omega
    have hhead : fl.free.headD 0 < fl.len := by
      obtain ⟨k, rest, hfree⟩ := List.exists_cons_of_ne_nil hne
      have hk : k ∈ fl.free := by rw [hfree]; exact List.mem_cons_self
      rw [hfree]
      exact free_lt hk
    dsimp only at hret
    rw [if_pos hfew] at hret
    exact absurd hret (toInt_ne_neg_one (by omega))
  · rw [if_neg hfew]
    by_cases hzero : fl.free = []
    · exact iff_of_true (fun _ => ⟨hnone hzero, by omega⟩) (Or.inl (by rw [hzero, List.length_nil]))
    · -- some but not enough: they are gone
      refine iff_of_false (fun hatomic => ?_) (fun hcond => ?_)
      · have hsame : fl' = fl := (hatomic rfl).1
        rw [hsame, List.drop_eq_nil_of_le (by omega)] at hdrop
        exact hzero hdrop
      · rcases hcond with hcond | hcond
        · exact hzero (List.length_eq_zero_iff.1 hcond)
        · exact hfew hcond

/-- a list of four, of which two are taken -/
theorem multi_alloc_atomic_four :
    ((flaFlistEntriesAlloc (flaFlistEntriesAlloc (flaFlistInit 4) 2).2 2).1 = -1 →
      (flaFlistEntriesAlloc (flaFlistEntriesAlloc (flaFlistInit 4) 2).2 2).2 = (flaFlistEntriesAlloc (flaFlistInit 4) 2).2 ∧
      4 - flaFlistNumReserved (flaFlistEntriesAlloc (flaFlistInit 4) 2).2 < 2) ↔
    (4 - flaFlistNumReserved (flaFlistEntriesAlloc (flaFlistInit 4) 2).2 = 0 ∨
      2 ≤ 4 - flaFlistNumReserved (flaFlistEntriesAlloc (flaFlistInit 4) 2).2) :=
  multi_alloc_atomic_iff (by decide) (.alloc 2 (by decide) (by decide) .init) (by decide) (by decide)

/-- **Two of three entries are kept.** A call for three entries of a list with two free ones fails, and then none is. -/
theorem partial_alloc_kept : Reachable 2 (flaFlistInit 2) ∧ (flaFlistEntriesAlloc (flaFlistInit 2) 3).1 = -1 ∧
    (flaFlistEntriesAlloc (flaFlistInit 2) 3).2 ≠ flaFlistInit 2 ∧
    flaFlistNumReserved (flaFlistEntriesAlloc (flaFlistInit 2) 3).2 = 2 ∧ flaFlistNumReserved (flaFlistInit 2) = 0 :=
  ⟨.init, by decide +kernel, by decide +kernel, by decide +kernel, by decide +kernel⟩

/-! ## Blocks of one size -/

/-- a list with the values returned for the blocks that are out -/
structure Blocks where
  fl : Freelist
  out : List ℤ

/-- take a block, or give one back -/
inductive BlockCall where
  | alloc
  | free (ret : ℤ)
deriving DecidableEq, Repr

/-- an `int` passed as `uint32_t` -/
def ofInt (n : ℤ) : ℕ := (n % 2 ^ 32).toNat

/-- a call with blocks of `num` entries; only a block that is out is given back, and a call that fails is a call -/
def blockStep (num : ℕ) (b : Blocks) : BlockCall → Option Blocks
  | .alloc =>
    let r := flaFlistEntriesAlloc b.fl num
    some ⟨r.2, if r.1 = -1 then b.out else r.1 :: b.out⟩
  | .free ret =>
    if ret ∈ b.out then
      match flaFlistEntriesFree b.fl (ofInt ret) num with
      | .ok (_, fl) => some ⟨fl, b.out.erase ret⟩
      | .error _ => none
    else none

/-- what the next block is, if there is one: aligned, within the list, the entries that are taken, and apart from the
blocks that are out -/
def NextBlock (num len : ℕ) (b : Blocks) : Prop :=
  let r := flaFlistEntriesAlloc b.fl num
  r.1 ≠ -1 → ∃ ndx : ℕ, r.1 = ndx ∧ num ∣ ndx ∧ ndx + num ≤ len ∧
    (∀ i, r.2.isFree i = (b.fl.isFree i && !decide (ndx ≤ i ∧ i < ndx + num))) ∧
    (∀ i, ndx ≤ i → i < ndx + num → b.fl.isFree i = true) ∧
    ∀ ret ∈ b.out, ret + num ≤ ndx ∨ ndx + num ≤ ret

/-- the blocks of a list: each is out or free as a whole. What is left at the end, when `num` does not divide the length,
may be free or taken by a call that failed. -/
structure Striped (num len : ℕ) (b : Blocks) : Prop where
  len_eq : b.fl.len = len
  ok : b.fl.Ok
  nodup : b.out.Nodup
  block : ∀ ret ∈ b.out, ∃ k < len / num, ret = (k * num : ℕ)
  free : ∀ k < len / num, ((k * num : ℕ) : ℤ) ∉ b.out → ∀ i < num, b.fl.isFree (k * num + i) = true
  taken : ∀ k < len / num, ((k * num : ℕ) : ℤ) ∈ b.out → ∀ i < num, b.fl.isFree (k * num + i) = false

section Stripes

variable {num len : ℕ} {b : Blocks}

theorem block_le {k : ℕ} (hk : k < len / num) : k * num + num ≤ len := by
  have h1 : (k + 1) * num ≤ len / num * num := Nat.mul_le_mul_right _ hk
  have h2 := Nat.div_mul_le_self len num
  rw [Nat.add_mul, Nat.one_mul] at h1
  omega

/-- with a free block, the lowest free entries are those of the first one -/
theorem Striped.free_eq (hs : Striped num len b) {k : ℕ} (hk : k < len / num) (hfree : ((k * num : ℕ) : ℤ) ∉ b.out)
    (hmin : ∀ j < k, ((j * num : ℕ) : ℤ) ∈ b.out) :
    ∃ rest, b.fl.free = (List.range num).map (k * num + ·) ++ rest := by
  have hle := block_le hk
  have hsplit : List.range len = List.range (k * num) ++
      ((List.range num).map (k * num + ·) ++ (List.range (len - k * num - num)).map (k * num + num + ·)) := by
    rw [show len = k * num + (num + (len - k * num - num)) by omega, List.range_add, List.range_add, List.map_append,
      List.map_map]
    have htail : k * num + (num + (len - k * num - num)) - k * num - num = len - k * num - num := by omega
    rw [htail]
    congr 2
    exact List.map_congr_left fun i _ => by simp only [Function.comp]; omega
  have hlow : (List.range (k * num)).filter b.fl.isFree = [] := by
    refine List.filter_eq_nil_iff.2 fun i hi => ?_
    have hi' := List.mem_range.1 hi
    have hnum : 0 < num := Nat.pos_of_ne_zero fun h => by rw [h, Nat.mul_zero] at hi'; omega
    have hj : i / num < k := Nat.div_lt_of_lt_mul (by rwa [Nat.mul_comm])
    have htaken := hs.taken (i / num) (hj.trans hk) (hmin _ hj) (i % num) (Nat.mod_lt _ hnum)
    rw [Nat.mul_comm, Nat.div_add_mod] at htaken
    rw [htaken]
    decide
  have hblock : ((List.range num).map (k * num + ·)).filter b.fl.isFree = (List.range num).map (k * num + ·) := by
    refine List.filter_eq_self.2 fun i hi => ?_
    obtain ⟨j, hj, rfl⟩ := List.mem_map.1 hi
    exact hs.free k hk hfree j (List.mem_range.1 hj)
  refine ⟨((List.range (len - k * num - num)).map (k * num + num + ·)).filter b.fl.isFree, ?_⟩
  rw [Freelist.free, hs.len_eq, hsplit, List.filter_append, List.filter_append, hlow, hblock, List.nil_append]

theorem Striped.free_few (hs : Striped num len b) (hnum : 0 < num)
    (hall : ∀ k < len / num, ((k * num : ℕ) : ℤ) ∈ b.out) : b.fl.free.length < num := by
  have hsplit : List.range len = List.range (len / num * num) ++
      (List.range (len % num)).map (len / num * num + ·) := by
    rw [← List.range_add, Nat.mul_comm, Nat.div_add_mod]
  have hlow : (List.range (len / num * num)).filter b.fl.isFree = [] := by
    refine List.filter_eq_nil_iff.2 fun i hi => ?_
    have hj : i / num < len / num := Nat.div_lt_of_lt_mul (by rw [Nat.mul_comm]; exact List.mem_range.1 hi)
    have htaken := hs.taken (i / num) hj (hall _ hj) (i % num) (Nat.mod_lt _ hnum)
    rw [Nat.mul_comm, Nat.div_add_mod] at htaken
    rw [htaken]
    decide
  rw [Freelist.free, hs.len_eq, hsplit, List.filter_append, hlow, List.nil_append]
  have h1 := List.length_filter_le b.fl.isFree ((List.range (len % num)).map (len / num * num + ·))
  rw [List.length_map, List.length_range] at h1
  have h2 := Nat.mod_lt len hnum
  omega

theorem Striped.alloc_block (hs : Striped num len b) (hlen : len < 2 ^ 32) (h1 : 1 ≤ num) (hnum : num < 2 ^ 32) {k : ℕ}
    (hk : k < len / num) (hfree : ((k * num : ℕ) : ℤ) ∉ b.out) (hmin : ∀ j < k, ((j * num : ℕ) : ℤ) ∈ b.out) :
    ∃ fl', flaFlistEntriesAlloc b.fl num = (toInt (k * num), fl') ∧ fl'.len = len ∧ fl'.Ok ∧
      ∀ i, fl'.isFree i = (b.fl.isFree i && !decide (k * num ≤ i ∧ i < k * num + num)) := by
  obtain ⟨rest, hlist⟩ := hs.free_eq hk hfree hmin
  obtain ⟨fl', hcall, hdrop, hok', hlen', -⟩ := entriesAlloc_spec (hs.len_eq ▸ hlen) hs.ok h1 hnum
  have hlength : ((List.range num).map (k * num + ·)).length = num := by rw [List.length_map, List.length_range]
  have hhead : b.fl.free.headD 0 = k * num := by
    obtain ⟨n, rfl⟩ : ∃ n, num = n + 1 := ⟨num - 1, by omega⟩
    rw [hlist, List.range_succ_eq_map, List.map_cons, List.cons_append, List.headD_cons, Nat.add_zero]
  have hrest : fl'.free = rest := by rw [hdrop, hlist, List.drop_left' hlength]
  have hnd := free_nodup b.fl
  rw [hlist] at hnd
  refine ⟨fl', ?_, hlen'.trans hs.len_eq, hok', fun i => ?_⟩
  · rw [hcall, hhead, if_pos (by rw [hlist, List.length_append, hlength]; omega)]
  have hin : i ∈ (List.range num).map (k * num + ·) ↔ k * num ≤ i ∧ i < k * num + num := by
    rw [List.mem_map]
    constructor
    · rintro ⟨j, hj, rfl⟩
      have hj' := List.mem_range.1 hj
      omega
    · rintro ⟨hge, hlt⟩
      exact ⟨i - k * num, List.mem_range.2 (by omega), by omega⟩
  have hold : b.fl.isFree i = true ↔ (k * num ≤ i ∧ i < k * num + num) ∨ i ∈ rest := by
    rw [← mem_free hs.ok, hlist, List.mem_append, hin]
  have hnew : fl'.isFree i = true ↔ i ∈ rest := by rw [← mem_free hok', hrest]
  have hdisj : i ∈ rest → ¬ (k * num ≤ i ∧ i < k * num + num) := fun hi hb =>
    (List.nodup_append.1 hnd).2.2 i (hin.2 hb) i hi rfl
  rw [Bool.eq_iff_iff, hnew, Bool.and_eq_true, hold]
  simp only [Bool.not_eq_true', decide_eq_false_iff_not]
  constructor
  · intro hi
    exact ⟨Or.inr hi, hdisj hi⟩
  · rintro ⟨hi | hi, hnot⟩
    · exact absurd hi hnot
    · exact hi

/-- no block is free: what is left at the end goes, and the call fails -/
theorem Striped.alloc_none (hs : Striped num len b) (hlen : len < 2 ^ 32) (h1 : 1 ≤ num) (hnum : num < 2 ^ 32)
    (hall : ∀ k < len / num, ((k * num : ℕ) : ℤ) ∈ b.out) :
    ∃ fl', flaFlistEntriesAlloc b.fl num = (-1, fl') ∧ fl'.len = len ∧ fl'.Ok ∧ ∀ i, fl'.isFree i = false := by
  have hfew := hs.free_few h1 hall
  obtain ⟨fl', hcall, hdrop, hok', hlen', -⟩ := entriesAlloc_spec (hs.len_eq ▸ hlen) hs.ok h1 hnum
  refine ⟨fl', by rw [hcall, if_neg (by omega)], hlen'.trans hs.len_eq, hok', fun i => ?_⟩
  rw [List.drop_eq_nil_of_le hfew.le] at hdrop
  have hno : i ∉ fl'.free := by rw [hdrop]; exact List.not_mem_nil
  rwa [mem_free hok', Bool.not_eq_true] at hno

theorem exists_first_free (b : Blocks) (num len : ℕ) : (∀ k < len / num, ((k * num : ℕ) : ℤ) ∈ b.out) ∨
    ∃ k < len / num, ((k * num : ℕ) : ℤ) ∉ b.out ∧ ∀ j < k, ((j * num : ℕ) : ℤ) ∈ b.out := by
  by_cases h : ∃ k, k < len / num ∧ ((k * num : ℕ) : ℤ) ∉ b.out
  · have hspec := Nat.find_spec h
    refine Or.inr ⟨Nat.find h, hspec.1, hspec.2, fun j hj => ?_⟩
    by_contra hout
    exact Nat.find_min h hj ⟨hj.trans hspec.1, hout⟩
  · push Not at h
    exact Or.inl h

theorem blocks_apart (num : ℕ) {j k : ℕ} (hne : j ≠ k) : j * num + num ≤ k * num ∨ k * num + num ≤ j * num := by
  rcases Nat.lt_or_gt_of_ne hne with h | h
  · left
    have := Nat.mul_le_mul_right num (Nat.succ_le_of_lt h)
    rw [Nat.succ_mul] at this
    exact this
  · right
    have := Nat.mul_le_mul_right num (Nat.succ_le_of_lt h)
    rw [Nat.succ_mul] at this
    exact this

theorem not_in_block {j k i : ℕ} (hne : j ≠ k) (hi : i < num) :
    ¬ (k * num ≤ j * num + i ∧ j * num + i < k * num + num) := by
  rcases blocks_apart num hne with h | h <;> omega

variable (hlen : len < 2 ^ 32) (h1 : 1 ≤ num) (hnum : num < 2 ^ 32) (hint : num * (len / num) < 2 ^ 31 + num)

include hint in
theorem block_start_lt {k : ℕ} (hk : k < len / num) : k * num < 2 ^ 31 := by
  have h := Nat.mul_le_mul_right num (Nat.succ_le_of_lt hk)
  rw [Nat.succ_mul, Nat.mul_comm (len / num)] at h
  omega

include hlen h1 hnum hint

theorem Striped.nextBlock (hs : Striped num len b) : NextBlock num len b := by
  intro hret
  rcases exists_first_free b num len with hall | ⟨k, hk, hfree, hmin⟩
  · obtain ⟨fl', hcall, -⟩ := hs.alloc_none hlen h1 hnum hall
    exact absurd (congrArg Prod.fst hcall) hret
  · obtain ⟨fl', hcall, -, -, hbits⟩ := hs.alloc_block hlen h1 hnum hk hfree hmin
    rw [toInt_of_lt (block_start_lt hint hk)] at hcall
    rw [hcall]
    refine ⟨k * num, rfl, Dvd.intro_left k rfl, block_le hk, hbits, ?_, ?_⟩
    · intro i hge hlt
      obtain ⟨j, rfl⟩ := Nat.exists_eq_add_of_le hge
      exact hs.free k hk hfree j (by omega)
    · intro ret hout
      obtain ⟨j, -, rfl⟩ := hs.block ret hout
      have hne : j ≠ k := fun h => hfree (h ▸ hout)
      rcases blocks_apart num hne with h | h
      · left; exact_mod_cast h
      · right; exact_mod_cast h

/-- **One call keeps the blocks whole.** -/
theorem Striped.step (hs : Striped num len b) {c : BlockCall} {b' : Blocks} (hstep : blockStep num b c = some b') :
    Striped num len b' := by
  cases c with
  | alloc =>
    unfold blockStep at hstep
    rcases exists_first_free b num len with hall | ⟨k, hk, hfree, hmin⟩
    · obtain ⟨fl', hcall, hlen', hok', hnone⟩ := hs.alloc_none hlen h1 hnum hall
      rw [hcall] at hstep
      cases hstep
      exact ⟨hlen', hok', hs.nodup, hs.block, fun k hk hout => absurd (hall k hk) hout, fun k _ _ i _ => hnone _⟩
    · obtain ⟨fl', hcall, hlen', hok', hbits⟩ := hs.alloc_block hlen h1 hnum hk hfree hmin
      have hstart := block_start_lt hint hk
      rw [hcall, toInt_of_lt hstart] at hstep
      dsimp only at hstep
      rw [if_neg (by omega)] at hstep
      cases hstep
      refine ⟨hlen', hok', List.nodup_cons.2 ⟨hfree, hs.nodup⟩, ?_, ?_, ?_⟩
      · intro ret hret
        rcases List.mem_cons.1 hret with rfl | hret
        · exact ⟨k, hk, rfl⟩
        · exact hs.block ret hret
      · intro j hj hout i hi
        have hne : j ≠ k := fun h => hout (h ▸ List.mem_cons_self)
        have hold := hs.free j hj (fun h => hout (List.mem_cons_of_mem _ h)) i hi
        rw [hbits, hold, decide_eq_false (not_in_block hne hi)]
        rfl
      · intro j hj hout i hi
        rw [hbits]
        by_cases hjk : j = k
        · subst hjk
          simp [hi]
        · have hmem : ((j * num : ℕ) : ℤ) ∈ b.out := by
            rcases List.mem_cons.1 hout with h | h
            · have hmul : j * num = k * num := by exact_mod_cast h
              exact absurd (Nat.eq_of_mul_eq_mul_right (by omega) hmul) hjk
            · exact h
          rw [hs.taken j hj hmem i hi]
          rfl
  | free ret =>
    unfold blockStep at hstep
    dsimp only at hstep
    split_ifs at hstep with hout
    obtain ⟨k, hk, rfl⟩ := hs.block ret hout
    have hle := block_le hk
    have hof : ofInt ((k * num : ℕ) : ℤ) = k * num := by unfold ofInt; omega
    obtain ⟨fl', hcall, hlen', hok', hbits⟩ := entriesFree_spec (hs.len_eq ▸ hlen) hs.ok
      (show k * num + num ≤ b.fl.len by rw [hs.len_eq]; exact hle)
    rw [hof, hcall] at hstep
    cases hstep
    refine ⟨hlen'.trans hs.len_eq, hok', hs.nodup.erase _, fun r hr => hs.block r (List.mem_of_mem_erase hr), ?_, ?_⟩
    · intro j hj hnot i hi
      rw [hbits]
      by_cases hjk : j = k
      · subst hjk
        simp [hi]
      · have hold := hs.free j hj (fun h => hnot ((List.mem_erase_of_ne (by
          intro heq
          have hmul : j * num = k * num := by exact_mod_cast heq
          exact hjk (Nat.eq_of_mul_eq_mul_right (by omega) hmul))).2 h)) i hi
        rw [hold]
        rfl
    · intro j hj hmem i hi
      have hjk : j ≠ k := fun h => by
        rw [h] at hmem
        exact hs.nodup.not_mem_erase hmem
      rw [hbits, hs.taken j hj (List.mem_of_mem_erase hmem) i hi, decide_eq_false (not_in_block hjk hi)]
      rfl

omit hlen h1 hnum hint in
theorem striped_init (num len : ℕ) : Striped num len ⟨flaFlistInit len, []⟩ := by
  refine ⟨rfl, init_ok len, List.nodup_nil, nofun, fun k hk _ i hi => ?_, fun _ _ h => absurd h List.not_mem_nil⟩
  have hle := block_le hk
  show (flaFlistInit len).isFree (k * num + i) = true
  rw [init_isFree]
  exact decide_eq_true (by omega)

omit hint in
theorem blocks_taken {k : ℕ} (hk : k ≤ len / num) :
    ∃ b, run (blockStep num) ⟨flaFlistInit len, []⟩ (List.replicate k .alloc) = some b ∧ b.fl.len = len ∧ b.fl.Ok ∧
      b.fl.free = (List.range len).drop (k * num) := by
  induction k with
  | zero => exact ⟨_, rfl, rfl, init_ok len, by rw [init_free, Nat.zero_mul, List.drop_zero]⟩
  | succ k ih =>
    obtain ⟨b, hrun, hl, hok, hfree⟩ := ih (by omega)
    obtain ⟨fl', hcall, hdrop, hok', hlen', -⟩ := entriesAlloc_spec (hl ▸ hlen) hok h1 hnum
    obtain ⟨b', hstep, hfl⟩ : ∃ b', blockStep num b .alloc = some b' ∧ b'.fl = fl' := ⟨_, rfl, congrArg Prod.snd hcall⟩
    refine ⟨b', ?_, by rw [hfl, hlen', hl], by rw [hfl]; exact hok', ?_⟩
    · rw [List.replicate_succ', run_append, hrun]
      show (blockStep num b .alloc).bind (fun t => run (blockStep num) t []) = some b'
      rw [hstep]
      rfl
    · rw [hfl, hdrop, hfree, List.drop_drop, Nat.add_mul, Nat.one_mul]

omit hint in
/-- a block that starts at or past 2^31 is returned as a negative number -/
theorem block_negative (hbig : 2 ^ 31 + num ≤ num * (len / num)) :
    ∃ calls b, run (blockStep num) ⟨flaFlistInit len, []⟩ calls = some b ∧ ¬ NextBlock num len b := by
  -- the first block that starts there
  obtain ⟨k, hk, hstart⟩ : ∃ k < len / num, 2 ^ 31 ≤ k * num := by
    have hpos : 0 < len / num := Nat.pos_of_ne_zero fun h => by rw [h, Nat.mul_zero] at hbig; omega
    refine ⟨len / num - 1, by omega, ?_⟩
    rw [Nat.sub_mul, Nat.one_mul, Nat.mul_comm]
    omega
  obtain ⟨b, hrun, hl, hok, hfree⟩ := blocks_taken hlen h1 hnum hk.le
  refine ⟨List.replicate k .alloc, b, hrun, fun hnext => ?_⟩
  have hle := block_le hk
  obtain ⟨fl', hcall, -⟩ := entriesAlloc_spec (hl ▸ hlen) hok h1 hnum
  have hmany : num ≤ b.fl.free.length := by
    rw [hfree, List.length_drop, List.length_range]
    omega
  have hhead : b.fl.free.headD 0 = k * num := by
    rw [hfree, List.headD_eq_head?_getD, List.head?_drop, List.getElem?_range (by omega)]
    rfl
  rw [if_pos hmany, hhead] at hcall
  have hne : (flaFlistEntriesAlloc b.fl num).1 ≠ -1 := by
    rw [hcall]
    exact toInt_ne_neg_one (by omega)
  obtain ⟨ndx, hndx, -⟩ := hnext hne
  have hneg := toInt_neg hstart (show k * num < 2 ^ 32 by omega)
  have hval : toInt (k * num) = ndx := by
    rw [hcall] at hndx
    exact hndx
  omega

end Stripes

/-- **Blocks of one size.** For every length and block size: in every history of calls that take blocks of `num` entries and
give back blocks that are out, the next block is aligned, within the list, made of the entries that are taken and apart
from all that are out, if and only if the last whole block of the list starts below 2^31. -/
theorem stride_contiguous_iff {len num : ℕ} (hlen : len < 2 ^ 32) (h1 : 1 ≤ num) (hnum : num < 2 ^ 32) :
    (∀ calls b, run (blockStep num) ⟨flaFlistInit len, []⟩ calls = some b → NextBlock num len b) ↔
      num * (len / num) < 2 ^ 31 + num := by
  constructor
  · intro hall
    by_contra hbig
    obtain ⟨calls, b, hrun, hnot⟩ := block_negative hlen h1 hnum (not_lt.1 hbig)
    exact hnot (hall calls b hrun)
  · intro hint calls b hrun
    have hs : Striped num len b := run_inv (fun b c b' hs hstep => Striped.step hlen h1 hnum hint hs hstep)
      (striped_init num len) hrun
    exact hs.nextBlock hlen h1 hnum hint

/-- blocks of three in a list of eleven, after a call that failed on what is left at the end -/
theorem stride_contiguous_eleven : ∃ b, run (blockStep 3) ⟨flaFlistInit 11, []⟩
      [.alloc, .alloc, .alloc, .alloc, .free 3] = some b ∧ b.out = [6, 0] ∧ (flaFlistEntriesAlloc b.fl 3).1 = 3 ∧
    NextBlock 3 11 b := by
  obtain ⟨b, hb, hval⟩ := Option.map_eq_some_iff.1 (show (run (blockStep 3) ⟨flaFlistInit 11, []⟩
      [.alloc, .alloc, .alloc, .alloc, .free 3]).map (fun b => (b.out, (flaFlistEntriesAlloc b.fl 3).1)) = some ([6, 0], 3) by
    decide +kernel)
  obtain ⟨hout, hret⟩ := Prod.mk.inj hval
  exact ⟨b, hb, hout, hret, (stride_contiguous_iff (by decide) (by decide) (by decide)).2 (by decide) _ b hb⟩

/-- **A negative index**: the last entry of a list of 2^31 + 1, once the others are taken. -/
theorem stride_negative : ¬ ∀ calls b, run (blockStep 1) ⟨flaFlistInit (2 ^ 31 + 1), []⟩ calls = some b →
    NextBlock 1 (2 ^ 31 + 1) b := by
  intro hall
  obtain ⟨calls, b, hrun, hnot⟩ := block_negative (show 2 ^ 31 + 1 < 2 ^ 32 by norm_num) le_rfl (by norm_num)
    (show 2 ^ 31 + 1 ≤ 1 * ((2 ^ 31 + 1) / 1) by norm_num)
  exact hnot (hall calls b hrun)

end FlexAlloc
