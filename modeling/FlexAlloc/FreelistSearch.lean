/-
The freelist search against its documentation: `fla_flist_search_wfunc` is to call its function on the used entries.

In the last word the bits past the end of the list are 0 and have to look free; the search sets them with
`~0 << (len % 32)`. For a length that is a multiple of 32 there are none, the shift is by 0, and the whole last word
looks free.

- `search_exact_iff`: the search calls its function on exactly the reserved entries if and only if the length is no
  multiple of 32 or no entry of the last word is reserved.
- `search_passes_over`: a list of 32 entries with the first one taken, on which the search calls nothing.
-/
import FlexAlloc.FreelistRuns
import FlexAlloc.Open

namespace FlexAlloc

/-- the search calls its function, whatever it is, on each reserved entry in increasing order and on no other entry;
it returns 0 and the number of calls that returned 1, unless a call returns something else, which ends the search and is
returned -/
def SearchExact (fl : Freelist) : Prop :=
  ∀ (σ : Type) (f : σ → ℕ → ℤ × σ) (found : ℕ) (s : σ),
    flaFlistSearchWfunc f fl flaFlistSearchExecFirst found s = ended (callEach f fl.reserved (0, s))

/-- a function that keeps a list of the entries it is called on -/
def recordVisit (l : List ℕ) (i : ℕ) : ℤ × List ℕ := (0, l ++ [i])

theorem callEach_recordVisit (is l : List ℕ) (n : ℕ) : callEach recordVisit is (n, l) = (none, n, l ++ is) := by
  induction is generalizing l with
  | nil => rw [List.append_nil]; rfl
  | cons i is ih =>
    rw [callEach_cons, if_neg (by simp [recordVisit]), if_pos (by simp [recordVisit])]
    have hrest := ih (l ++ [i])
    rw [List.append_assoc, List.singleton_append] at hrest
    exact hrest

theorem visited_eq_reserved {fl : Freelist} :
    fl.visited = fl.reserved ↔ fl.len % 32 ≠ 0 ∨ ∀ i ∈ fl.reserved, i + 32 < fl.len := by
  simp only [Freelist.visited, List.filter_eq_self, Bool.or_eq_true, decide_eq_true_eq]
  constructor
  · intro h
    by_cases hlen : fl.len % 32 ≠ 0
    · exact Or.inl hlen
    · exact Or.inr fun i hi => (h i hi).resolve_left hlen
  · rintro (hlen | hlast) i hi
    · exact Or.inl hlen
    · exact Or.inr (hlast i hi)

theorem searchExact_iff_visited (fl : Freelist) : SearchExact fl ↔ fl.visited = fl.reserved := by
  constructor
  · intro h
    have hcalls := h (List ℕ) recordVisit 0 []
    rw [search_calls, ← Freelist.visited, callEach_recordVisit, callEach_recordVisit] at hcalls
    simpa only [ended, Prod.mk.injEq, List.nil_append, true_and] using hcalls
  · intro h σ f found s
    rw [search_calls, ← Freelist.visited, h]

/-- **The search is exact** if and only if the length is no multiple of 32 or none of the last 32 entries is reserved. -/
theorem search_exact_iff (fl : Freelist) :
    SearchExact fl ↔ fl.len % 32 ≠ 0 ∨ ∀ i ∈ fl.reserved, i + 32 < fl.len := by
  rw [searchExact_iff_visited, visited_eq_reserved]

/-- **A taken entry is passed over.** The first of 32 entries is reserved; the search calls its function on none. -/
theorem search_passes_over : Reachable 32 (flaFlistEntriesAlloc (flaFlistInit 32) 1).2 ∧
    ¬ SearchExact (flaFlistEntriesAlloc (flaFlistInit 32) 1).2 := by
  refine ⟨.alloc 1 (by decide) (by decide) .init, fun h => ?_⟩
  have hcalls := h (List ℕ) recordVisit 0 []
  exact absurd hcalls (by decide +kernel)

/-- **The pools after an open**: all that are live are dispatched if and only if the search is exact. -/
theorem poolInit_dispatch {env : Env} {geo : Geo} {b : Core.Bytes} {p : Pools} (h : flaPoolInit env geo b = (0, p)) :
    (∀ i ∈ p.freelist.reserved, p.entrieFuncs i = some .dflt) ↔ SearchExact p.freelist := by
  rw [searchExact_iff_visited, poolInit_eq h]
  dsimp only
  constructor
  · intro hall
    refine List.filter_eq_self.2 fun i hi => ?_
    have := hall i hi
    split_ifs at this with hvis
    exact (List.mem_filter.1 hvis).2
  · intro heq i hi
    rw [heq, if_pos hi]

end FlexAlloc
