/-
Cached placement identifiers: `fla_fdp_cached_prep_ctx` over whole sequences of commands.

Each data write has a `fla_id` (its slab, pool or object) and is to carry the placement identifier that the table
`pids` records for it; the slots in use are the reserved entries of a freelist. The first write of an id takes a slot and
asks the device for an identifier, the later ones find it. On that first write the command itself is never given the
identifier, and a slot whose query fails stays taken with the id in it. The search passes over the last 32 slots when
the number of slots is a multiple of 32 (`search_exact_iff`), and takes an id there for a new one.

- `cachedWrite_found`, `cachedWrite_full`, `cachedWrite_new`: what a data write does, by what the search finds.
- `Table`: the invariant, over the writes answered so far.
- `placement_stable_iff`: identifiers are stable and applied along a run if and only if no write of it goes wrong in one
  of these ways.
- `placement_not_applied`: the first write of all, which carries what the command held before.
-/
import FlexAlloc.FreelistRuns
import FlexAlloc.Open

namespace FlexAlloc

open FlexAlloc.Core Function

/-! ## The source -/

/-- `enum fla_xne_io_type` -/
inductive XneIoType where
  | dataWrite
  | mdWrite
  | mdRead
  | dataRead
deriving DecidableEq, Repr

/-- `enum fla_dp_fdp_t` -/
inductive FdpOn where
  | slab
  | pool
  | object
  | write
deriving DecidableEq, Repr

structure FdpPidToId where
  pid : ℕ
  flaId : ℕ
deriving DecidableEq, Repr

/-- `struct fla_dp_fdp`; `pids` starts as memory that `malloc` returned -/
structure DpFdp where
  ctxSet : FdpOn
  pids : ℕ → FdpPidToId
  freePids : Freelist
  mdPid : ℕ

/-- `struct fla_xne_io`, as far as preparing a command reads it: its type and its pool and object handles -/
structure XneIo where
  ioType : XneIoType
  slabId : ℕ
  poolNdx : ℕ
  entryNdx : ℕ
deriving DecidableEq, Repr

/-- the two fields of an NVMe command that say where its data is placed -/
structure CmdCtx where
  dspec : ℕ
  dtype : ℕ
deriving DecidableEq, Repr

def eNOSPC : ℤ := 28

/-- the `fla_id` of a data write; none where the context is handled by `fla_fdp_onwrite_prep_ctx` -/
def flaIdOf (ctxSet : FdpOn) (io : XneIo) : Option ℕ :=
  match ctxSet with
  | .slab => some io.slabId
  | .pool => some io.poolNdx
  | .object => some io.entryNdx
  | .write => none

/-- `fla_fdp_get_id`, the callback of the search, which leaves the identifier it finds in `pid` -/
def flaFdpGetId (pids : ℕ → FdpPidToId) (flaId pid ndx : ℕ) : ℤ × ℕ :=
  if flaId = (pids ndx).flaId then (1, (pids ndx).pid) else (0, pid)

/-- `fla_fdp_get_pid_n` of one identifier, stored at `pid`; `answer` is what the device returns -/
def flaFdpGetPidN (answer : ℤ × ℕ) (pid : ℕ) : ℤ × ℕ := if answer.1 ≠ 0 then (answer.1, pid) else (0, answer.2)

def flaFdpOnwriteMdPrepCtx (fdp : DpFdp) (ctx : CmdCtx) : ℤ × CmdCtx := (0, { ctx with dspec := fdp.mdPid })

/-- a data write in `fla_fdp_cached_prep_ctx`, from the search on -/
def cachedWrite (fdp : DpFdp) (flaId : ℕ) (answer : ℤ × ℕ) (ctx : CmdCtx) : ℤ × DpFdp × CmdCtx :=
  -- `pid` is read only where a call of the search has set it
  let (err, found, pid) := flaFlistSearchWfunc (flaFdpGetId fdp.pids flaId) fdp.freePids flaFlistSearchExecFirst 0 0
  if err ≠ 0 then (err, fdp, ctx)
  else if found = 1 then (0, fdp, ⟨pid, 2⟩)
  else if found = 0 then
    let (ret, freePids) := flaFlistEntriesAlloc fdp.freePids 1
    if ret < 0 then (-eNOSPC, { fdp with freePids := freePids }, ctx)
    else
      let k := ret.toNat
      let (err, pid) := flaFdpGetPidN answer (fdp.pids k).pid
      let fdp := { fdp with freePids := freePids, pids := update fdp.pids k ⟨pid, flaId⟩ }
      if err ≠ 0 then (err, fdp, ctx) else (0, fdp, { ctx with dtype := 2 })
  else (0, fdp, { ctx with dtype := 2 })

def flaFdpCachedPrepCtx (fdp : DpFdp) (io : XneIo) (answer : ℤ × ℕ) (ctx : CmdCtx) : ℤ × DpFdp × CmdCtx :=
  match io.ioType with
  | .dataRead => (0, fdp, ctx)
  | .mdRead => (0, fdp, ctx)
  | .mdWrite => ((flaFdpOnwriteMdPrepCtx fdp ctx).1, fdp, (flaFdpOnwriteMdPrepCtx fdp ctx).2)
  | .dataWrite =>
    match flaIdOf fdp.ctxSet io with
    | none => (-eINVAL, fdp, ctx)
    | some flaId => cachedWrite fdp flaId answer ctx

/-! ## What the search finds -/

section Search

variable {pids : ℕ → FdpPidToId} {flaId : ℕ}

theorem getId_returns (pid ndx : ℕ) :
    (flaFdpGetId pids flaId pid ndx).1 = 0 ∨ (flaFdpGetId pids flaId pid ndx).1 = 1 := by
  unfold flaFdpGetId
  split_ifs
  · exact Or.inr rfl
  · exact Or.inl rfl

theorem getId_other {l : List ℕ} (h : ∀ i ∈ l, (pids i).flaId ≠ flaId) (a : ℕ × ℕ) :
    l.foldl (visit (flaFdpGetId pids flaId)) a = a := by
  induction l generalizing a with
  | nil => rfl
  | cons i l ih =>
    have hi : visit (flaFdpGetId pids flaId) a i = a := by
      simp [visit, flaFdpGetId, Ne.symm (h i List.mem_cons_self)]
    simp only [List.foldl_cons, hi]
    exact ih (fun j hj => h j (List.mem_cons_of_mem _ hj)) a

theorem getId_one {l : List ℕ} {i : ℕ} (hi : i ∈ l) (hid : (pids i).flaId = flaId) (hnd : l.Nodup)
    (hsingle : ∀ j ∈ l, (pids j).flaId = flaId → j = i) (a : ℕ × ℕ) :
    l.foldl (visit (flaFdpGetId pids flaId)) a = (a.1 + 1, (pids i).pid) := by
  obtain ⟨before, after, rfl⟩ := List.append_of_mem hi
  obtain ⟨-, hafter, hdisj⟩ := List.nodup_append.1 hnd
  have hbefore : ∀ j ∈ before, (pids j).flaId ≠ flaId := by
    intro j hj hj'
    exact hdisj j hj i List.mem_cons_self (hsingle j (List.mem_append_left _ hj) hj')
  have hrest : ∀ j ∈ after, (pids j).flaId ≠ flaId := by
    intro j hj hj'
    have hji := hsingle j (List.mem_append_right _ (List.mem_cons_of_mem _ hj)) hj'
    exact (List.nodup_cons.1 hafter).1 (hji ▸ hj)
  have hvisit : visit (flaFdpGetId pids flaId) a i = (a.1 + 1, (pids i).pid) := by
    simp [visit, flaFdpGetId, hid]
  simp only [List.foldl_append, List.foldl_cons, getId_other hbefore, hvisit, getId_other hrest]

end Search

/-! ## A data write -/

/-- the id is in a slot that the search comes to -/
def DpFdp.Found (fdp : DpFdp) (flaId : ℕ) : Prop := ∃ i ∈ fdp.freePids.visited, (fdp.pids i).flaId = flaId

/-- the id is in a slot that is taken -/
def DpFdp.Recorded (fdp : DpFdp) (flaId : ℕ) : Prop := ∃ i ∈ fdp.freePids.reserved, (fdp.pids i).flaId = flaId

/-- no id is in two slots that are taken -/
def DpFdp.Single (fdp : DpFdp) : Prop :=
  ∀ i ∈ fdp.freePids.reserved, ∀ j ∈ fdp.freePids.reserved, (fdp.pids i).flaId = (fdp.pids j).flaId → i = j

section Write

variable {fdp : DpFdp} {flaId : ℕ} {answer : ℤ × ℕ} {ctx : CmdCtx}

theorem visited_reserved {i : ℕ} (h : i ∈ fdp.freePids.visited) : i ∈ fdp.freePids.reserved :=
  (List.mem_filter.1 h).1

theorem DpFdp.Found.recorded (h : fdp.Found flaId) : fdp.Recorded flaId := by
  obtain ⟨i, hi, hid⟩ := h
  exact ⟨i, visited_reserved hi, hid⟩

theorem cachedWrite_found (hs : fdp.Single) {i : ℕ} (hi : i ∈ fdp.freePids.visited)
    (hid : (fdp.pids i).flaId = flaId) : cachedWrite fdp flaId answer ctx = (0, fdp, ⟨(fdp.pids i).pid, 2⟩) := by
  have hsingle : ∀ j ∈ fdp.freePids.visited, (fdp.pids j).flaId = flaId → j = i := by
    intro j hj hj'
    exact hs j (visited_reserved hj) i (visited_reserved hi) (hj'.trans hid.symm)
  have hsearch := getId_one hi hid ((reserved_nodup _).filter _) hsingle (0, 0)
  unfold cachedWrite
  rw [search_visits getId_returns, ← Freelist.visited, hsearch]
  simp

theorem cachedWrite_full (hok : fdp.freePids.Ok) (hid : ¬ fdp.Found flaId) (hfree : fdp.freePids.free = []) :
    cachedWrite fdp flaId answer ctx = (-eNOSPC, fdp, ctx) := by
  have hother : ∀ i ∈ fdp.freePids.visited, (fdp.pids i).flaId ≠ flaId := fun i hi hi' => hid ⟨i, hi, hi'⟩
  unfold cachedWrite
  rw [search_visits getId_returns, ← Freelist.visited, getId_other hother, entriesAlloc_one, entryAlloc_nil hok hfree]
  simp

/-- a write whose id is not found takes the first slot left, whatever the device answers -/
theorem cachedWrite_new (answer : ℤ × ℕ) (ctx : CmdCtx) (hok : fdp.freePids.Ok) (hlen : fdp.freePids.len ≤ 2 ^ 31) (hid : ¬ fdp.Found flaId) {k : ℕ}
    {rest : List ℕ} (hfree : fdp.freePids.free = k :: rest) : ∃ freePids,
      freePids.Ok ∧ freePids.len = fdp.freePids.len ∧ (∀ i, i ∈ freePids.reserved ↔ i = k ∨ i ∈ fdp.freePids.reserved) ∧
      k ∉ fdp.freePids.reserved ∧
      cachedWrite fdp flaId answer ctx =
        (answer.1, { fdp with
            freePids := freePids
            pids := update fdp.pids k ⟨(flaFdpGetPidN answer (fdp.pids k).pid).2, flaId⟩ },
          if answer.1 ≠ 0 then ctx else { ctx with dtype := 2 }) := by
  have hother : ∀ i ∈ fdp.freePids.visited, (fdp.pids i).flaId ≠ flaId := fun i hi hi' => hid ⟨i, hi, hi'⟩
  have hk : k ∈ fdp.freePids.free := by simp [hfree]
  have hklt := free_lt hk
  obtain ⟨freePids, halloc, hrest, hok', hlen'⟩ := entryAlloc_cons hok hfree
  have hisFree : ∀ i, fdp.freePids.isFree i = true ↔ i = k ∨ freePids.isFree i = true := by
    intro i
    rw [← mem_free hok, ← mem_free hok', hfree, hrest, List.mem_cons]
  have hnd := free_nodup fdp.freePids
  rw [hfree, ← hrest, List.nodup_cons, mem_free hok'] at hnd
  refine ⟨freePids, hok', hlen', fun i => ?_, ?_, ?_⟩
  · rw [mem_reserved, mem_reserved, hlen']
    have := hisFree i
    by_cases hik : i = k
    · subst hik
      simp [hklt, hnd.1]
    · simp only [hik, false_or] at this ⊢
      rw [← Bool.not_eq_true, ← Bool.not_eq_true, this]
  · rw [mem_reserved, (hisFree k).2 (Or.inl rfl)]
    simp
  · have hpos : ¬ toInt k < 0 := by
      rw [toInt_of_lt (by omega)]
      omega
    have hnat : (toInt k).toNat = k := by
      rw [toInt_of_lt (by omega)]
      rfl
    unfold cachedWrite
    rw [search_visits getId_returns, ← Freelist.visited, getId_other hother, entriesAlloc_one, halloc]
    simp only [ne_eq, not_true_eq_false, if_false, zero_ne_one, if_true, if_neg hpos, hnat]
    unfold flaFdpGetPidN
    by_cases herr : answer.1 = 0
    · simp [herr]
    · simp [herr]

end Write

/-! ## Sequences of commands -/

/-- a command to prepare: what it is for, what the device answers if it is asked, and what the command holds -/
structure PrepCall where
  io : XneIo
  answer : ℤ × ℕ
  ctx : CmdCtx

/-- the table, and the id and `dspec` of every data write that was prepared -/
structure Placing where
  fdp : DpFdp
  past : List (ℕ × ℕ)

def Placing.prep (s : Placing) (c : PrepCall) : ℤ × DpFdp × CmdCtx := flaFdpCachedPrepCtx s.fdp c.io c.answer c.ctx

/-- the id of a data write, nothing for the other commands -/
def Placing.writeId (s : Placing) (c : PrepCall) : Option ℕ :=
  if c.io.ioType = .dataWrite then flaIdOf s.fdp.ctxSet c.io else none

def prepStep (s : Placing) (c : PrepCall) : Option Placing :=
  let (err, fdp, ctx) := s.prep c
  some ⟨fdp, if err = 0 then s.past ++ ((s.writeId c).map fun flaId => (flaId, ctx.dspec)).toList else s.past⟩

/-- the command carries the identifier recorded for its id, which is the one of every earlier write of that id; no id is
in two slots; an error leaves the table as it was -/
structure WellPlaced (s : Placing) (c : PrepCall) : Prop where
  applied : ∀ flaId, s.writeId c = some flaId → (s.prep c).1 = 0 →
    (∃ i ∈ (s.prep c).2.1.freePids.reserved, (s.prep c).2.1.pids i = ⟨(s.prep c).2.2.dspec, flaId⟩) ∧
      (s.prep c).2.2.dtype = 2
  stable : ∀ flaId, s.writeId c = some flaId → (s.prep c).1 = 0 → ∀ dspec, (flaId, dspec) ∈ s.past →
    dspec = (s.prep c).2.2.dspec
  single : (s.prep c).2.1.Single
  kept : (s.prep c).1 ≠ 0 → (s.prep c).2.1 = s.fdp

/-- a data write finds its id, or finds no slot, or its id is new and the device answers what the command already holds -/
def PlacementOk (s : Placing) (c : PrepCall) : Prop :=
  ∀ flaId, s.writeId c = some flaId →
    s.fdp.Found flaId ∨ s.fdp.freePids.free = [] ∨
      ¬ s.fdp.Recorded flaId ∧ c.answer.1 = 0 ∧ c.answer.2 = c.ctx.dspec

/-- the invariant: a sound table in which every write so far is recorded with what it carried -/
structure Table (size : ℕ) (s : Placing) : Prop where
  ok : s.fdp.freePids.Ok
  len : s.fdp.freePids.len = size
  single : s.fdp.Single
  past : ∀ flaId dspec, (flaId, dspec) ∈ s.past → ∃ i ∈ s.fdp.freePids.reserved, s.fdp.pids i = ⟨dspec, flaId⟩

theorem table_start (size : ℕ) (ctxSet : FdpOn) (pids : ℕ → FdpPidToId) (mdPid : ℕ) :
    Table size ⟨⟨ctxSet, pids, flaFlistInit size, mdPid⟩, []⟩ := by
  have hnone : (flaFlistInit size).reserved = [] := by
    refine List.filter_eq_nil_iff.2 fun i hi => ?_
    have hlt : i < size := List.mem_range.1 hi
    simp [init_isFree, hlt]
  constructor
  · exact init_ok size
  · rfl
  · intro i hi
    simp [hnone] at hi
  · simp

section Step

variable {size : ℕ} {s : Placing} {c : PrepCall} {flaId : ℕ}

/-- two slots with one id are one slot, so that what is recorded for an id is one identifier -/
theorem Table.past_eq (ht : Table size s) {dspec i : ℕ} (hmem : (flaId, dspec) ∈ s.past)
    (hi : i ∈ s.fdp.freePids.reserved) (hid : (s.fdp.pids i).flaId = flaId) : dspec = (s.fdp.pids i).pid := by
  obtain ⟨j, hj, hrec⟩ := ht.past flaId dspec hmem
  have hij : i = j := ht.single i hi j hj (by rw [hid, hrec])
  rw [hij, hrec]

theorem prep_other (h : s.writeId c = none) : (s.prep c).2.1 = s.fdp := by
  unfold Placing.writeId at h
  unfold Placing.prep flaFdpCachedPrepCtx
  cases hio : c.io.ioType with
  | dataRead => rfl
  | mdRead => rfl
  | mdWrite => rfl
  | dataWrite =>
    simp only [hio, if_true] at h
    simp [h]

theorem prep_write (h : s.writeId c = some flaId) : s.prep c = cachedWrite s.fdp flaId c.answer c.ctx := by
  unfold Placing.writeId at h
  split_ifs at h with hio
  simp only [Placing.prep, flaFdpCachedPrepCtx, hio, h]

theorem single_new {fdp : DpFdp} {freePids : Freelist} {k pid : ℕ} (hs : fdp.Single)
    (hres : ∀ i, i ∈ freePids.reserved ↔ i = k ∨ i ∈ fdp.freePids.reserved) (hk : k ∉ fdp.freePids.reserved) :
    DpFdp.Single { fdp with freePids := freePids, pids := update fdp.pids k ⟨pid, flaId⟩ } ↔ ¬ fdp.Recorded flaId := by
  have hold : ∀ i ∈ fdp.freePids.reserved, update fdp.pids k ⟨pid, flaId⟩ i = fdp.pids i := by
    intro i hi
    have hik : i ≠ k := fun h => hk (h ▸ hi)
    exact update_of_ne hik _ _
  constructor
  · rintro hsingle ⟨i, hi, hid⟩
    have hik := hsingle i ((hres i).2 (Or.inr hi)) k ((hres k).2 (Or.inl rfl)) (by simp [hold i hi, hid])
    exact hk (hik ▸ hi)
  · intro hnew i hi j hj hij
    dsimp only at hij
    rcases (hres i).1 hi with rfl | hi' <;> rcases (hres j).1 hj with rfl | hj'
    · rfl
    · rw [update_self, hold j hj'] at hij
      exact absurd ⟨j, hj', hij.symm⟩ hnew
    · rw [update_self, hold i hi'] at hij
      exact absurd ⟨i, hi', hij⟩ hnew
    · rw [hold i hi', hold j hj'] at hij
      exact hs i hi' j hj' hij

theorem wellPlaced_other (ht : Table size s) (hw : s.writeId c = none) : WellPlaced s c := by
  have hfdp := prep_other hw
  constructor
  · intro flaId h
    cases hw.symm.trans h
  · intro flaId h
    cases hw.symm.trans h
  · rw [hfdp]
    exact ht.single
  · exact fun _ => hfdp

theorem wellPlaced_write (hw : s.writeId c = some flaId) : WellPlaced s c ↔
    ((s.prep c).1 = 0 →
      ((∃ i ∈ (s.prep c).2.1.freePids.reserved, (s.prep c).2.1.pids i = ⟨(s.prep c).2.2.dspec, flaId⟩) ∧
        (s.prep c).2.2.dtype = 2) ∧
      ∀ dspec, (flaId, dspec) ∈ s.past → dspec = (s.prep c).2.2.dspec) ∧
    (s.prep c).2.1.Single ∧ ((s.prep c).1 ≠ 0 → (s.prep c).2.1 = s.fdp) := by
  constructor
  · intro h
    exact ⟨fun h0 => ⟨h.applied flaId hw h0, h.stable flaId hw h0⟩, h.single, h.kept⟩
  · rintro ⟨hzero, hsingle, hkept⟩
    constructor
    · intro id h h0
      cases hw.symm.trans h
      exact (hzero h0).1
    · intro id h h0
      cases hw.symm.trans h
      exact (hzero h0).2
    · exact hsingle
    · exact hkept

theorem wellPlaced_found (ht : Table size s) (hw : s.writeId c = some flaId) (hfound : s.fdp.Found flaId) :
    WellPlaced s c := by
  obtain ⟨i, hi, hrec⟩ := hfound
  have hprep := prep_write hw
  rw [cachedWrite_found ht.single hi hrec] at hprep
  rw [wellPlaced_write hw, hprep]
  refine ⟨fun _ => ⟨⟨⟨i, visited_reserved hi, ?_⟩, rfl⟩, fun dspec hmem => ?_⟩, ht.single, fun h => absurd rfl h⟩
  · rw [← hrec]
  · exact ht.past_eq hmem (visited_reserved hi) hrec

theorem wellPlaced_full (ht : Table size s) (hw : s.writeId c = some flaId) (hfound : ¬ s.fdp.Found flaId)
    (hfree : s.fdp.freePids.free = []) : WellPlaced s c := by
  have hprep := prep_write hw
  rw [cachedWrite_full ht.ok hfound hfree] at hprep
  rw [wellPlaced_write hw, hprep]
  have herr : -eNOSPC ≠ 0 := by decide
  exact ⟨fun h => absurd h herr, ht.single, fun _ => rfl⟩

/-- a slot taken for an id: all is well when the id is new, the query succeeds and the command held the answer before -/
theorem wellPlaced_new (hsize : size ≤ 2 ^ 31) (ht : Table size s) (hw : s.writeId c = some flaId)
    (hfound : ¬ s.fdp.Found flaId) {k : ℕ} {rest : List ℕ} (hfree : s.fdp.freePids.free = k :: rest) :
    WellPlaced s c ↔ ¬ s.fdp.Recorded flaId ∧ c.answer.1 = 0 ∧ c.answer.2 = c.ctx.dspec := by
  obtain ⟨freePids, -, -, hres, hk, hnew⟩ := cachedWrite_new c.answer c.ctx ht.ok
    (ht.len ▸ hsize) hfound hfree
  have hkres : k ∈ freePids.reserved := (hres k).2 (Or.inl rfl)
  have hprep := prep_write hw
  rw [hnew] at hprep
  rw [wellPlaced_write hw, hprep, single_new ht.single hres hk]
  constructor
  · rintro ⟨hzero, hnrec, hkept⟩
    by_cases herr : c.answer.1 = 0
    · -- the slot that holds the id is the new one, which has the answer
      obtain ⟨⟨⟨i, hi, hrec⟩, -⟩, -⟩ := hzero herr
      simp only [herr, ne_eq, not_true_eq_false, if_false] at hrec
      rcases (hres i).1 hi with rfl | hi'
      · rw [update_self] at hrec
        refine ⟨hnrec, herr, ?_⟩
        simpa [flaFdpGetPidN, herr] using congrArg FdpPidToId.pid hrec
      · have hik : i ≠ k := fun h => hk (h ▸ hi')
        rw [update_of_ne hik] at hrec
        exact absurd ⟨i, hi', by rw [hrec]⟩ hnrec
    · have hsame : freePids = s.fdp.freePids := congrArg DpFdp.freePids (hkept herr)
      exact absurd (hsame ▸ hkres) hk
  · rintro ⟨hnrec, herr, hdspec⟩
    refine ⟨fun _ => ⟨⟨⟨k, hkres, ?_⟩, by simp [herr]⟩, fun dspec hmem => ?_⟩, hnrec, fun h => absurd herr h⟩
    · simp [flaFdpGetPidN, herr, hdspec]
    · obtain ⟨i, hi, hrec⟩ := ht.past flaId dspec hmem
      exact absurd ⟨i, hi, by rw [hrec]⟩ hnrec

/-- **One command**: it is placed well if and only if it does not go wrong. -/
theorem wellPlaced_iff (hsize : size ≤ 2 ^ 31) (ht : Table size s) : WellPlaced s c ↔ PlacementOk s c := by
  unfold PlacementOk
  cases hw : s.writeId c with
  | none => simp [wellPlaced_other ht hw]
  | some flaId =>
    simp only [Option.some.injEq, forall_eq']
    by_cases hfound : s.fdp.Found flaId
    · simp [hfound, wellPlaced_found ht hw hfound]
    · cases hfree : s.fdp.freePids.free with
      | nil => simp [wellPlaced_full ht hw hfound hfree]
      | cons k rest => simp [hfound, wellPlaced_new hsize ht hw hfound hfree]

theorem prep_extends (hsize : size ≤ 2 ^ 31) (ht : Table size s) :
    (s.prep c).2.1.freePids.Ok ∧ (s.prep c).2.1.freePids.len = size ∧
      ∀ i ∈ s.fdp.freePids.reserved, i ∈ (s.prep c).2.1.freePids.reserved ∧ (s.prep c).2.1.pids i = s.fdp.pids i := by
  cases hw : s.writeId c with
  | none =>
    rw [prep_other hw]
    exact ⟨ht.ok, ht.len, fun i hi => ⟨hi, rfl⟩⟩
  | some flaId =>
    rw [prep_write hw]
    by_cases hfound : s.fdp.Found flaId
    · obtain ⟨i, hi, hrec⟩ := hfound
      rw [cachedWrite_found ht.single hi hrec]
      exact ⟨ht.ok, ht.len, fun i hi => ⟨hi, rfl⟩⟩
    · cases hfree : s.fdp.freePids.free with
      | nil =>
        rw [cachedWrite_full ht.ok hfound hfree]
        exact ⟨ht.ok, ht.len, fun i hi => ⟨hi, rfl⟩⟩
      | cons k rest =>
        obtain ⟨freePids, hok, hlen, hres, hk, hnew⟩ := cachedWrite_new c.answer c.ctx ht.ok
          (ht.len ▸ hsize) hfound hfree
        rw [hnew]
        refine ⟨hok, hlen.trans ht.len, fun i hi => ⟨(hres i).2 (Or.inr hi), ?_⟩⟩
        have hik : i ≠ k := fun h => hk (h ▸ hi)
        exact update_of_ne hik _ _

theorem table_step (hsize : size ≤ 2 ^ 31) (ht : Table size s) (hc : WellPlaced s c) {t : Placing}
    (hstep : prepStep s c = some t) : Table size t := by
  obtain ⟨hok, hlen, hold⟩ := prep_extends (c := c) hsize ht
  cases hstep
  constructor
  · exact hok
  · exact hlen
  · exact hc.single
  · intro flaId dspec hmem
    dsimp only at hmem ⊢
    have hpast : (flaId, dspec) ∈ s.past → ∃ i ∈ (s.prep c).2.1.freePids.reserved,
        (s.prep c).2.1.pids i = ⟨dspec, flaId⟩ := by
      intro h
      obtain ⟨i, hi, hrec⟩ := ht.past flaId dspec h
      exact ⟨i, (hold i hi).1, (hold i hi).2.trans hrec⟩
    split_ifs at hmem with herr
    · rcases List.mem_append.1 hmem with h | h
      · exact hpast h
      · obtain ⟨id, hw, heq⟩ := Option.map_eq_some_iff.1 (Option.mem_toList.1 h)
        cases heq
        exact (hc.applied flaId hw herr).1
    · exact hpast hmem

end Step

/-- **Placement identifiers** are stable and applied in every command of a run, from a new table of any size, if and only
if each data write of the run finds its id, or finds no slot, or its id is new and the device answers what the command
holds already. -/
theorem placement_stable_iff {size : ℕ} (hsize : size ≤ 2 ^ 31) (ctxSet : FdpOn) (pids : ℕ → FdpPidToId) (mdPid : ℕ)
    (calls : List PrepCall) :
    along WellPlaced prepStep ⟨⟨ctxSet, pids, flaFlistInit size, mdPid⟩, []⟩ calls ↔
      along PlacementOk prepStep ⟨⟨ctxSet, pids, flaFlistInit size, mdPid⟩, []⟩ calls := by
  have hiff : ∀ s c, Table size s → (WellPlaced s c ↔ PlacementOk s c) := fun _ _ ht => wellPlaced_iff hsize ht
  refine along_iff hiff ?_ (table_start size ctxSet pids mdPid) calls
  intro s c t ht hc hstep
  exact table_step hsize ht ((wellPlaced_iff hsize ht).2 hc) hstep

/-- one slot, and two writes of slab 5 for which the device answers 7, which the first command already holds -/
theorem placement_stable_one :
    along WellPlaced prepStep ⟨⟨.slab, fun _ => ⟨0, 0⟩, flaFlistInit 1, 0⟩, []⟩
      [⟨⟨.dataWrite, 5, 0, 0⟩, (0, 7), ⟨7, 0⟩⟩, ⟨⟨.dataWrite, 5, 0, 1⟩, (0, 8), ⟨0, 0⟩⟩] := by
  refine (placement_stable_iff (by decide) .slab _ 0 _).2 ⟨?_, ?_⟩
  · intro flaId h
    cases h
    exact Or.inr (Or.inr ⟨fun ⟨i, hi, _⟩ => absurd hi (List.ne_nil_of_mem hi (by decide +kernel)).elim, rfl, rfl⟩)
  · intro t ht
    cases ht
    refine ⟨fun flaId h => ?_, fun _ _ => trivial⟩
    cases h
    exact Or.inl ⟨0, by decide +kernel, by decide +kernel⟩

/-- **The first write of an id** goes out without the identifier: a table of one slot, a write of slab 5 for which the
device answers 7, and the command keeps `dspec` 0. -/
theorem placement_not_applied : ¬ ∀ calls,
    along WellPlaced prepStep ⟨⟨.slab, fun _ => ⟨0, 0⟩, flaFlistInit 1, 0⟩, []⟩ calls := by
  intro h
  have hfirst := (h [⟨⟨.dataWrite, 5, 0, 0⟩, (0, 7), ⟨0, 0⟩⟩]).1
  rcases (wellPlaced_iff (by decide) (table_start 1 .slab _ 0)).1 hfirst 5 rfl with ⟨i, hi, -⟩ | hfull | ⟨-, -, hheld⟩
  · exact List.ne_nil_of_mem hi (by decide +kernel)
  · exact absurd hfull (by decide +kernel)
  · exact absurd hheld (by decide)

end FlexAlloc
