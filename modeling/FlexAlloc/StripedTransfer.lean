/-
`fla_xne_async_strp_seq_xneio` and its callback `fla_async_strp_cb`: a striped transfer as a machine, with the outcomes of
all it calls, and the order in which commands complete, chosen by the environment.

The loop submits the first command of each stripe. A completed command makes its callback submit the next of its stripe.
Callbacks run while the queue is poked (a submission was refused because the device was busy) or drained.

- `strp_inv`: in every state, the commands accepted on a stripe are a part of its chain, from the first on.
- `striped_exact_iff`: when everything succeeds, a transfer moves what is asked for and nothing else, whatever the order,
  exactly when the last chunk is not cut short in the first row, no buffer offset leaves 64 bits and the first addresses
  are those of the layout.
- `striped_overrun`: one and a half chunks over two stripes; the second command is for a whole chunk.
-/
import FlexAlloc.StripeLayout
import FlexAlloc.Core.Run

namespace FlexAlloc

open FlexAlloc.Core

/-! ## The machine -/

def eBUSY : ℤ := 16

def eAGAIN : ℤ := 11

/-- `struct fla_async_strp_cb_args`, with its `struct fla_async_cb_args` -/
structure StrpCbArgs extends StrpCmd where
  ecount : ℕ
  completed : ℕ
  submitted : ℕ
deriving DecidableEq, Repr

/-- where `fla_xne_async_strp_seq_xneio` is -/
inductive StrpPhase where
  | queueInit
  | loop
  | submit
  | poke
  | drain
  | term
  | done (err : ℤ)
deriving DecidableEq, Repr

/-- a transfer under way: the array `cb_args`, the loop's variables, the stripes with a command in flight, and the
commands accepted so far on each stripe -/
structure StrpRun where
  cbArgs : ℕ → StrpCbArgs
  i : ℕ
  sbufNbytes : ℕ
  phase : StrpPhase
  inFlight : Finset ℕ
  issued : ℕ → List StrpCmd

/-- what the environment answers: the value of a call, or a completion with its status and, where the callback submits a
command, the value of that -/
inductive StrpEvent where
  | queueInit (ret : ℤ)
  | prepare (ctx : Bool) (prep : ℤ)
  | submit (ret : ℤ)
  | poked (ret : ℤ)
  | complete (j : ℕ) (failed : Bool) (ret : ℤ)
  | drained (ret : ℤ)
  | termed (ret : ℤ)
deriving DecidableEq, Repr

/-- the call, up to `xnvme_queue_init` -/
def strpStart (p : StrpParams) : StrpRun :=
  { cbArgs := fun _ => ⟨⟨0, 0, 0⟩, 0, 0, 0⟩
    i := 0
    sbufNbytes := 0
    phase := if p.xferNbytes % p.devLbaNbytes ≠ 0 ∨ p.xferSnbytes % p.devLbaNbytes ≠ 0 then .done 1 else .queueInit
    inFlight := ∅
    issued := fun _ => [] }

/-- the condition of the `for` loop -/
def StrpRun.turn (p : StrpParams) (m : StrpRun) : StrpRun :=
  { m with phase := if m.i < p.strpNobjs ∧ m.sbufNbytes < p.xferNbytes then .loop else .drain }

/-- a command that is accepted -/
def StrpRun.accept (m : StrpRun) (j : ℕ) (a : StrpCbArgs) : StrpRun :=
  { m with
    cbArgs := Function.update m.cbArgs j { a with submitted := u32 (a.submitted + 1) }
    inFlight := insert j m.inFlight
    issued := Function.update m.issued j (m.issued j ++ [a.toStrpCmd]) }

/-- the end of the loop's body, for a command that is accepted -/
def StrpRun.proceed (p : StrpParams) (m : StrpRun) : StrpRun :=
  StrpRun.turn p { m.accept m.i (m.cbArgs m.i) with
    i := m.i + 1
    sbufNbytes := (m.cbArgs m.i).after p }

/-- `fla_async_strp_cb`: the status of the completed command, and the value of the submission if there is one -/
def flaAsyncStrpCb (p : StrpParams) (m : StrpRun) (j : ℕ) (failed : Bool) (ret : ℤ) : StrpRun :=
  let a := m.cbArgs j
  let a := { a with
    completed := u32 (a.completed + 1)
    ecount := if failed then u32 (a.ecount + 1) else a.ecount }
  let m := { m with inFlight := m.inFlight.erase j }
  if a.nextSbuf p < p.xferNbytes then
    let a := { a with toStrpCmd := a.next p }
    if ret = 0 then m.accept j a else { m with cbArgs := Function.update m.cbArgs j a }
  else { m with cbArgs := Function.update m.cbArgs j { a with sbufNbytes := a.nextSbuf p } }

/-- the summary at the end: each turn of the loop over the stripes looks at `cb_args`, the first of the array -/
def StrpRun.summary (m : StrpRun) : ℕ → ℤ
  | 0 => 0
  | n + 1 => if toInt (m.cbArgs 0).ecount ≠ 0 then toInt (m.cbArgs 0).ecount else m.summary n

/-- one answer of the environment; a callback that submits nothing has no value to give, and `ret` is 0 -/
def strpStep (p : StrpParams) (m : StrpRun) : StrpEvent → Option StrpRun
  | .queueInit ret =>
    if m.phase = .queueInit then some (if ret ≠ 0 then { m with phase := .done ret } else m.turn p) else none
  | .prepare ctx prep =>
    if m.phase = .loop then
      some (if ctx = false ∨ prep ≠ 0 then { m with phase := .drain }
        else { m with
          cbArgs := Function.update m.cbArgs m.i { m.cbArgs m.i with toStrpCmd := firstCmd p m.sbufNbytes }
          phase := .submit })
    else none
  | .submit ret =>
    if m.phase = .submit then
      some (if ret = 0 then m.proceed p
        else { m with phase := if ret = -eBUSY ∨ ret = -eAGAIN then .poke else .drain })
    else none
  | .poked ret =>
    if m.phase = .poke then some { m with phase := if ret < 0 then .drain else .submit } else none
  | .complete j failed ret =>
    if (m.phase = .poke ∨ m.phase = .drain) ∧ j ∈ m.inFlight ∧ ((m.cbArgs j).nextSbuf p < p.xferNbytes ∨ ret = 0) then
      some (flaAsyncStrpCb p m j failed ret)
    else none
  | .drained ret =>
    if m.phase = .drain ∧ (ret < 0 ∨ m.inFlight = ∅) then
      some { m with phase := if ret < 0 then .done 1 else .term }
    else none
  | .termed ret =>
    if m.phase = .term then some { m with phase := .done (if ret ≠ 0 then ret else m.summary p.strpNobjs) } else none

/-- all goes well; a refused submission may be tried again -/
def StrpEvent.Ok : StrpEvent → Prop
  | .queueInit ret => ret = 0
  | .prepare ctx prep => ctx = true ∧ prep = 0
  | .submit ret => ret = 0 ∨ ret = -eBUSY ∨ ret = -eAGAIN
  | .poked ret => 0 ≤ ret
  | .complete _ failed ret => failed = false ∧ ret = 0
  | .drained ret => 0 ≤ ret
  | .termed ret => ret = 0

instance decidableOk (e : StrpEvent) : Decidable e.Ok := by cases e <;> unfold StrpEvent.Ok <;> infer_instance

/-! ## Every state -/

/-- the commands accepted on stripe `j` are its chain's, up to the `k`-th -/
structure Issued (p : StrpParams) (j : ℕ) (cmds : List StrpCmd) (k : ℕ) : Prop where
  cmds : cmds = (List.range (k + 1)).map (chain p j)
  goes : ∀ r < k, (chain p j r).nextSbuf p < p.xferNbytes

/-- in the loop, with a command to submit -/
def StrpPhase.looping : StrpPhase → Prop
  | .loop | .submit | .poke => True
  | _ => False

/-- in the loop, with a command prepared -/
def StrpPhase.prepared : StrpPhase → Prop
  | .submit | .poke => True
  | _ => False

/-- what holds in every state of a transfer -/
structure StrpInv (p : StrpParams) (m : StrpRun) : Prop where
  le : m.i ≤ p.strpNobjs
  sbuf : m.sbufNbytes = sbufAt p m.i
  started : ∀ j < m.i, sbufAt p j < p.xferNbytes
  fresh : ∀ j, m.i ≤ j → m.issued j = [] ∧ j ∉ m.inFlight
  chains : ∀ j < m.i, ∃ k, Issued p j (m.issued j) k ∧ (j ∈ m.inFlight → (m.cbArgs j).toStrpCmd = chain p j k)
  loop : m.phase.looping → m.i < p.strpNobjs ∧ m.sbufNbytes < p.xferNbytes
  prepared : m.phase.prepared → (m.cbArgs m.i).toStrpCmd = firstCmd p m.sbufNbytes
  quiet : m.phase = .term → m.inFlight = ∅

section Invariant

variable {p : StrpParams} {m m' : StrpRun} {j : ℕ}

theorem accept_issued_self (m : StrpRun) (j : ℕ) (a : StrpCbArgs) :
    (m.accept j a).issued j = m.issued j ++ [a.toStrpCmd] := Function.update_self _ _ _

theorem accept_issued_of_ne {k : ℕ} (h : k ≠ j) (a : StrpCbArgs) : (m.accept j a).issued k = m.issued k :=
  Function.update_of_ne h _ _

theorem accept_cbArgs_self (m : StrpRun) (j : ℕ) (a : StrpCbArgs) :
    ((m.accept j a).cbArgs j).toStrpCmd = a.toStrpCmd := by
  dsimp only [StrpRun.accept]
  rw [Function.update_self]

theorem accept_cbArgs_of_ne {k : ℕ} (h : k ≠ j) (a : StrpCbArgs) : (m.accept j a).cbArgs k = m.cbArgs k :=
  Function.update_of_ne h _ _

theorem accept_inFlight (m : StrpRun) (j : ℕ) (a : StrpCbArgs) : (m.accept j a).inFlight = insert j m.inFlight := rfl

theorem Issued.snoc {cmds : List StrpCmd} {k : ℕ} (h : Issued p j cmds k)
    (hnext : (chain p j k).nextSbuf p < p.xferNbytes) : Issued p j (cmds ++ [chain p j (k + 1)]) (k + 1) := by
  refine ⟨?_, fun r hr => ?_⟩
  · rw [h.cmds, List.range_succ (n := k + 1), List.map_append, List.map_singleton]
  · rcases Nat.lt_succ_iff_lt_or_eq.1 hr with hr | rfl
    · exact h.goes r hr
    · exact hnext

theorem strpStart_inv (p : StrpParams) : StrpInv p (strpStart p) where
  le := Nat.zero_le _
  sbuf := rfl
  started := fun j hj => absurd hj (Nat.not_lt_zero _)
  fresh := fun _ _ => ⟨rfl, Finset.notMem_empty _⟩
  chains := fun j hj => absurd hj (Nat.not_lt_zero _)
  loop := fun h => by
    unfold strpStart at h
    dsimp only at h
    split_ifs at h <;> exact h.elim
  prepared := fun h => by
    unfold strpStart at h
    dsimp only at h
    split_ifs at h <;> exact h.elim
  quiet := fun _ => rfl

theorem StrpInv.phase (hi : StrpInv p m) {ph : StrpPhase}
    (hl : ph.looping → m.i < p.strpNobjs ∧ m.sbufNbytes < p.xferNbytes)
    (hp : ph.prepared → m.phase.prepared) (hq : ph = .term → m.inFlight = ∅) : StrpInv p { m with phase := ph } where
  le := hi.le
  sbuf := hi.sbuf
  started := hi.started
  fresh := hi.fresh
  chains := hi.chains
  loop := hl
  prepared := fun h => hi.prepared (hp h)
  quiet := hq

theorem turn_phase (p : StrpParams) (m : StrpRun) :
    ((m.turn p).phase.looping → m.i < p.strpNobjs ∧ m.sbufNbytes < p.xferNbytes) ∧ ¬ (m.turn p).phase.prepared ∧
      (m.turn p).phase ≠ .term := by
  unfold StrpRun.turn
  dsimp only
  split_ifs with h
  · exact ⟨fun _ => h, fun h => h.elim, by simp⟩
  · exact ⟨fun h => h.elim, fun h => h.elim, by simp⟩

theorem StrpInv.prepare (hi : StrpInv p m) (hl : m.phase.looping) : StrpInv p { m with
    cbArgs := Function.update m.cbArgs m.i { m.cbArgs m.i with toStrpCmd := firstCmd p m.sbufNbytes }
    phase := .submit } where
  le := hi.le
  sbuf := hi.sbuf
  started := hi.started
  fresh := hi.fresh
  chains := fun j hj => by
    dsimp only
    rw [Function.update_of_ne (Nat.ne_of_lt hj)]
    exact hi.chains j hj
  loop := fun _ => hi.loop hl
  prepared := fun _ => by
    dsimp only
    rw [Function.update_self]
  quiet := fun h => by cases h

theorem StrpInv.proceed (hi : StrpInv p m) (hl : m.phase.looping) (hp : m.phase.prepared) : StrpInv p (m.proceed p) where
  le := (hi.loop hl).1
  sbuf := by
    change (m.cbArgs m.i).toStrpCmd.after p = sbufAt p (m.i + 1)
    rw [hi.prepared hp, hi.sbuf, sbufAt]
  started := fun j hj => by
    rcases Nat.lt_succ_iff_lt_or_eq.1 hj with hj | rfl
    · exact hi.started j hj
    · exact hi.sbuf ▸ (hi.loop hl).2
  fresh := fun j hj => by
    have hlt : m.i < j := hj
    obtain ⟨hnone, hout⟩ := hi.fresh j hlt.le
    refine ⟨(accept_issued_of_ne hlt.ne' _).trans hnone, fun hmem => ?_⟩
    exact (Finset.mem_insert.1 hmem).elim hlt.ne' hout
  chains := fun j hj => by
    rcases Nat.lt_succ_iff_lt_or_eq.1 hj with hlt | rfl
    · obtain ⟨k, hissued, hargs⟩ := hi.chains j hlt
      rw [← accept_issued_of_ne hlt.ne (m.cbArgs m.i)] at hissued
      rw [← accept_cbArgs_of_ne hlt.ne (m.cbArgs m.i)] at hargs
      exact ⟨k, hissued, fun hmem => hargs ((Finset.mem_insert.1 hmem).resolve_left hlt.ne)⟩
    · have hcmd : (m.cbArgs m.i).toStrpCmd = chain p m.i 0 := by rw [hi.prepared hp, hi.sbuf, chain]
      have hcmds := accept_issued_self m m.i (m.cbArgs m.i)
      rw [(hi.fresh m.i le_rfl).1, hcmd] at hcmds
      exact ⟨0, ⟨hcmds, fun r hr => absurd hr (Nat.not_lt_zero _)⟩, fun _ => (accept_cbArgs_self m m.i _).trans hcmd⟩
  loop := (turn_phase p _).1
  prepared := fun h => absurd h (turn_phase p _).2.1
  quiet := fun h => absurd h (turn_phase p _).2.2

theorem StrpInv.lt (hi : StrpInv p m) (hj : j ∈ m.inFlight) : j < m.i := by
  by_contra hge
  exact (hi.fresh j (Nat.not_lt.1 hge)).2 hj

/-- what a callback does: it submits the next command of the chain, or fails to, or there is none -/
theorem cb_cases (p : StrpParams) (m : StrpRun) (j : ℕ) (failed : Bool) (ret : ℤ) :
    ∃ a : StrpCbArgs, a.ecount = (if failed then u32 ((m.cbArgs j).ecount + 1) else (m.cbArgs j).ecount) ∧
      (((m.cbArgs j).nextSbuf p < p.xferNbytes ∧ ret = 0 ∧ a.toStrpCmd = (m.cbArgs j).next p ∧
          flaAsyncStrpCb p m j failed ret = ({ m with inFlight := m.inFlight.erase j } : StrpRun).accept j a) ∨
        (((m.cbArgs j).nextSbuf p < p.xferNbytes → ret ≠ 0) ∧
          flaAsyncStrpCb p m j failed ret =
            { m with inFlight := m.inFlight.erase j, cbArgs := Function.update m.cbArgs j a })) := by
  by_cases hnext : (m.cbArgs j).nextSbuf p < p.xferNbytes
  · by_cases hret : ret = 0
    · exact ⟨_, rfl, Or.inl ⟨hnext, hret, rfl, (if_pos hnext).trans (if_pos hret)⟩⟩
    · exact ⟨_, rfl, Or.inr ⟨fun _ => hret, (if_pos hnext).trans (if_neg hret)⟩⟩
  · exact ⟨_, rfl, Or.inr ⟨fun h => absurd h hnext, if_neg hnext⟩⟩

theorem StrpInv.callback (hi : StrpInv p m) (hj : j ∈ m.inFlight) (failed : Bool) (ret : ℤ) :
    StrpInv p (flaAsyncStrpCb p m j failed ret) := by
  have hbusy : m.phase ≠ .term := fun h => by
    rw [hi.quiet h] at hj
    exact Finset.notMem_empty j hj
  have hlt := hi.lt hj
  obtain ⟨k, hissued, hargs⟩ := hi.chains j hlt
  have hcmd := hargs hj
  obtain ⟨a, -, ⟨hnext, -, ha, hrun⟩ | ⟨-, hrun⟩⟩ := cb_cases p m j failed ret
  · rw [hcmd] at hnext ha
    rw [hrun]
    refine ⟨hi.le, hi.sbuf, hi.started, fun i hge => ?_, fun i hi' => ?_, hi.loop, fun h => ?_,
      fun h => absurd h hbusy⟩
    · have hne : i ≠ j := by rintro rfl; exact absurd hlt (Nat.not_lt.2 hge)
      rw [accept_issued_of_ne hne, accept_inFlight, Finset.mem_insert, Finset.mem_erase]
      obtain ⟨hnone, hout⟩ := hi.fresh i hge
      exact ⟨hnone, fun h => h.elim hne fun h => hout h.2⟩
    · by_cases hne : i = j
      · subst hne
        refine ⟨k + 1, ?_, fun _ => (accept_cbArgs_self _ _ _).trans ha⟩
        rw [accept_issued_self, ha]
        exact hissued.snoc hnext
      · obtain ⟨k', hissued', hargs'⟩ := hi.chains i hi'
        rw [accept_issued_of_ne hne, accept_cbArgs_of_ne hne]
        refine ⟨k', hissued', fun hmem => hargs' ?_⟩
        rw [accept_inFlight, Finset.mem_insert, Finset.mem_erase] at hmem
        exact (hmem.resolve_left hne).2
    · change ((StrpRun.accept _ j a).cbArgs m.i).toStrpCmd = _
      rw [accept_cbArgs_of_ne hlt.ne']
      exact hi.prepared h
  · rw [hrun]
    refine ⟨hi.le, hi.sbuf, hi.started, fun i hge => ?_, fun i hi' => ?_, hi.loop, fun h => ?_,
      fun h => absurd h hbusy⟩
    · obtain ⟨hnone, hout⟩ := hi.fresh i hge
      exact ⟨hnone, fun h => hout (Finset.mem_of_mem_erase h)⟩
    · obtain ⟨k', hissued', hargs'⟩ := hi.chains i hi'
      refine ⟨k', hissued', fun hmem => ?_⟩
      dsimp only
      rw [Function.update_of_ne (Finset.ne_of_mem_erase hmem)]
      exact hargs' (Finset.mem_of_mem_erase hmem)
    · dsimp only
      rw [Function.update_of_ne hlt.ne']
      exact hi.prepared h

/-- **Every state.** A step keeps what holds of the transfer. -/
theorem StrpInv.step (hi : StrpInv p m) {e : StrpEvent} (h : strpStep p m e = some m') : StrpInv p m' := by
  unfold strpStep at h
  cases e with
  | queueInit ret =>
    dsimp only at h
    split_ifs at h with hph hret
    · obtain rfl := Option.some.inj h
      exact hi.phase (fun h => h.elim) (fun h => h.elim) (fun h => by cases h)
    · obtain rfl := Option.some.inj h
      exact hi.phase (turn_phase p m).1 (fun h => absurd h (turn_phase p m).2.1) fun h => absurd h (turn_phase p m).2.2
  | prepare ctx prep =>
    dsimp only at h
    split_ifs at h with hph hbad
    · obtain rfl := Option.some.inj h
      exact hi.phase (fun h => h.elim) (fun h => h.elim) (fun h => by cases h)
    · obtain rfl := Option.some.inj h
      exact hi.prepare (by rw [hph]; trivial)
  | submit ret =>
    dsimp only at h
    split_ifs at h with hph hret hbusy
    · obtain rfl := Option.some.inj h
      exact hi.proceed (by rw [hph]; trivial) (by rw [hph]; trivial)
    · obtain rfl := Option.some.inj h
      exact hi.phase (fun _ => hi.loop (by rw [hph]; trivial)) (fun _ => by rw [hph]; trivial) (fun h => by cases h)
    · obtain rfl := Option.some.inj h
      exact hi.phase (fun h => h.elim) (fun h => h.elim) (fun h => by cases h)
  | poked ret =>
    dsimp only at h
    split_ifs at h with hph hret
    · obtain rfl := Option.some.inj h
      exact hi.phase (fun h => h.elim) (fun h => h.elim) (fun h => by cases h)
    · obtain rfl := Option.some.inj h
      exact hi.phase (fun _ => hi.loop (by rw [hph]; trivial)) (fun _ => by rw [hph]; trivial) (fun h => by cases h)
  | complete j failed ret =>
    dsimp only at h
    split_ifs at h with hcan
    obtain rfl := Option.some.inj h
    exact hi.callback hcan.2.1 failed ret
  | drained ret =>
    dsimp only at h
    split_ifs at h with hcan hret
    · obtain rfl := Option.some.inj h
      exact hi.phase (fun h => h.elim) (fun h => h.elim) (fun h => by cases h)
    · obtain rfl := Option.some.inj h
      exact hi.phase (fun h => h.elim) (fun h => h.elim) fun _ => hcan.2.resolve_left hret
  | termed ret =>
    dsimp only at h
    split_ifs at h with hph hret
    all_goals
      obtain rfl := Option.some.inj h
      exact hi.phase (fun h => h.elim) (fun h => h.elim) (fun h => by cases h)

end Invariant

/-! ## Commands that are never submitted -/

/-- a command is not submitted, and neither is any after it on its stripe -/
def StrpEvent.Lost : StrpEvent → Prop
  | .prepare ctx prep => ctx = false ∨ prep ≠ 0
  | .submit ret => ret ≠ 0 ∧ ¬ (ret = -eBUSY ∨ ret = -eAGAIN)
  | .poked ret => ret < 0
  | .complete _ _ ret => ret ≠ 0
  | _ => False

theorem StrpEvent.Ok.not_lost {e : StrpEvent} (h : e.Ok) : ¬ e.Lost := by
  cases e with
  | queueInit ret => exact id
  | prepare ctx prep =>
    rintro (hctx | hprep)
    · exact Bool.noConfusion (hctx.symm.trans h.1)
    · exact hprep h.2
  | submit ret => exact fun hl => h.elim hl.1 hl.2
  | poked ret => exact not_lt.2 h
  | complete j failed ret => exact fun hl => hl h.2
  | drained ret => exact id
  | termed ret => exact id

/-- the loop is over -/
def StrpPhase.closing : StrpPhase → Prop
  | .drain | .term => True
  | _ => False

/-- the loop was left with a stripe to start -/
def Stopped (p : StrpParams) (m : StrpRun) : Prop :=
  m.phase.closing ∧ m.i < p.strpNobjs ∧ m.sbufNbytes < p.xferNbytes

/-- stripe `j` has no command in flight, with one to submit -/
def Dropped (p : StrpParams) (m : StrpRun) (j : ℕ) : Prop :=
  j < m.i ∧ j ∉ m.inFlight ∧ (chain p j (m.issued j).length).sbufNbytes < p.xferNbytes

/-- some command of the transfer will not be submitted any more -/
def Hole (p : StrpParams) (m : StrpRun) : Prop := Stopped p m ∨ ∃ j, Dropped p m j

section Holes

variable {p : StrpParams} {m m' : StrpRun} {e : StrpEvent} {j : ℕ}

theorem Issued.length {cmds : List StrpCmd} {k : ℕ} (h : Issued p j cmds k) : cmds.length = k + 1 := by
  rw [h.cmds, List.length_map, List.length_range]

theorem hole_of_phase (ph : StrpPhase) (hclosing : ph.closing → m.i < p.strpNobjs → m.sbufNbytes < p.xferNbytes →
    m.phase.closing) (hopen : m.phase.closing → ph.closing) : Hole p { m with phase := ph } ↔ Hole p m :=
  or_congr ⟨fun h => ⟨hclosing h.1 h.2.1 h.2.2, h.2⟩, fun h => ⟨hopen h.1, h.2⟩⟩ Iff.rfl

theorem hole_of_left (hi : StrpInv p m) (hl : m.phase.looping) : Hole p { m with phase := .drain } :=
  Or.inl ⟨trivial, hi.loop hl⟩

theorem turn_closing (h : (m.turn p).phase.closing) : ¬ (m.i < p.strpNobjs ∧ m.sbufNbytes < p.xferNbytes) := by
  unfold StrpRun.turn at h
  dsimp only at h
  split_ifs at h with hcond
  · exact h.elim
  · exact hcond

theorem hole_proceed (hi : StrpInv p m) (hph : m.phase = .submit) : Hole p (m.proceed p) ↔ Hole p m := by
  have hnew := (hi.fresh m.i le_rfl).2
  constructor
  · rintro (⟨hclosing, hlt⟩ | ⟨j, hj, hout, hnext⟩)
    · exact absurd hlt (turn_closing hclosing)
    · have hne : j ≠ m.i := by rintro rfl; exact hout (Finset.mem_insert_self _ _)
      have hissued : (m.proceed p).issued j = m.issued j := accept_issued_of_ne hne _
      rw [hissued] at hnext
      exact Or.inr ⟨j, (Nat.lt_succ_iff_lt_or_eq.1 hj).resolve_right hne,
        fun hmem => hout (Finset.mem_insert_of_mem hmem), hnext⟩
  · rintro (⟨hclosing, -⟩ | ⟨j, hj, hout, hnext⟩)
    · rw [hph] at hclosing
      exact hclosing.elim
    · have hissued : (m.proceed p).issued j = m.issued j := accept_issued_of_ne hj.ne _
      refine Or.inr ⟨j, Nat.lt_succ_of_lt hj, fun hmem => ?_, hissued.symm ▸ hnext⟩
      exact (Finset.mem_insert.1 hmem).elim hj.ne hout

theorem hole_callback (hi : StrpInv p m) (hj : j ∈ m.inFlight) (failed : Bool) {ret : ℤ}
    (hret : (m.cbArgs j).nextSbuf p < p.xferNbytes ∨ ret = 0) :
    Hole p (flaAsyncStrpCb p m j failed ret) ↔ Hole p m ∨ ret ≠ 0 := by
  obtain ⟨k, hissued, hargs⟩ := hi.chains j (hi.lt hj)
  have hlen := hissued.length
  have hlast : (chain p j (m.issued j).length).sbufNbytes = (m.cbArgs j).nextSbuf p := by rw [hlen, hargs hj]; rfl
  -- a stripe other than `j` is as before
  have hothers : ∀ m', m'.i = m.i → (∀ i ≠ j, m'.issued i = m.issued i ∧ (i ∈ m'.inFlight ↔ i ∈ m.inFlight)) →
      ∀ i ≠ j, Dropped p m' i ↔ Dropped p m i := fun m' hmi hsame i hne => by
    rw [Dropped, Dropped, hmi, (hsame i hne).1, (hsame i hne).2]
  have hnot : ¬ Dropped p m j := fun h => h.2.1 hj
  obtain ⟨a, -, ⟨hnext, hok, ha, hrun⟩ | ⟨hbad, hrun⟩⟩ := cb_cases p m j failed ret
  · rw [hrun, or_iff_left (not_not.2 hok)]
    have hnot' : ¬ Dropped p (({ m with inFlight := m.inFlight.erase j } : StrpRun).accept j a) j :=
      fun h => h.2.1 (Finset.mem_insert_self _ _)
    have hsame := hothers (({ m with inFlight := m.inFlight.erase j } : StrpRun).accept j a) rfl fun i hne => by
      rw [accept_issued_of_ne hne, accept_inFlight, Finset.mem_insert, Finset.mem_erase]
      exact ⟨rfl, by simp [hne]⟩
    refine or_congr Iff.rfl (exists_congr fun i => ?_)
    by_cases hne : i = j
    · subst hne
      exact iff_of_false hnot' hnot
    · exact hsame i hne
  · rw [hrun]
    have hsame := hothers { m with inFlight := m.inFlight.erase j, cbArgs := Function.update m.cbArgs j a } rfl
      fun i hne => ⟨rfl, by simp [hne]⟩
    have hself : Dropped p { m with inFlight := m.inFlight.erase j, cbArgs := Function.update m.cbArgs j a } j ↔
        ret ≠ 0 := by
      refine ⟨fun h => hbad (hlast ▸ h.2.2), fun h => ⟨hi.lt hj, Finset.notMem_erase _ _, ?_⟩⟩
      exact hlast.symm ▸ hret.resolve_right h
    constructor
    · rintro (hstop | ⟨i, hi⟩)
      · exact Or.inl (Or.inl hstop)
      · by_cases hne : i = j
        · exact Or.inr (hself.1 (hne ▸ hi))
        · exact Or.inl (Or.inr ⟨i, (hsame i hne).1 hi⟩)
    · rintro ((hstop | ⟨i, hi⟩) | hlost)
      · exact Or.inl hstop
      · have hne : i ≠ j := by rintro rfl; exact hnot hi
        exact Or.inr ⟨i, (hsame i hne).2 hi⟩
      · exact Or.inr ⟨j, hself.2 hlost⟩

/-- **What is lost stays lost,** and nothing else is. -/
theorem hole_step (hi : StrpInv p m) (h : strpStep p m e = some m') (hnd : ∀ err, m'.phase ≠ .done err) :
    Hole p m' ↔ Hole p m ∨ e.Lost := by
  unfold strpStep at h
  cases e with
  | queueInit ret =>
    dsimp only at h
    split_ifs at h with hph hret
    · obtain rfl := Option.some.inj h
      exact absurd rfl (hnd ret)
    · obtain rfl := Option.some.inj h
      rw [or_iff_left (show ¬ StrpEvent.Lost (.queueInit ret) from id)]
      refine hole_of_phase _ (fun hc hn hL => absurd ⟨hn, hL⟩ (turn_closing hc)) fun hc => ?_
      rw [hph] at hc
      exact hc.elim
  | prepare ctx prep =>
    dsimp only at h
    split_ifs at h with hph hbad
    · obtain rfl := Option.some.inj h
      exact iff_of_true (hole_of_left hi (by rw [hph]; trivial)) (Or.inr hbad)
    · obtain rfl := Option.some.inj h
      rw [or_iff_left (show ¬ StrpEvent.Lost (.prepare ctx prep) from hbad)]
      refine or_congr ⟨fun hc => hc.1.elim, fun hc => ?_⟩ Iff.rfl
      rw [Stopped, hph] at hc
      exact hc.1.elim
  | submit ret =>
    dsimp only at h
    split_ifs at h with hph hret hbusy
    · obtain rfl := Option.some.inj h
      rw [or_iff_left (show ¬ StrpEvent.Lost (.submit ret) from fun hl => hl.1 hret)]
      exact hole_proceed hi hph
    · obtain rfl := Option.some.inj h
      rw [or_iff_left (show ¬ StrpEvent.Lost (.submit ret) from fun hl => hl.2 hbusy)]
      refine hole_of_phase _ (fun hc => hc.elim) fun hc => ?_
      rw [hph] at hc
      exact hc.elim
    · obtain rfl := Option.some.inj h
      exact iff_of_true (hole_of_left hi (by rw [hph]; trivial)) (Or.inr ⟨hret, hbusy⟩)
  | poked ret =>
    dsimp only at h
    split_ifs at h with hph hret
    · obtain rfl := Option.some.inj h
      exact iff_of_true (hole_of_left hi (by rw [hph]; trivial)) (Or.inr hret)
    · obtain rfl := Option.some.inj h
      rw [or_iff_left (show ¬ StrpEvent.Lost (.poked ret) from hret)]
      refine hole_of_phase _ (fun hc => hc.elim) fun hc => ?_
      rw [hph] at hc
      exact hc.elim
  | complete j failed ret =>
    dsimp only at h
    split_ifs at h with hcan
    obtain rfl := Option.some.inj h
    exact hole_callback hi hcan.2.1 failed hcan.2.2
  | drained ret =>
    dsimp only at h
    split_ifs at h with hcan hret
    · obtain rfl := Option.some.inj h
      exact absurd rfl (hnd 1)
    · obtain rfl := Option.some.inj h
      rw [or_iff_left (show ¬ StrpEvent.Lost (.drained ret) from id)]
      exact hole_of_phase _ (fun _ _ _ => by rw [hcan.1]; trivial) fun _ => trivial
  | termed ret =>
    dsimp only at h
    split_ifs at h with hph hret
    all_goals
      obtain rfl := Option.some.inj h
      exact absurd rfl (hnd _)

end Holes

/-! ## Runs -/

/-- what the commands accepted so far transfer -/
def StrpRun.moves (p : StrpParams) (m : StrpRun) : Multiset (ℕ × ℕ) :=
  ∑ j ∈ Finset.range p.strpNobjs, ((m.issued j).map (StrpCmd.moves p)).sum

section Runs

variable {p : StrpParams} {m m' : StrpRun} {e : StrpEvent} {evs : List StrpEvent}

theorem run_strpInv (h : run (strpStep p) (strpStart p) evs = some m) : StrpInv p m :=
  run_inv (fun _ _ _ hi hstep => hi.step hstep) (strpStart_inv p) h

theorem step_not_done (h : strpStep p m e = some m') (err : ℤ) : m.phase ≠ .done err := by
  intro hd
  cases e <;> simp [strpStep, hd] at h

/-- **Commands are lost** exactly when the environment says so. -/
theorem run_hole (h : run (strpStep p) (strpStart p) evs = some m) (hnd : ∀ err, m.phase ≠ .done err) :
    Hole p m ↔ ∃ e ∈ evs, e.Lost := by
  have hstart : ¬ Hole p (strpStart p) := by
    rintro (⟨hclosing, -⟩ | ⟨j, hj, -⟩)
    · unfold strpStart at hclosing
      dsimp only at hclosing
      split_ifs at hclosing <;> exact hclosing.elim
    · exact absurd hj (Nat.not_lt_zero _)
  have hboth : StrpInv p m ∧ ((∀ err, m.phase ≠ .done err) → (Hole p m ↔ ∃ e ∈ evs, e.Lost)) := by
    refine run_history (P := fun pre m => StrpInv p m ∧
      ((∀ err, m.phase ≠ .done err) → (Hole p m ↔ ∃ e ∈ pre, e.Lost))) ?_ ⟨strpStart_inv p, fun _ => ?_⟩ h
    · intro pre m e m' ⟨hi, hpre⟩ hstep
      refine ⟨hi.step hstep, fun hnd => ?_⟩
      rw [hole_step hi hstep hnd, hpre (step_not_done hstep)]
      simp only [List.mem_append, List.mem_singleton, or_and_right, exists_or, exists_eq_left]
    · exact iff_of_false hstart (by simp)
  exact hboth.2 hnd

/-- commands are not taken back -/
theorem step_issued (h : strpStep p m e = some m') (j : ℕ) : m.issued j <+: m'.issued j := by
  have haccept : ∀ (n : StrpRun) (i : ℕ) (a : StrpCbArgs), n.issued j <+: (n.accept i a).issued j := fun n i a => by
    by_cases hne : j = i
    · rw [hne, accept_issued_self]
      exact List.prefix_append _ _
    · rw [accept_issued_of_ne hne]
  unfold strpStep at h
  cases e with
  | submit ret =>
    dsimp only at h
    split_ifs at h with hph hret hbusy
    · obtain rfl := Option.some.inj h
      exact haccept m m.i (m.cbArgs m.i)
    all_goals
      obtain rfl := Option.some.inj h
      exact List.prefix_rfl
  | complete i failed ret =>
    dsimp only at h
    split_ifs at h with hcan
    obtain rfl := Option.some.inj h
    obtain ⟨a, -, ⟨-, -, -, hrun⟩ | ⟨-, hrun⟩⟩ := cb_cases p m i failed ret
    · rw [hrun]
      exact haccept { m with inFlight := m.inFlight.erase i } i a
    · rw [hrun]
  | _ =>
    dsimp only at h
    split_ifs at h
    all_goals
      obtain rfl := Option.some.inj h
      exact List.prefix_rfl

theorem step_moves (h : strpStep p m e = some m') : m.moves p ≤ m'.moves p := by
  refine Finset.sum_le_sum fun j _ => ?_
  obtain ⟨cmds, hcmds⟩ := step_issued h j
  rw [← hcmds, List.map_append, List.sum_append]
  exact Multiset.le_add_right _ _

theorem run_moves (h : run (strpStep p) m evs = some m') : m.moves p ≤ m'.moves p :=
  run_inv (P := fun t => m.moves p ≤ t.moves p) (fun _ _ _ hle hstep => hle.trans (step_moves hstep)) le_rfl h

/-- a run in which all goes well -/
def OkRun (p : StrpParams) (m m' : StrpRun) : Prop :=
  ∃ evs, (∀ e ∈ evs, e.Ok) ∧ run (strpStep p) m evs = some m'

theorem OkRun.refl (p : StrpParams) (m : StrpRun) : OkRun p m m := ⟨[], by simp, rfl⟩

theorem OkRun.single (he : e.Ok) (h : strpStep p m e = some m') : OkRun p m m' :=
  ⟨[e], by simpa using he, by rw [run, h]; rfl⟩

theorem OkRun.trans {m₁ m₂ m₃ : StrpRun} (h₁ : OkRun p m₁ m₂) (h₂ : OkRun p m₂ m₃) : OkRun p m₁ m₃ := by
  obtain ⟨evs₁, hok₁, hrun₁⟩ := h₁
  obtain ⟨evs₂, hok₂, hrun₂⟩ := h₂
  refine ⟨evs₁ ++ evs₂, fun e he => (List.mem_append.1 he).elim (hok₁ e) (hok₂ e), ?_⟩
  rw [run_append, hrun₁]
  exact hrun₂

theorem OkRun.inv (h : OkRun p m m') (hi : StrpInv p m) : StrpInv p m' := by
  obtain ⟨evs, -, hrun⟩ := h
  exact run_inv (fun _ _ _ hi hstep => hi.step hstep) hi hrun

end Runs

/-! ## A transfer can always be finished -/

section Finish

variable {p : StrpParams} {m m' : StrpRun} {j : ℕ}

theorem okRun_proceed (hl : m.phase.looping) : ∃ t, OkRun p m t ∧ (t.phase = .loop ∨ t.phase = .drain) ∧ t.i = m.i + 1 := by
  have hturn : ∀ n : StrpRun, (n.turn p).phase = .loop ∨ (n.turn p).phase = .drain := fun n => by
    unfold StrpRun.turn
    dsimp only
    split_ifs
    · exact Or.inl rfl
    · exact Or.inr rfl
  have hsubmit : ∀ n : StrpRun, n.phase = .submit → OkRun p n (n.proceed p) := fun n hn =>
    OkRun.single (e := .submit 0) (Or.inl rfl) ((if_pos hn).trans (congrArg some (if_pos rfl)))
  cases hph : m.phase with
  | loop =>
    have hprepare : OkRun p m { m with
        cbArgs := Function.update m.cbArgs m.i { m.cbArgs m.i with toStrpCmd := firstCmd p m.sbufNbytes }
        phase := .submit } :=
      OkRun.single (e := .prepare true 0) ⟨rfl, rfl⟩ ((if_pos hph).trans (congrArg some (if_neg (by simp))))
    exact ⟨_, hprepare.trans (hsubmit _ rfl), hturn _, rfl⟩
  | submit => exact ⟨_, hsubmit m hph, hturn _, rfl⟩
  | poke =>
    have hpoked : OkRun p m { m with phase := .submit } :=
      OkRun.single (e := .poked 0) le_rfl ((if_pos hph).trans (by simp))
    exact ⟨_, hpoked.trans (hsubmit _ rfl), hturn _, rfl⟩
  | _ =>
    rw [hph] at hl
    exact hl.elim

theorem okRun_drain (hi : StrpInv p m) (hl : m.phase.looping) : ∃ t, OkRun p m t ∧ t.phase = .drain := by
  induction hleft : p.strpNobjs - m.i generalizing m with
  | zero => exact absurd (hi.loop hl).1 (by omega)
  | succ left ih =>
    obtain ⟨t, hrun, hph | hph, hti⟩ := okRun_proceed (p := p) hl
    · obtain ⟨u, hrun', hu⟩ := ih (hrun.inv hi) (by rw [hph]; trivial) (by omega)
      exact ⟨u, hrun.trans hrun', hu⟩
    · exact ⟨t, hrun, hph⟩

theorem StrpInv.start_lt (h : StrpRequest p) (ha : BlockAligned p) (hf : StrpFits p) (hi : StrpInv p m) (hj : j < m.i) :
    start p j < p.xferNbytes := by
  induction j with
  | zero => exact start_zero.symm ▸ h.lb_pos.trans_le ha.pos
  | succ j ih =>
    have hinside := h.inside
    have htotal := h.total_lt
    have hprev := ih (Nat.lt_of_succ_lt hj)
    have hle := first_le h.chunk_pos hf.ends ((Nat.lt_of_succ_lt hj).trans_le hi.le) hprev
    have hnext := start_succ h.chunk_pos j
    have hstarted := hi.started (j + 1) hj
    rw [sbufAt_succ h ha.snbytes ha.nbytes hprev (sbufAt_eq h ha.snbytes ha.nbytes hprev), u64_of_lt (by omega)]
      at hstarted
    omega

theorem Issued.start_lt (h : StrpRequest p) (ha : BlockAligned p) (hf : StrpFits p) (hj : j < p.strpNobjs)
    (hstart : start p j < p.xferNbytes) {cmds : List StrpCmd} {k : ℕ} (hissued : Issued p j cmds k) {r : ℕ} (hr : r ≤ k) :
    start p (j + r * p.strpNobjs) < p.xferNbytes := by
  induction r with
  | zero => rwa [Nat.zero_mul, Nat.add_zero]
  | succ r ih => exact (goes_iff h ha hf.ends hf.buffer hj (ih (by omega))).1 (hissued.goes r (by omega))

theorem okRun_stripe (h : StrpRequest p) (ha : BlockAligned p) (hf : StrpFits p) (hi : StrpInv p m) (hph : m.phase = .drain)
    (hj : j ∈ m.inFlight) : ∃ t, OkRun p m t ∧ t.phase = .drain ∧ t.inFlight = m.inFlight.erase j := by
  induction hleft : p.xferNbytes - (m.cbArgs j).sbufNbytes using Nat.strong_induction_on generalizing m with
  | _ left ih =>
    have hstep : strpStep p m (.complete j false 0) = some (flaAsyncStrpCb p m j false 0) :=
      if_pos ⟨Or.inr hph, hj, Or.inr rfl⟩
    have hrun := OkRun.single (e := .complete j false 0) ⟨rfl, rfl⟩ hstep
    have hlt := hi.lt hj
    obtain ⟨k, hissued, hargs⟩ := hi.chains j hlt
    have hjn : j < p.strpNobjs := hlt.trans_le hi.le
    have hk := hissued.start_lt h ha hf hjn (hi.start_lt h ha hf hlt) le_rfl
    have hnext := nextSbuf_fits h ha hf.ends hf.buffer hjn hk
    have hpos := cmdNbytes_pos h hk
    have hsbuf := (chain_regular h ha.snbytes ha.nbytes hk).1
    rw [← hargs hj] at hnext hsbuf
    obtain ⟨a, -, ⟨hgoes, -, hcmd, hcb⟩ | ⟨hends, hcb⟩⟩ := cb_cases p m j false 0
    · -- the callback has submitted the next command
      have hflight : (flaAsyncStrpCb p m j false 0).inFlight = m.inFlight := by
        rw [hcb, accept_inFlight, Finset.insert_erase hj]
      have hargs' : ((flaAsyncStrpCb p m j false 0).cbArgs j).toStrpCmd = (m.cbArgs j).next p := by
        rw [hcb, accept_cbArgs_self, hcmd]
      have hsbuf' : ((flaAsyncStrpCb p m j false 0).cbArgs j).sbufNbytes = (m.cbArgs j).nextSbuf p := by
        rw [hargs']
        rfl
      have hph' : (flaAsyncStrpCb p m j false 0).phase = .drain := by rw [hcb]; exact hph
      obtain ⟨t, hrun', ht, hflight'⟩ := ih _ (by rw [hsbuf']; omega) (hrun.inv hi) hph' (hflight ▸ hj) rfl
      exact ⟨t, hrun.trans hrun', ht, by rw [hflight', hflight]⟩
    · exact ⟨_, hrun, by rw [hcb]; exact hph, by rw [hcb]⟩

theorem okRun_quiet (h : StrpRequest p) (ha : BlockAligned p) (hf : StrpFits p) (hi : StrpInv p m) (hph : m.phase = .drain) :
    ∃ t, OkRun p m t ∧ t.phase = .drain ∧ t.inFlight = ∅ := by
  induction hcard : m.inFlight.card generalizing m with
  | zero => exact ⟨m, OkRun.refl p m, hph, Finset.card_eq_zero.1 hcard⟩
  | succ n ih =>
    obtain ⟨j, hj⟩ := Finset.card_pos.1 (by omega : 0 < m.inFlight.card)
    obtain ⟨t, hrun, ht, hflight⟩ := okRun_stripe h ha hf hi hph hj
    obtain ⟨u, hrun', hu, hempty⟩ := ih (hrun.inv hi) ht (by rw [hflight, Finset.card_erase_of_mem hj]; omega)
    exact ⟨u, hrun.trans hrun', hu, hempty⟩

/-- **A transfer can be finished** from every state, if all goes well from then on. -/
theorem okRun_done (h : StrpRequest p) (ha : BlockAligned p) (hf : StrpFits p) (hi : StrpInv p m) :
    ∃ t, OkRun p m t ∧ ∃ err, t.phase = .done err := by
  have hterm : ∀ n : StrpRun, n.phase = .term → ∃ t, OkRun p n t ∧ ∃ err, t.phase = .done err := fun n hn =>
    ⟨_, OkRun.single (e := .termed 0) rfl (if_pos hn), _, rfl⟩
  have hdrain : ∀ n : StrpRun, StrpInv p n → n.phase = .drain → ∃ t, OkRun p n t ∧ ∃ err, t.phase = .done err := by
    intro n hn hph
    obtain ⟨u, hrun, hu, hempty⟩ := okRun_quiet h ha hf hn hph
    have hstep : OkRun p u { u with phase := .term } :=
      OkRun.single (e := .drained 0) le_rfl ((if_pos ⟨hu, Or.inr hempty⟩).trans (by simp))
    obtain ⟨t, hrun', hdone⟩ := hterm { u with phase := .term } rfl
    exact ⟨t, (hrun.trans hstep).trans hrun', hdone⟩
  have hloop : ∀ n : StrpRun, StrpInv p n → n.phase.looping → ∃ t, OkRun p n t ∧ ∃ err, t.phase = .done err := by
    intro n hn hph
    obtain ⟨u, hrun, hu⟩ := okRun_drain hn hph
    obtain ⟨t, hrun', hdone⟩ := hdrain u (hrun.inv hn) hu
    exact ⟨t, hrun.trans hrun', hdone⟩
  cases hph : m.phase with
  | queueInit =>
    have hrun : OkRun p m (m.turn p) :=
      OkRun.single (e := .queueInit 0) rfl ((if_pos hph).trans (congrArg some (if_neg (by simp))))
    have hturn : (m.turn p).phase.looping ∨ (m.turn p).phase = .drain := by
      unfold StrpRun.turn
      dsimp only
      split_ifs
      · exact Or.inl trivial
      · exact Or.inr rfl
    obtain ⟨t, hrun', hdone⟩ := hturn.elim (hloop _ (hrun.inv hi)) (hdrain _ (hrun.inv hi))
    exact ⟨t, hrun.trans hrun', hdone⟩
  | loop => exact hloop m hi (by rw [hph]; trivial)
  | submit => exact hloop m hi (by rw [hph]; trivial)
  | poke => exact hloop m hi (by rw [hph]; trivial)
  | drain => exact hdrain m hi hph
  | term => exact hterm m hph
  | done err => exact ⟨m, OkRun.refl p m, err, hph⟩

end Finish

/-! ## What a finished transfer has moved -/

/-- whatever the order in which the commands complete, a transfer in which all goes well moves what is asked for, each block
once, and nothing else, and it can always be finished -/
def MovesExactly (p : StrpParams) : Prop :=
  ∀ evs m, (∀ e ∈ evs, StrpEvent.Ok e) → run (strpStep p) (strpStart p) evs = some m →
    m.moves p ≤ asked p ∧ ((∃ err, m.phase = .done err) → m.moves p = asked p) ∧
      ∃ t, OkRun p m t ∧ ∃ err, t.phase = .done err

section Exact

variable {p : StrpParams} {m m' : StrpRun} {j : ℕ} {evs : List StrpEvent}

theorem sum_map_range {M : Type} [AddCommMonoid M] (f : ℕ → M) (n : ℕ) :
    ((List.range n).map f).sum = ∑ r ∈ Finset.range n, f r := rfl

/-- the call returns after a failed `xnvme_queue_init` or `xnvme_queue_drain`, or after `xnvme_queue_term` -/
theorem step_done {e : StrpEvent} {err : ℤ} (h : strpStep p m e = some m') (hd : m'.phase = .done err) :
    m' = { m with phase := .done err } ∧
      ((∃ ret, e = .queueInit ret ∧ ret ≠ 0 ∧ err = ret) ∨ (∃ ret, e = .drained ret ∧ ret < 0 ∧ err = 1) ∨
        ∃ ret, e = .termed ret ∧ m.phase = .term ∧ err = if ret ≠ 0 then ret else m.summary p.strpNobjs) := by
  unfold strpStep at h
  cases e with
  | queueInit ret =>
    dsimp only at h
    split_ifs at h with hph hret
    · obtain rfl := Option.some.inj h
      cases hd
      exact ⟨rfl, Or.inl ⟨_, rfl, hret, rfl⟩⟩
    · obtain rfl := Option.some.inj h
      unfold StrpRun.turn at hd
      dsimp only at hd
      split_ifs at hd
  | complete j failed ret =>
    dsimp only at h
    split_ifs at h with hcan
    obtain rfl := Option.some.inj h
    have hph : (flaAsyncStrpCb p m j failed ret).phase = m.phase := by
      obtain ⟨a, -, ⟨-, -, -, hrun⟩ | ⟨-, hrun⟩⟩ := cb_cases p m j failed ret
      · rw [hrun]
        rfl
      · rw [hrun]
    rw [hph] at hd
    rcases hcan.1 with hpoke | hdrain
    · exact absurd (hpoke.symm.trans hd) (by simp)
    · exact absurd (hdrain.symm.trans hd) (by simp)
  | submit ret =>
    dsimp only at h
    split_ifs at h with hph hret hbusy
    all_goals obtain rfl := Option.some.inj h
    · unfold StrpRun.proceed StrpRun.turn at hd
      dsimp only at hd
      split_ifs at hd
    · cases hd
    · cases hd
  | drained ret =>
    dsimp only at h
    split_ifs at h with hcan hret
    all_goals
      obtain rfl := Option.some.inj h
      cases hd
    exact ⟨rfl, Or.inr (Or.inl ⟨_, rfl, hret, rfl⟩)⟩
  | termed ret =>
    dsimp only at h
    split_ifs at h with hph hret
    all_goals
      obtain rfl := Option.some.inj h
      cases hd
    · exact ⟨rfl, Or.inr (Or.inr ⟨_, rfl, hph, (if_pos hret).symm⟩)⟩
    · exact ⟨rfl, Or.inr (Or.inr ⟨_, rfl, hph, (if_neg hret).symm⟩)⟩
  | _ =>
    dsimp only at h
    split_ifs at h
    all_goals
      obtain rfl := Option.some.inj h
      cases hd

/-- a transfer in which all goes well returns with the queue empty and no command lost -/
theorem run_done_ok (ha : BlockAligned p) (hok : ∀ e ∈ evs, StrpEvent.Ok e)
    (h : run (strpStep p) (strpStart p) evs = some m) {err : ℤ} (hd : m.phase = .done err) :
    ∃ m₀, StrpInv p m₀ ∧ m₀.phase = .term ∧ ¬ Hole p m₀ ∧ m.issued = m₀.issued := by
  have hstart : (strpStart p).phase = .queueInit :=
    if_neg (by rw [Nat.mod_eq_zero_of_dvd ha.nbytes, Nat.mod_eq_zero_of_dvd ha.snbytes]; simp)
  rcases List.eq_nil_or_concat evs with rfl | ⟨pre, e, rfl⟩
  · obtain rfl := Option.some.inj h
    cases hstart.symm.trans hd
  · obtain ⟨m₀, hpre, hstep⟩ := run_snoc (List.concat_eq_append ▸ h)
    have hlast : e.Ok := hok e (by simp)
    have hno : ¬ ∃ e ∈ pre, e.Lost := fun ⟨e, he, hlost⟩ => (hok e (by simp [he])).not_lost hlost
    obtain ⟨rfl, ⟨ret, rfl, hret, -⟩ | ⟨ret, rfl, hret, -⟩ | ⟨ret, rfl, hph, -⟩⟩ := step_done hstep hd
    · exact absurd hlast hret
    · exact absurd hret (not_lt.2 hlast)
    · refine ⟨m₀, run_strpInv hpre, hph, ?_, rfl⟩
      rw [run_hole hpre fun err => by rw [hph]; simp]
      exact hno

/-- the stripes that the request meets have been started when the loop is over and was not left early -/
theorem StrpInv.all_started (h : StrpRequest p) (ha : BlockAligned p) (hi : StrpInv p m) (hstop : ¬ Stopped p m)
    (hph : m.phase = .term) (hj : j < p.strpNobjs) (hlt : start p j < p.xferNbytes) : j < m.i := by
  by_contra hge
  have hmi : start p m.i < p.xferNbytes :=
    ((start_strictMono h.chunk_pos).monotone (Nat.not_lt.1 hge)).trans_lt hlt
  refine hstop ⟨by rw [hph]; trivial, by omega, ?_⟩
  rw [hi.sbuf, sbufAt_eq h ha.snbytes ha.nbytes hmi]
  exact hmi

/-- the commands of a stripe that is finished: at least those for its chunks, and the stripe's last goes no further -/
theorem StrpInv.finished (h : StrpRequest p) (ha : BlockAligned p) (hi : StrpInv p m) (hhole : ¬ Hole p m)
    (hph : m.phase = .term) (hj : j < p.strpNobjs) (hlt : start p j < p.xferNbytes) :
    ∃ k, Issued p j (m.issued j) k ∧ p.xferNbytes ≤ (chain p j k).nextSbuf p ∧
      strideCount p.strpNobjs j (pieces p) ≤ k + 1 := by
  have hL : 0 < p.xferNbytes := h.lb_pos.trans_le ha.pos
  have hji := hi.all_started h ha (fun hs => hhole (Or.inl hs)) hph hj hlt
  obtain ⟨k, hissued, -⟩ := hi.chains j hji
  have hends : p.xferNbytes ≤ (chain p j k).nextSbuf p := by
    by_contra hgoes
    refine hhole (Or.inr ⟨j, hji, by rw [hi.quiet hph]; exact Finset.notMem_empty j, ?_⟩)
    rw [hissued.length]
    exact Nat.not_le.1 hgoes
  refine ⟨k, hissued, hends, Nat.not_lt.1 fun hmore => ?_⟩
  have hnext := (start_lt_iff h.chunk_pos hL _).2 ((lt_strideCount hj).1 hmore)
  have hsbuf : (chain p j k).nextSbuf p = start p (j + (k + 1) * p.strpNobjs) :=
    (chain_regular h ha.snbytes ha.nbytes hnext).1
  omega

theorem strideCount_of_le (h : StrpRequest p) (ha : BlockAligned p) (hj : j < p.strpNobjs)
    (hge : p.xferNbytes ≤ start p j) : strideCount p.strpNobjs j (pieces p) = 0 := by
  have hL : 0 < p.xferNbytes := h.lb_pos.trans_le ha.pos
  by_contra hne
  have hlt := (start_lt_iff h.chunk_pos hL _).2 ((lt_strideCount hj).1 (Nat.pos_of_ne_zero hne))
  rw [Nat.zero_mul, Nat.add_zero] at hlt
  exact absurd hlt (Nat.not_lt.2 hge)

theorem StrpInv.issued_of_le (h : StrpRequest p) (ha : BlockAligned p) (hf : StrpFits p) (hi : StrpInv p m)
    (hge : p.xferNbytes ≤ start p j) : m.issued j = [] := by
  refine (hi.fresh j (Nat.not_lt.1 fun hlt => ?_)).1
  exact absurd (hi.start_lt h ha hf hlt) (Nat.not_lt.2 hge)

/-- **A finished transfer** has moved what was asked for. -/
theorem StrpInv.moves_eq (h : StrpRequest p) (ha : BlockAligned p) (hf : StrpFits p) (hi : StrpInv p m)
    (hhole : ¬ Hole p m) (hph : m.phase = .term) : m.moves p = asked p := by
  have hL : 0 < p.xferNbytes := h.lb_pos.trans_le ha.pos
  rw [← sum_pieces h ha hf.ends fun j hj hlt => (firstCmd_slba_iff h hlt).2 (hf.address j hj hlt)]
  refine Finset.sum_congr rfl fun j hj => ?_
  have hj := Finset.mem_range.1 hj
  by_cases hlt : start p j < p.xferNbytes
  · obtain ⟨k, hissued, hends, hle⟩ := hi.finished h ha hhole hph hj hlt
    have hrows : strideCount p.strpNobjs j (pieces p) = k + 1 := by
      refine le_antisymm hle (Nat.succ_le_of_lt ((lt_strideCount hj).2 ?_))
      exact (start_lt_iff h.chunk_pos hL _).1 (hissued.start_lt h ha hf hj hlt le_rfl)
    rw [hissued.cmds, hrows, List.map_map]
    exact sum_map_range _ _
  · rw [hi.issued_of_le h ha hf (Nat.not_lt.1 hlt), strideCount_of_le h ha hj (Nat.not_lt.1 hlt)]
    rfl

theorem StrpCmd.first_mem (p : StrpParams) (c : StrpCmd) : (c.sbufNbytes, u64 c.slba) ∈ c.moves p :=
  Multiset.mem_map.2 ⟨0, Multiset.mem_range.2 (Nat.succ_pos _), by simp⟩

theorem StrpCmd.last_mem (p : StrpParams) (c : StrpCmd) :
    (c.sbufNbytes + c.nlbs * p.devLbaNbytes, u64 (c.slba + c.nlbs)) ∈ c.moves p :=
  Multiset.mem_map.2 ⟨c.nlbs, Multiset.mem_range.2 (Nat.lt_succ_self _), rfl⟩

theorem StrpCmd.moves_pos (p : StrpParams) (c : StrpCmd) : 0 < c.moves p := by
  refine pos_iff_ne_zero.2 fun hzero => ?_
  have hmem := c.first_mem p
  rw [hzero] at hmem
  exact Multiset.notMem_zero _ hmem

theorem mem_moves {c : StrpCmd} (hj : j < p.strpNobjs) (hc : c ∈ m.issued j) {x : ℕ × ℕ} (hx : x ∈ c.moves p) :
    x ∈ m.moves p := by
  have hone : c.moves p ≤ ((m.issued j).map (StrpCmd.moves p)).sum :=
    List.single_le_sum (fun _ _ => Multiset.zero_le _) _ (List.mem_map_of_mem hc)
  have hall : ((m.issued j).map (StrpCmd.moves p)).sum ≤ m.moves p :=
    Finset.single_le_sum (f := fun j => ((m.issued j).map (StrpCmd.moves p)).sum) (fun _ _ => Multiset.zero_le _)
      (Finset.mem_range.2 hj)
  exact Multiset.mem_of_le (hone.trans hall) hx

theorem StrpInv.first_issued (h : StrpRequest p) (ha : BlockAligned p) (hi : StrpInv p m) (hhole : ¬ Hole p m)
    (hph : m.phase = .term) (hj : j < p.strpNobjs) (hlt : start p j < p.xferNbytes) :
    firstCmd p (start p j) ∈ m.issued j := by
  obtain ⟨k, hissued, -⟩ := hi.finished h ha hhole hph hj hlt
  rw [hissued.cmds]
  refine List.mem_map.2 ⟨0, List.mem_range.2 (Nat.succ_pos _), ?_⟩
  rw [chain, sbufAt_eq h ha.snbytes ha.nbytes hlt]

/-- what a finished transfer that was exact tells of its first row -/
theorem first_row_of_moves (h : StrpRequest p) (ha : BlockAligned p) (hi : StrpInv p m) (hhole : ¬ Hole p m)
    (hph : m.phase = .term) (hmoves : m.moves p = asked p) : ¬ Overruns p ∧ ∀ j < p.strpNobjs,
      start p j < p.xferNbytes → (firstCmd p (start p j)).slba = layoutLba p (p.xferSnbytes + start p j) := by
  have hlb := h.lb_pos
  refine ⟨fun hover => ?_, fun j hj hlt => ?_⟩
  · -- the last block of the command is behind the request
    obtain ⟨j, hj, hlt, hmore⟩ := start_end h.chunk_pos hover
    have hmem := mem_moves hj (hi.first_issued h ha hhole hph hj hlt) (StrpCmd.last_mem p _)
    rw [hmoves] at hmem
    obtain ⟨b, hb, hplace⟩ := Multiset.mem_map.1 hmem
    have hplace : b * p.devLbaNbytes = start p j + (firstCmd p (start p j)).nlbs * p.devLbaNbytes :=
      (Prod.mk.inj hplace).1
    have hbytes := firstCmd_nbytes h ha.snbytes ha.nbytes hlt
    have hbL := Nat.mul_le_mul_right p.devLbaNbytes (Nat.succ_le_of_lt (Multiset.mem_range.1 hb))
    rw [Nat.div_mul_cancel ha.nbytes, Nat.succ_mul] at hbL
    rw [Nat.succ_mul] at hbytes
    omega
  · have hmem := mem_moves hj (hi.first_issued h ha hhole hph hj hlt) (StrpCmd.first_mem p _)
    rw [hmoves] at hmem
    obtain ⟨b, -, hplace⟩ := Multiset.mem_map.1 hmem
    obtain ⟨hsbuf, hslba⟩ := Prod.mk.inj hplace
    rw [firstCmd_sbufNbytes] at hsbuf
    have hword : u64 (firstCmd p (start p j)).slba = (firstCmd p (start p j)).slba := u64_of_lt (u64_lt _)
    rw [← hword, ← hslba, hsbuf]

/-- … and of its last command -/
theorem buffer_of_moves (h : StrpRequest p) (ha : BlockAligned p) (hi : StrpInv p m) (hhole : ¬ Hole p m)
    (hph : m.phase = .term) (hmoves : m.moves p = asked p) :
    p.xferNbytes + p.strpChunkNbytes * (p.strpNobjs - 1) < 2 ^ 64 := by
  obtain ⟨hover, hfirst⟩ := first_row_of_moves h ha hi hhole hph hmoves
  have hL : 0 < p.xferNbytes := h.lb_pos.trans_le ha.pos
  by_contra hwrap
  -- the pieces are all there, and the last stripe goes on
  have hrows : ∀ j < p.strpNobjs, ∑ r ∈ Finset.range (strideCount p.strpNobjs j (pieces p)), (chain p j r).moves p ≤
      ((m.issued j).map (StrpCmd.moves p)).sum := fun j hj => by
    by_cases hlt : start p j < p.xferNbytes
    · obtain ⟨k, hissued, -, hle⟩ := hi.finished h ha hhole hph hj hlt
      rw [hissued.cmds, List.map_map, sum_map_range]
      exact Finset.sum_le_sum_of_subset (Finset.range_subset_range.2 hle)
    · rw [strideCount_of_le h ha hj (Nat.not_lt.1 hlt), Finset.range_zero, Finset.sum_empty]
      exact Multiset.zero_le _
  obtain ⟨q, hq⟩ : ∃ q, pieces p = q + 1 :=
    Nat.exists_eq_succ_of_ne_zero (Nat.ne_of_gt ((start_lt_iff h.chunk_pos hL 0).1 (start_zero.symm ▸ hL)))
  have hmod := Nat.mod_lt q h.nobjs_pos
  have hdiv : q % p.strpNobjs + q / p.strpNobjs * p.strpNobjs = q := by rw [Nat.mul_comm, Nat.mod_add_div]
  have hin : start p q < p.xferNbytes := (start_lt_iff h.chunk_pos hL q).2 (by omega)
  have hout : ¬ start p (q + 1) < p.xferNbytes := (start_lt_iff h.chunk_pos hL (q + 1)).not.2 (by omega)
  have hin0 : start p (q % p.strpNobjs) < p.xferNbytes :=
    ((start_strictMono h.chunk_pos).monotone (Nat.mod_le _ _)).trans_lt hin
  obtain ⟨k, hissued, hends, hle⟩ := hi.finished h ha hhole hph hmod hin0
  have hlast : q / p.strpNobjs < strideCount p.strpNobjs (q % p.strpNobjs) (pieces p) :=
    (lt_strideCount hmod).2 (by omega)
  have hnext : (chain p (q % p.strpNobjs) (q / p.strpNobjs)).nextSbuf p < p.xferNbytes := by
    have hinside := h.inside
    have htotal := h.total_lt
    have hchunk := h.chunk_lt
    have hsub := Nat.mul_le_mul_left p.strpChunkNbytes (Nat.sub_le p.strpNobjs 1)
    have hstep := start_succ h.chunk_pos q
    obtain ⟨hsbuf, hbytes⟩ := chain_regular h ha.snbytes ha.nbytes (show start p _ < _ from hdiv.symm ▸ hin)
    have hpiece := cmdNbytes_piece h hover hmod (show start p _ < _ from hdiv.symm ▸ hin)
    rw [nextSbuf_eq h.shape hsbuf hbytes (cmdNbytes_le p _ _), hpiece, hdiv, u64]
    omega
  have hextra : strideCount p.strpNobjs (q % p.strpNobjs) (pieces p) < k + 1 := by
    refine lt_of_le_of_ne hle fun hrows => ?_
    have hk := (lt_strideCount hmod).1 (show k < strideCount p.strpNobjs (q % p.strpNobjs) (pieces p) by omega)
    have hkq : k * p.strpNobjs ≤ q / p.strpNobjs * p.strpNobjs := by omega
    have hkle := Nat.le_of_mul_le_mul_right hkq h.nobjs_pos
    have hkeq : k = q / p.strpNobjs := by omega
    rw [hkeq] at hends
    omega
  have hmore : ∑ j ∈ Finset.range p.strpNobjs, ∑ r ∈ Finset.range (strideCount p.strpNobjs j (pieces p)),
      (chain p j r).moves p < m.moves p := by
    refine Finset.sum_lt_sum (fun j hj => hrows j (Finset.mem_range.1 hj))
      ⟨q % p.strpNobjs, Finset.mem_range.2 hmod, ?_⟩
    rw [hissued.cmds, List.map_map, sum_map_range]
    refine Finset.sum_lt_sum_of_subset (Finset.range_subset_range.2 hle) (Finset.mem_range.2 hextra)
      Finset.notMem_range_self ?_ fun _ _ _ => Multiset.zero_le _
    exact StrpCmd.moves_pos p _
  rw [sum_pieces h ha hover hfirst, hmoves] at hmore
  exact lt_irrefl _ hmore

/-- **Exact transfers.** A striped transfer in which every command succeeds moves exactly what it is asked for if and only
if the request does not end inside a chunk of the first row (other than the one it begins in), no offset in the buffer
leaves 64 bits, and the first addresses are those of the layout. -/
theorem striped_exact_iff (h : StrpRequest p) (ha : BlockAligned p) : MovesExactly p ↔ StrpFits p := by
  constructor
  · intro hexact
    obtain ⟨-, -, t, ⟨evs, hok, hrun⟩, err, hd⟩ := hexact [] (strpStart p) (by simp) rfl
    have hmoves := (hexact evs t hok hrun).2.1 ⟨err, hd⟩
    obtain ⟨m₀, hi, hph, hhole, hissued⟩ := run_done_ok ha hok hrun hd
    have hmoves₀ : m₀.moves p = asked p := by rw [← hmoves, StrpRun.moves, StrpRun.moves, hissued]
    obtain ⟨hends, hfirst⟩ := first_row_of_moves h ha hi hhole hph hmoves₀
    exact ⟨hends, buffer_of_moves h ha hi hhole hph hmoves₀,
      fun j hj hlt => (firstCmd_slba_iff h hlt).1 (hfirst j hj hlt)⟩
  · intro hf
    have hdone : ∀ evs m, (∀ e ∈ evs, StrpEvent.Ok e) → run (strpStep p) (strpStart p) evs = some m →
        (∃ err, m.phase = .done err) → m.moves p = asked p := by
      rintro evs m hok hrun ⟨err, hd⟩
      obtain ⟨m₀, hi, hph, hhole, hissued⟩ := run_done_ok ha hok hrun hd
      rw [← hi.moves_eq h ha hf hhole hph, StrpRun.moves, StrpRun.moves, hissued]
    intro evs m hok hrun
    obtain ⟨t, ⟨evs', hok', hrun'⟩, hd⟩ := okRun_done h ha hf (run_strpInv hrun)
    refine ⟨?_, hdone evs m hok hrun, t, ⟨evs', hok', hrun'⟩, hd⟩
    have hboth : run (strpStep p) (strpStart p) (evs ++ evs') = some t := by
      rw [run_append, hrun]
      exact hrun'
    rw [← hdone (evs ++ evs') t (fun e he => (List.mem_append.1 he).elim (hok e) (hok' e)) hboth hd]
    exact run_moves hrun'

end Exact

/-- a request of `nbytes` bytes for a striped object of two objects of four blocks, with chunks of two blocks -/
def twoStripes (nbytes : ℕ) : StrpParams := ⟨2, 1024, 4, 0, nbytes, 4096, 0, 512, true⟩

theorem twoStripes_striped {nbytes : ℕ} (h : nbytes ≤ 4096) : StrpRequest (twoStripes nbytes) where
  nobjs_pos := by norm_num [twoStripes]
  nobjs_le := by norm_num [twoStripes]
  lb_pos := by norm_num [twoStripes]
  chunk_pos := by norm_num [twoStripes]
  chunk_blocks := by norm_num [twoStripes]
  chunk_obj := by norm_num [twoStripes]
  chunk_lt := by norm_num [twoStripes]
  chunk_le := by norm_num [twoStripes]
  total := by norm_num [twoStripes]
  total_lt := by norm_num [twoStripes]
  inside := by simpa [twoStripes] using h

/-- two chunks -/
theorem striped_exact_iff_small : (MovesExactly (twoStripes 2048) ↔ StrpFits (twoStripes 2048)) ∧
    StrpFits (twoStripes 2048) :=
  ⟨striped_exact_iff (twoStripes_striped (by decide)) ⟨by decide, by decide, by decide⟩,
    by decide, by decide, by decide⟩

/-- a transfer over two stripes in which all goes well, with the second stripe first -/
def goodRun : List StrpEvent :=
  [.queueInit 0, .prepare true 0, .submit 0, .prepare true 0, .submit 0, .complete 1 false 0, .complete 0 false 0,
    .drained 2, .termed 0]

/-- **A chunk and a half.** The second command is for a whole chunk, and moves a block behind the caller's buffer. -/
theorem striped_overrun : StrpRequest (twoStripes 1536) ∧ BlockAligned (twoStripes 1536) ∧ (∀ e ∈ goodRun, e.Ok) ∧
    (∃ m, run (strpStep (twoStripes 1536)) (strpStart (twoStripes 1536)) goodRun = some m ∧ m.phase = .done 0 ∧
      (1536, 5) ∈ m.moves (twoStripes 1536) ∧ (1536, 5) ∉ asked (twoStripes 1536)) ∧
    ¬ MovesExactly (twoStripes 1536) := by
  have hok : ∀ e ∈ goodRun, StrpEvent.Ok e := by decide
  obtain ⟨m, hrun, hval⟩ := Option.map_eq_some_iff.1 (show (run (strpStep (twoStripes 1536))
    (strpStart (twoStripes 1536)) goodRun).map (fun m => decide (m.phase = .done 0 ∧
      (1536, 5) ∈ m.moves (twoStripes 1536))) = some true by decide +kernel)
  rw [decide_eq_true_eq] at hval
  have hnot : (1536, 5) ∉ asked (twoStripes 1536) := by decide +kernel
  refine ⟨twoStripes_striped (by decide), ⟨by decide, by decide, by decide⟩, hok, ⟨m, hrun, hval.1, hval.2, hnot⟩,
    fun hexact => ?_⟩
  exact hnot (Multiset.mem_of_le (hexact goodRun m hok hrun).1 hval.2)

end FlexAlloc
