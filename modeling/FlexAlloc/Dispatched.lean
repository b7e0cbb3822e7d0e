/-
What clients see of the file system through the daemon, as far as they work on objects.

Five calls lose nothing on their way: to create, open and destroy an object, to destroy a pool, and to set a root object.
Their requests carry all the arguments, and their replies what the base function returned. Of these only a pool destroy can
go missing: its handler needs memory for a copy of the handle, and without it leaves before there is a reply.

- `Dispatched`: the requests were carried out one after another in the order of the daemon's turns, each exactly once, and
  each client was told exactly what the base functions returned for its own.
- `clients_dispatched_iff`: so it is in every run, if and only if no pool destroy is without memory for its handle; and no
  two clients that destroy only what they hold have the same object. `destroy_dropped`: a pool destroy without memory.
-/
import FlexAlloc.Exclusive

namespace FlexAlloc

open FlexAlloc.Core Function

/-! ## Requests in the order of dispatch -/

/-- the calls whose request and reply carry everything -/
def Call.Exact : Call → Prop
  | .objectCreate _ | .objectOpen _ _ | .objectDestroy _ _ | .poolDestroy _ | .poolSetRootObject _ _ _ => True
  | _ => False

variable {ι : Type}

/-- clients make such calls only, or close -/
def Event.Exact : Event ι → Prop
  | .ask _ _ call => call.Exact
  | _ => True

/-- a request that was dispatched: for whom, in what environment, its call, and what the base function returned -/
structure Dispatch (ι : Type) where
  client : ι
  env : Env
  call : Call
  res : Res

/-- **The requests are dispatched** one after another, each exactly once, and their clients are told the results. -/
structure Dispatched [DecidableEq ι] (fs : Flexalloc) (es : List (Event ι)) (n : Net ι) (log : List (Dispatch ι)) :
    Prop where
  /-- in the order of the daemon's turns -/
  turns : log.map (fun t => (t.client, t.env)) = es.filterMap Event.turnOf
  /-- the file system is what the base functions make of it, called one after another -/
  runs : runCalls fs (log.map fun t => (t.env, t.call)) = .ok (log.map (·.res), n.daemon.fs)
  /-- each request of a client once, in the order in which it made them, but the one that is still to be dispatched -/
  asked : ∀ i, es.filterMap (Event.askedBy i) = (log.filter (·.client = i)).map (·.call) ++ n.pending i
  /-- a client is told what its own calls returned; to close is to sync, without a reply -/
  told : ∀ i, n.told i = (log.filter fun t => t.client = i ∧ t.call ≠ .sync).map fun t => (t.call, t.res)

/-- there is memory for the handle of a pool to be destroyed -/
def DestroyHasMemory (n : Net ι) : Event ι → Prop
  | .turn i env _ => (n.client i).phase.destroysPool → env.malloc
  | _ => True

instance (n : Net ι) : (e : Event ι) → Decidable (DestroyHasMemory n e)
  | .turn i env _ => inferInstanceAs (Decidable ((n.client i).phase.destroysPool → env.malloc))
  | .ask _ _ _ | .close _ | .deliver _ => isTrue trivial

/-! ## The turns of a serial order -/

theorem Call.Exact.becomes {call made : Call} (h : call.Exact) (hb : call.Becomes made) : made = call := by
  cases call with
  | poolCreate arg => exact absurd h id
  | _ => exact hb

theorem Call.Exact.told {call : Call} (h : call.Exact) {res value : Res} (ht : Told call res value) : value = res := by
  cases call with
  | sync => exact absurd h id
  | poolGetRootObject pool => exact absurd h id
  | _ => exact ht

theorem Call.Exact.ne_sync {call : Call} (h : call.Exact) : call ≠ .sync := by
  rintro rfl
  exact h

/-- a turn for one of the calls, or for a client that has closed -/
structure Turn.Sound (t : Turn ι) : Prop where
  call : t.asked.Exact ∨ t.asked = .sync
  answered : t.answered = true ↔ t.made ≠ none ∧ t.asked ≠ .sync

def Turn.dispatch (t : Turn ι) : Dispatch ι := ⟨t.client, t.env, t.asked, (t.made.map (·.2)).getD .done⟩

theorem Turn.Sound.made {t : Turn ι} (h : t.Sound) (hhonest : t.Honest) (hm : t.made ≠ none) :
    t.made = some (t.asked, t.dispatch.res) := by
  obtain ⟨⟨made, res⟩, hmade⟩ := Option.ne_none_iff_exists'.1 hm
  unfold Turn.Honest at hhonest
  rw [hmade] at hhonest
  have hcall : made = t.asked := by
    rcases h.call with hexact | hsync
    · exact hexact.becomes hhonest
    · rw [hsync] at hhonest ⊢
      exact hhonest
  unfold Turn.dispatch
  rw [hmade, hcall]
  rfl

/-- what its client is told of a turn is what the base function returned -/
theorem Turn.Sound.toldAs {t : Turn ι} (h : t.Sound) (hhonest : t.Honest) (ha : t.answered = true) {v : Call × Res}
    (hv : t.ToldAs v) : v = (t.dispatch.call, t.dispatch.res) := by
  obtain ⟨hm, hne⟩ := h.answered.1 ha
  obtain ⟨hasked, made, res, hmade, htold⟩ := hv
  have hexact : t.asked.Exact := h.call.resolve_right hne
  rw [h.made hhonest hm] at hmade
  obtain ⟨rfl, rfl⟩ := Prod.mk.inj (Option.some.inj hmade)
  exact Prod.ext hasked (hexact.told htold)

theorem forall₂_eq_map {α β : Type} {R : α → β → Prop} {f : α → β} {l : List α} {l' : List β} (h : List.Forall₂ R l l')
    (hf : ∀ a ∈ l, ∀ b, R a b → b = f a) : l' = l.map f := by
  induction h with
  | nil => rfl
  | cons hab _ ih =>
    rw [List.map_cons, hf _ List.mem_cons_self _ hab, ih fun a ha => hf a (List.mem_cons_of_mem _ ha)]

section Log

variable [DecidableEq ι] {fs : Flexalloc} {es : List (Event ι)} {n : Net ι} {log : List (Turn ι)}

/-- **Nothing is lost**: a serial order in which every base function was called. -/
theorem Serial.dispatched (h : Serial fs es n log) (hs : ∀ t ∈ log, t.Sound) (hm : ∀ t ∈ log, t.made ≠ none) :
    Dispatched fs es n (log.map Turn.dispatch) := by
  have hmade : ∀ t ∈ log, t.made = some (t.asked, t.dispatch.res) := fun t ht => (hs t ht).made (h.honest t ht) (hm t ht)
  have hperformed : log.filterMap Turn.performed = (log.map Turn.dispatch).map fun t => (t.env, t.call) := by
    rw [List.map_map, ← List.filterMap_eq_map]
    refine List.filterMap_congr fun t ht => ?_
    rw [Turn.performed, hmade t ht]
    rfl
  have hresult : log.filterMap Turn.result = (log.map Turn.dispatch).map (·.res) := by
    rw [List.map_map, ← List.filterMap_eq_map]
    refine List.filterMap_congr fun t ht => ?_
    rw [Turn.result, hmade t ht]
    rfl
  constructor
  · rw [List.map_map]
    exact h.turns
  · rw [← hperformed, ← hresult]
    exact h.runs
  · intro i
    rw [h.asked i, List.filter_map, List.map_map]
    rfl
  · intro i
    have hanswered : (log.filter fun t => t.client = i ∧ t.answered) =
        log.filter ((fun t : Dispatch ι => decide (t.client = i ∧ t.call ≠ .sync)) ∘ Turn.dispatch) := by
      refine List.filter_congr fun t ht => ?_
      rw [decide_eq_decide.2 (and_congr_right' (((hs t ht).answered.trans (and_iff_right (hm t ht)))))]
      rfl
    rw [List.filter_map, List.map_map, ← hanswered]
    refine forall₂_eq_map (h.told i) fun t ht v hv => ?_
    obtain ⟨hmem, hp⟩ := List.mem_filter.1 ht
    exact (hs t hmem).toldAs (h.honest t hmem) (of_decide_eq_true hp).2 hv

/-- **And only then**: as many calls of a client were answered as were dispatched. -/
theorem Serial.lossless (h : Serial fs es n log) (hs : ∀ t ∈ log, t.Sound) {log₂ : List (Dispatch ι)}
    (hd : Dispatched fs es n log₂) : ∀ t ∈ log, t.made ≠ none := by
  intro t ht hnone
  have hcalls : (log.filter (·.client = t.client)).map (·.asked) = (log₂.filter (·.client = t.client)).map (·.call) :=
    List.append_cancel_right ((h.asked t.client).symm.trans (hd.asked t.client))
  have hanswered : (log.filter fun u => u.client = t.client ∧ u.answered).length =
      (log₂.filter fun u => u.client = t.client ∧ u.call ≠ .sync).length := by
    rw [(h.told t.client).length_eq, hd.told t.client, List.length_map]
  have hasked : (log.filter fun u => u.client = t.client ∧ u.asked ≠ .sync).length =
      (log₂.filter fun u => u.client = t.client ∧ u.call ≠ .sync).length := by
    have hcount := congrArg (List.countP fun c => decide (c ≠ Call.sync)) hcalls
    rw [List.countP_map, List.countP_map, List.countP_filter, List.countP_filter] at hcount
    rw [← List.countP_eq_length_filter, ← List.countP_eq_length_filter]
    simpa [Bool.and_comm, Function.comp_def] using hcount
  have hboth : (log.filter fun u => u.client = t.client ∧ u.answered) =
      (log.filter fun u => u.client = t.client ∧ u.asked ≠ .sync).filter (·.answered) := by
    rw [List.filter_filter]
    refine List.filter_congr fun u hu => ?_
    by_cases ha : u.answered = true
    · simp [ha, ((hs u hu).answered.1 ha).2]
    · simp [ha]
  rw [hboth] at hanswered
  have hall := List.filter_sublist.eq_of_length (hanswered.trans hasked.symm)
  have hdestroy : t.asked ≠ .sync := by
    have hhonest := h.honest t ht
    unfold Turn.Honest at hhonest
    rw [hnone] at hhonest
    obtain ⟨-, -, handle, hasked⟩ := hhonest
    rw [hasked]
    nofun
  have hmem : t ∈ (log.filter fun u => u.client = t.client ∧ u.asked ≠ .sync).filter (·.answered) := by
    rw [hall]
    exact List.mem_filter.2 ⟨ht, decide_eq_true ⟨rfl, hdestroy⟩⟩
  exact ((hs t ht).answered.1 (List.mem_filter.1 hmem).2).1 hnone

end Log

/-! ## Runs -/

section Runs

variable {n n' : Net ι} {e : Event ι} {t : Turn ι}

/-- every call that a client waits for is one of the five -/
def Net.Exact (n : Net ι) : Prop := ∀ i call, (n.client i).phase = .waiting call → call.Exact

theorem Turn.At.sound (h : t.At n e) (hn : n.Exact) : t.Sound := by
  have hasked := h.asked
  have hanswered := h.answered
  cases hphase : (n.client t.client).phase with
  | idle =>
    rw [hphase] at hasked
    cases hasked
  | waiting call =>
    rw [hphase] at hasked hanswered
    obtain rfl : call = t.asked := (List.cons.inj hasked).1
    have hexact : t.asked.Exact := hn _ _ hphase
    exact ⟨.inl hexact, hanswered.trans (and_congr_right' (iff_of_true nofun hexact.ne_sync))⟩
  | closed =>
    rw [hphase] at hasked hanswered
    have hsync : t.asked = .sync := (List.cons.inj hasked).1.symm
    exact ⟨.inr hsync, hanswered.trans (and_congr_right' (iff_of_false (fun h => h rfl) fun h => h hsync))⟩

theorem Turn.At.memory (h : t.At n e) : DestroyHasMemory n e ↔ t.made ≠ none := by
  obtain ⟨mem, rfl⟩ := h.event
  have hdestroys : (n.client t.client).phase.destroysPool = true ↔ ∃ handle, t.asked = .poolDestroy handle := by
    have hasked := h.asked
    cases hphase : (n.client t.client).phase with
    | idle =>
      rw [hphase] at hasked
      cases hasked
    | waiting call =>
      rw [hphase] at hasked
      obtain rfl : call = t.asked := (List.cons.inj hasked).1
      unfold Phase.destroysPool
      split
      · rename_i handle hcall
        exact iff_of_true rfl ⟨handle, Phase.waiting.inj hcall⟩
      · rename_i hcall
        exact iff_of_false nofun fun ⟨handle, hdestroy⟩ => hcall handle (congrArg Phase.waiting hdestroy)
    | closed =>
      rw [hphase] at hasked
      have hsync : t.asked = .sync := (List.cons.inj hasked).1.symm
      refine iff_of_false nofun fun ⟨handle, hdestroy⟩ => ?_
      rw [hsync] at hdestroy
      cases hdestroy
  rw [ne_eq, h.lost, ← hdestroys]
  exact ⟨fun h hl => hl.2 (h hl.1), fun h hd => by_contra fun hm => h ⟨hd, hm⟩⟩

variable [DecidableEq ι]

theorem Net.Exact.step (h : n.Exact) (he : e.Exact) (hstep : netStep n e = some n') : n'.Exact := by
  rcases netStep_cases hstep with ⟨i, pad, call, rfl, -, rfl⟩ | ⟨i, rfl, -, rfl⟩ | ⟨i, env, mem, msg, reply, d, rfl, -, -, rfl⟩ |
    ⟨i, reply, call, rfl, -, -, rfl⟩
  · intro j call' hj
    by_cases hji : j = i
    · subst hji
      simp only [Net.post, update_self, Phase.waiting.injEq] at hj
      exact hj ▸ he
    · simp only [Net.post, update_of_ne hji] at hj
      exact h j call' hj
  · intro j call' hj
    by_cases hji : j = i
    · subst hji
      simp [Net.post] at hj
    · simp only [Net.post, update_of_ne hji] at hj
      exact h j call' hj
  · exact h
  · intro j call' hj
    by_cases hji : j = i
    · subst hji
      simp [Net.receive] at hj
    · simp only [Net.receive, update_of_ne hji] at hj
      exact h j call' hj

/-- **The log of a run**: nothing is lost from it exactly when there was memory for every handle. -/
theorem run_logged (hn : n.Quiet) {es : List (Event ι)} (hes : ∀ e ∈ es, e.Fits ∧ e.Exact) (h : run netStep n es = some n') :
    ∃ log : List (Turn ι), Serial n.daemon.fs es n' log ∧ (∀ t ∈ log, t.Sound) ∧
      (along DestroyHasMemory netStep n es ↔ ∀ t ∈ log, t.made ≠ none) := by
  have hrun := run_history (P := fun es s => (∀ e ∈ es, e.Fits ∧ e.Exact) → run netStep n es = some s ∧ Wired s ∧ s.Exact ∧
      ∃ log : List (Turn ι), Serial n.daemon.fs es s log ∧ (∀ t ∈ log, t.Sound) ∧
        (along DestroyHasMemory netStep n es ↔ ∀ t ∈ log, t.made ≠ none)) ?_ ?_ h
  · exact (hrun hes).2.2.2
  · intro pre s e s' hP hstep hok
    obtain ⟨hpre, hw, hexact, log, hlog, hsound, hmem⟩ := hP fun e he => hok e (List.mem_append_left _ he)
    obtain ⟨hfits, he⟩ := hok e (List.mem_append_right _ List.mem_cons_self)
    have halong := along_snoc (P := DestroyHasMemory) hpre e
    obtain ⟨hw', ⟨hother, hlog'⟩ | ⟨t, hat, hlog'⟩⟩ := hlog.step hw hfits hstep
    · refine ⟨run_concat hpre hstep, hw', hexact.step he hstep, log, hlog', hsound, halong.trans ?_⟩
      rw [hmem]
      refine and_iff_left ?_
      cases e with
      | turn i env mem => cases hother
      | _ => trivial
    · refine ⟨run_concat hpre hstep, hw', hexact.step he hstep, log ++ [t], hlog', ?_, halong.trans ?_⟩
      · intro u hu
        rcases List.mem_append.1 hu with hu | hu
        · exact hsound u hu
        · rw [List.mem_singleton.1 hu]
          exact hat.sound hexact
      · rw [hmem, hat.memory, List.forall_mem_append, List.forall_mem_singleton]
  · intro _
    refine ⟨rfl, hn.wired, fun i call hphase => ?_, [], hn.serial, by simp, iff_of_true trivial (by simp)⟩
    rw [(hn i).1] at hphase
    cases hphase

/-- **Clients see the base functions.** For any number of clients, any buffers and any file system, in every run of the five
calls with arguments that fit: the requests are carried out one after another in the order of the daemon's turns, each exactly
once, and each client is told exactly the results of its own, if and only if there is memory for the handle whenever a pool is
to be destroyed. And on a system that was formatted, however it was used before: when clients destroy only what they hold,
and a pool only when nobody holds anything, no two clients hold the same object. -/
theorem clients_dispatched_iff (hn : n.Quiet) {es : List (Event ι)} (hes : ∀ e ∈ es, e.Fits ∧ e.Exact)
    (h : run netStep n es = some n') :
    ((∃ log, Dispatched n.daemon.fs es n' log) ↔ along DestroyHasMemory netStep n es) ∧
      ∀ {dev mdDev : Dev} {hasMd : Bool} {npools slabNlb : ℕ} {geo : Geo} {fs₀ : Flexalloc} {calls : List (Env × BaseOp)},
        Mounted dev mdDev hasMd npools slabNlb geo fs₀ → run baseStep fs₀ calls = some n.daemon.fs →
        (∀ e ∈ es, e.IntReads) → along CarefulClient netStep n es →
        (∀ i, (holds (n'.told i)).Nodup) ∧ ∀ i j, i ≠ j → (holds (n'.told i)).Disjoint (holds (n'.told j)) := by
  obtain ⟨log, hlog, hsound, hmem⟩ := run_logged hn hes h
  constructor
  · rw [hmem]
    exact ⟨fun ⟨_, hd⟩ => hlog.lossless hsound hd, fun hm => ⟨_, hlog.dispatched hsound hm⟩⟩
  · intro dev mdDev hasMd npools slabNlb geo fs₀ calls hm hcalls hreads hcareful
    have hplain : NoStripes n.daemon.fs := run_inv (fun _ _ _ hn hs => baseStep_noStripes hn hs) hm.noStripes hcalls
    have hend := run_exclusive hn hplain (fun e he => ⟨(hes e he).1, hreads e he⟩) hcareful h
    exact ⟨hend.nodup, hend.apart⟩

end Runs

theorem twoClients_fs {n : Net (Fin 2)} (h : twoClients = some n) :
    run baseStep (flaMkfs smallDev smallGeo 0) [(.reliable, .call (.poolCreate (smallArg 97 1)))] = some n.daemon.fs := by
  obtain ⟨d, hd, rfl⟩ := Option.map_eq_some_iff.1 h
  obtain ⟨r, hr, rfl⟩ := Option.map_eq_some_iff.1 hd
  have hstep : baseStep (flaMkfs smallDev smallGeo 0) (.reliable, .call (.poolCreate (smallArg 97 1))) = some r.2 :=
    congrArg (Option.map fun r : Res × Flexalloc => r.2) hr
  rw [run, hstep]
  rfl

/-- Two clients make an object each, and one of them destroys its own again. -/
theorem clients_dispatched_two : ∃ n n' : Net (Fin 2), twoClients = some n ∧ run netStep n twoThenDestroy = some n' ∧
    (∃ log, Dispatched n.daemon.fs twoThenDestroy n' log) ∧ holds (n'.told 0) = [] ∧ holds (n'.told 1) = [⟨0, 0⟩] ∧
    (∀ i, (holds (n'.told i)).Nodup) ∧ ∀ i j, i ≠ j → (holds (n'.told i)).Disjoint (holds (n'.told j)) := by
  obtain ⟨n, hn, hval⟩ := Option.map_eq_some_iff.1 (show twoClients.map (fun n =>
    ((run netStep n twoThenDestroy).map fun n' => (holds (n'.told 0), holds (n'.told 1)),
      decide (along CarefulClient netStep n twoThenDestroy), decide (along DestroyHasMemory netStep n twoThenDestroy))) =
    some (some ([], [⟨0, 0⟩]), true, true) by decide +kernel)
  obtain ⟨hrun, hdecide⟩ := Prod.mk.inj hval
  obtain ⟨hcareful, hmem⟩ := Prod.mk.inj hdecide
  obtain ⟨n', hn', hheld⟩ := Option.map_eq_some_iff.1 hrun
  obtain ⟨h0, h1⟩ := Prod.mk.inj hheld
  have hes : ∀ e ∈ twoThenDestroy, e.Fits ∧ e.Exact := by
    simp [twoThenDestroy, twoCreates, Event.Fits, Event.Exact, Call.Exact, Call.Fits, PoolHandle.Fits, Obj.Fits]
  have hreads : ∀ e ∈ twoThenDestroy, e.IntReads := by
    simp [twoThenDestroy, twoCreates, Event.IntReads, Env.IntReads, IsInt, Env.reliable]
  obtain ⟨hiff, hexclusive⟩ := clients_dispatched_iff (twoClients_quiet hn) hes hn'
  exact ⟨n, n', hn, hn', hiff.2 (of_decide_eq_true hmem), h0, h1,
    hexclusive small_mounted (twoClients_fs hn) hreads (of_decide_eq_true hcareful)⟩

/-- a client asks for its pool to be destroyed, and the daemon has no memory -/
def noMemoryDestroy : List (Event (Fin 2)) :=
  [.ask ⟨0, Nat.two_pos⟩ 0 (.poolDestroy ⟨97, 0⟩), .turn ⟨0, Nat.two_pos⟩ { Env.reliable with malloc := false } 0]

/-- **A pool destroy goes missing**: it is taken, neither carried out nor answered. -/
theorem destroy_dropped : ∃ n n' : Net (Fin 2), twoClients = some n ∧ n.Quiet ∧
    (∀ e ∈ noMemoryDestroy, e.Fits ∧ e.Exact) ∧ run netStep n noMemoryDestroy = some n' ∧
    ¬ ∃ log, Dispatched n.daemon.fs noMemoryDestroy n' log := by
  obtain ⟨n, hn, hval⟩ := Option.map_eq_some_iff.1 (show twoClients.map (fun n =>
    (run netStep n noMemoryDestroy).map fun n' => (n'.pending 0, n'.told 0)) = some (some ([], [])) by decide +kernel)
  obtain ⟨n', hn', htaken⟩ := Option.map_eq_some_iff.1 hval
  obtain ⟨hpending, htold⟩ := Prod.mk.inj htaken
  refine ⟨n, n', hn, twoClients_quiet hn, ?_, hn', ?_⟩
  · simp [noMemoryDestroy, Event.Fits, Event.Exact, Call.Exact, Call.Fits, PoolHandle.Fits]
  · rintro ⟨log, hlog⟩
    have hasked : (.poolDestroy ⟨97, 0⟩ : Call) ∈ (log.filter (·.client = 0)).map (·.call) := by
      have hall := hlog.asked 0
      rw [hpending, List.append_nil] at hall
      rw [← hall]
      exact List.mem_cons_self
    obtain ⟨t, ht, hcall⟩ := List.mem_map.1 hasked
    obtain ⟨hmem, hclient⟩ := List.mem_filter.1 ht
    have htold' := hlog.told 0
    rw [htold] at htold'
    have hnone := List.map_eq_nil_iff.1 htold'.symm
    have hin : t ∈ log.filter fun t => t.client = 0 ∧ t.call ≠ .sync :=
      List.mem_filter.2 ⟨hmem, decide_eq_true ⟨of_decide_eq_true hclient, by simp [hcall]⟩⟩
    rw [hnone] at hin
    exact absurd hin List.not_mem_nil

end FlexAlloc
