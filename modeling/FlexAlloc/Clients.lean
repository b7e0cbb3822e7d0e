/-
The daemon with all of its clients: who sends what when is up to them, and the daemon takes their messages in any order.

A client has one buffer to send from and one to receive in, and waits in `fla_send_recv` for the reply to a call before it
makes another one. Between a client and the daemon there is at most one message. The daemon has one file system, one
receive buffer and one send buffer for all of them, and stops at a fault. A client whose handler gives up is disconnected:
nothing happens to it any more.

- `clients_serialised`: in every run, the file system is what the base functions make of the calls one after another, in the
  order of the daemon's turns; each client made its calls in that order, and was told what its own calls returned. A pool
  create arrives with whatever arguments are in the buffers, and what is told of a root object may be anything.
- `serve_call`: one turn, from the request of a call to what is read from the reply.
-/
import FlexAlloc.Core.Run
import FlexAlloc.Daemon

namespace FlexAlloc

open FlexAlloc.Core Function

/-! ## The system -/

/-- what a client is doing: nothing, waiting for the reply to a call, or it has closed -/
inductive Phase where
  | idle
  | waiting (call : Call)
  | closed
deriving DecidableEq, Repr

/-- `struct fla_daemon_client` -/
structure Client where
  send : MsgBuf
  recv : Bytes
  phase : Phase
  /-- the calls that have returned, with what they returned -/
  returned : List (Call × Res)

/-- the daemon, its clients, and what is on its way to the daemon and to the clients -/
structure Net (ι : Type) where
  daemon : Daemon
  client : ι → Client
  sent : ι → Option MsgBuf
  answer : ι → Option MsgBuf

variable {ι : Type}

/-- every client is connected, and nobody has made a call -/
def Net.Quiet (n : Net ι) : Prop :=
  ∀ i, (n.client i).phase = .idle ∧ (n.client i).returned = [] ∧ n.sent i = none ∧ n.answer i = none

/-! ## What is pending, and what is told -/

/-- the call of a client that the daemon has not taken -/
def Net.pending (n : Net ι) (i : ι) : List Call :=
  match n.sent i, (n.client i).phase with
  | some _, .waiting call => [call]
  | some _, .closed => [.sync]
  | _, _ => []

/-- what a client was told, and is told by the reply on its way -/
def Net.told (n : Net ι) (i : ι) : List (Call × Res) :=
  (n.client i).returned ++
    match n.answer i, (n.client i).phase with
    | some reply, .waiting call => [(call, clientValue call (n.client i).recv reply)]
    | _, _ => []

/-- the call a client waits for; to close is to sync -/
def Phase.asked : Phase → List Call
  | .idle => []
  | .waiting call => [call]
  | .closed => [.sync]

theorem pending_of_sent {n : Net ι} {i : ι} {msg : MsgBuf} (h : n.sent i = some msg) :
    n.pending i = (n.client i).phase.asked := by
  unfold Net.pending
  rw [h]
  cases (n.client i).phase <;> rfl

theorem pending_of_none {n : Net ι} {i : ι} (h : n.sent i = none) : n.pending i = [] := by
  unfold Net.pending
  rw [h]

theorem told_of_none {n : Net ι} {i : ι} (h : n.answer i = none) : n.told i = (n.client i).returned := by
  unfold Net.told
  rw [h, List.append_nil]

theorem told_of_answer {n : Net ι} {i : ι} {reply : MsgBuf} {call : Call} (h : n.answer i = some reply)
    (hphase : (n.client i).phase = .waiting call) :
    n.told i = (n.client i).returned ++ [(call, clientValue call (n.client i).recv reply)] := by
  unfold Net.told
  rw [h, hphase]

theorem Net.view_congr {n n' : Net ι} {i : ι} (hclient : n'.client i = n.client i) (hsent : n'.sent i = n.sent i)
    (hanswer : n'.answer i = n.answer i) : n'.pending i = n.pending i ∧ n'.told i = n.told i := by
  unfold Net.pending Net.told
  rw [hclient, hsent, hanswer]
  exact ⟨rfl, rfl⟩

/-! ## What is on its way -/

/-- the message of a client that waits or has closed -/
def Sent (phase : Phase) (msg : MsgBuf) : Prop :=
  match phase with
  | .idle => False
  | .waiting call => call.Fits ∧ ∃ pad send, msg = clientRequest pad send call
  | .closed => ∃ send, msg = request .syncNoRsps 0 0 send

/-- what is on its way is the message of a client that waits for nothing else, or the reply a client waits for -/
structure Wired (n : Net ι) : Prop where
  sent : ∀ i msg, n.sent i = some msg → Sent (n.client i).phase msg ∧ n.answer i = none
  answer : ∀ i reply, n.answer i = some reply → ∃ call, (n.client i).phase = .waiting call

theorem Wired.idle {n : Net ι} (hw : Wired n) {i : ι} (hidle : (n.client i).phase = .idle) :
    n.sent i = none ∧ n.answer i = none := by
  constructor
  · cases h : n.sent i with
    | none => rfl
    | some msg =>
      have hsent := (hw.sent i msg h).1
      rw [hidle] at hsent
      exact absurd hsent id
  · cases h : n.answer i with
    | none => rfl
    | some reply =>
      obtain ⟨call, hcall⟩ := hw.answer i reply h
      rw [hidle] at hcall
      cases hcall

theorem Net.Quiet.wired {n : Net ι} (h : n.Quiet) : Wired n := by
  constructor
  · intro i msg hsent
    rw [(h i).2.2.1] at hsent
    cases hsent
  · intro i reply hanswer
    rw [(h i).2.2.2] at hanswer
    cases hanswer

/-! ## Events -/

/-- a client makes a call or closes; the daemon takes the message of a client; a client takes its reply. `pad` and `mem` are
bytes that nobody set. -/
inductive Event (ι : Type) where
  | ask (i : ι) (pad : Bytes) (call : Call)
  | close (i : ι)
  | turn (i : ι) (env : Env) (mem : Bytes)
  | deliver (i : ι)

variable [DecidableEq ι]

def Net.post (n : Net ι) (i : ι) (msg : MsgBuf) (phase : Phase) : Net ι :=
  { n with client := update n.client i { n.client i with send := msg, phase := phase },
           sent := update n.sent i (some msg) }

def Net.take (n : Net ι) (i : ι) (reply : Option MsgBuf) (d : Daemon) : Net ι :=
  { n with daemon := d, sent := update n.sent i none, answer := update n.answer i reply }

/-- a client takes its reply, and its call returns -/
def Net.receive (n : Net ι) (i : ι) (reply : MsgBuf) (call : Call) : Net ι :=
  let c := n.client i
  { n with client := update n.client i { c with recv := clientReceive c.recv reply, phase := .idle,
                                                returned := c.returned ++ [(call, clientValue call c.recv reply)] },
           answer := update n.answer i none }

/-- one event; `none` when it cannot happen, or when the daemon faults -/
def netStep (n : Net ι) : Event ι → Option (Net ι)
  | .ask i pad call =>
    match (n.client i).phase with
    | .idle => some (n.post i (clientRequest pad (n.client i).send call) (.waiting call))
    | _ => none
  | .close i =>
    match (n.client i).phase with
    | .idle => some (n.post i (request .syncNoRsps 0 0 (n.client i).send) .closed)
    | _ => none
  | .turn i env mem =>
    match n.sent i with
    | none => none
    | some msg =>
      match serve env mem n.daemon msg with
      | .error _ => none
      | .ok (reply, d) => some (n.take i reply d)
  | .deliver i =>
    match n.answer i, (n.client i).phase with
    | some reply, .waiting call => some (n.receive i reply call)
    | _, _ => none

def Event.Fits : Event ι → Prop
  | .ask _ _ call => call.Fits
  | _ => True

/-! ## The calls one after another -/

def runCalls : Flexalloc → List (Env × Call) → Ret (List Res × Flexalloc)
  | fs, [] => .ok ([], fs)
  | fs, (env, call) :: rest => do
    let (res, fs) ← baseCall env fs call
    let (out, fs) ← runCalls fs rest
    .ok (res :: out, fs)

/-- a turn of the daemon: for whom, in what environment, the call that was asked for, the base call it came to with what
that returned, unless the handler gives up before, and whether there is a reply -/
structure Turn (ι : Type) where
  client : ι
  env : Env
  asked : Call
  made : Option (Call × Res)
  answered : Bool

/-- the base call made for the call that was asked for: the same, but that the arguments of a pool create need not arrive -/
def Call.Becomes : Call → Call → Prop
  | .poolCreate _, made => ∃ arg, made = .poolCreate arg
  | call, made => made = call

/-- what a client is told of a result: of a sync that it succeeded, of a root object anything, and else the result -/
def Told : Call → Res → Res → Prop
  | .sync, _, value => value = .done
  | .poolGetRootObject _, _, _ => True
  | _, res, value => value = res

/-- a handler gives up only where a pool is to be destroyed and there is no memory for its handle -/
def Turn.Honest (t : Turn ι) : Prop :=
  match t.made with
  | some (made, _) => t.asked.Becomes made
  | none => t.answered = false ∧ ¬ t.env.malloc ∧ ∃ handle, t.asked = .poolDestroy handle

def Turn.performed (t : Turn ι) : Option (Env × Call) := t.made.map fun m => (t.env, m.1)

def Turn.result (t : Turn ι) : Option Res := t.made.map (·.2)

def Turn.ToldAs (t : Turn ι) (v : Call × Res) : Prop :=
  v.1 = t.asked ∧ ∃ made res, t.made = some (made, res) ∧ Told made res v.2

/-- the turns among the events -/
def Event.turnOf : Event ι → Option (ι × Env)
  | .turn i env _ => some (i, env)
  | _ => none

/-- the calls of a client among the events; to close is to sync -/
def Event.askedBy (i : ι) : Event ι → Option Call
  | .ask j _ call => if j = i then some call else none
  | .close j => if j = i then some .sync else none
  | _ => none

/-- **A serial order** of the turns: the file system is what the calls make of it one after another, a pool create with the
arguments that arrived; each client has its calls there in the order in which it made them, and what it was told is what they
returned, of a root object anything. -/
structure Serial (fs : Flexalloc) (es : List (Event ι)) (n : Net ι) (log : List (Turn ι)) : Prop where
  turns : log.map (fun t => (t.client, t.env)) = es.filterMap Event.turnOf
  runs : runCalls fs (log.filterMap Turn.performed) = .ok (log.filterMap Turn.result, n.daemon.fs)
  honest : ∀ t ∈ log, t.Honest
  asked : ∀ i, es.filterMap (Event.askedBy i) = (log.filter (·.client = i)).map (·.asked) ++ n.pending i
  told : ∀ i, List.Forall₂ Turn.ToldAs (log.filter fun t => t.client = i ∧ t.answered) (n.told i)

theorem runCalls_snoc {fs fs' fs'' : Flexalloc} {calls : List (Env × Call)} {out : List Res} {env : Env} {call : Call}
    {res : Res} (h : runCalls fs calls = .ok (out, fs')) (hcall : baseCall env fs' call = .ok (res, fs'')) :
    runCalls fs (calls ++ [(env, call)]) = .ok (out ++ [res], fs'') := by
  induction calls generalizing fs out with
  | nil =>
    cases h
    rw [List.nil_append, runCalls, hcall]
    rfl
  | cons c calls ih =>
    obtain ⟨env', call'⟩ := c
    obtain ⟨⟨res', fs1⟩, hfirst, hrest⟩ := bind_eq_ok h
    obtain ⟨⟨out', fs2⟩, hout, hres⟩ := bind_eq_ok hrest
    cases hres
    rw [List.cons_append, runCalls, hfirst, ok_bind]
    dsimp only
    rw [ih hout]
    rfl

/-! ## One turn -/

section Turn

variable {env : Env} {mem pad : Bytes} {d d' : Daemon} {csend : MsgBuf} {call : Call} {reply : Option MsgBuf}

/-- nothing but the base function changes the file system -/
theorem daemonCall_some {fs fs' : Flexalloc} {res : Res} (h : daemonCall env fs call = .ok (some (res, fs'))) :
    baseCall env fs call = .ok (res, fs') := by
  cases call with
  | poolOpen name =>
    obtain ⟨found, hfound, hres⟩ := bind_eq_ok h
    cases found with
    | some i => cases hres
    | none =>
      cases hres
      rw [baseCall, flaBasePoolOpen, hfound]
      rfl
  | poolDestroy handle =>
    unfold daemonCall at h
    dsimp only at h
    split_ifs at h
    · obtain ⟨r, hr, hres⟩ := bind_eq_ok h
      cases hres
      exact hr
    · cases h
  | _ =>
    obtain ⟨r, hr, hres⟩ := bind_eq_ok h
    cases hres
    exact hr

theorem daemonCall_memory {fs : Flexalloc} {handle : PoolHandle} {r : Res × Flexalloc}
    (h : daemonCall env fs (.poolDestroy handle) = .ok (some r)) : env.malloc := by
  by_contra hmalloc
  unfold daemonCall at h
  dsimp only at h
  rw [if_pos hmalloc] at h
  cases h

/-- a handler that gives up destroys a pool -/
theorem daemonCall_none {fs : Flexalloc} (h : daemonCall env fs call = .ok none) :
    ¬ env.malloc ∧ ∃ handle, call = .poolDestroy handle := by
  cases call with
  | poolDestroy handle =>
    unfold daemonCall at h
    dsimp only at h
    split_ifs at h with hmalloc
    · obtain ⟨r, -, hres⟩ := bind_eq_ok h
      cases hres
    · exact ⟨hmalloc, handle, rfl⟩
  | poolOpen name =>
    obtain ⟨found, -, hres⟩ := bind_eq_ok h
    cases found <;> cases hres
  | _ =>
    obtain ⟨r, -, hres⟩ := bind_eq_ok h
    cases hres

/-- a request that is decoded at all is decoded to the call that was asked for, or else to some pool create -/
theorem serve_decodes (hfits : call.Fits) (h : serve env mem d (clientRequest pad csend call) = .ok (reply, d')) :
    ∃ made, call.Becomes made ∧
      (daemonReceive d.recv (clientRequest pad csend call) >>= handlerCall) = .ok (some made) := by
  cases call with
  | poolCreate arg =>
    cases hdec : daemonReceive d.recv (clientRequest pad csend (.poolCreate arg)) >>= handlerCall with
    | error f =>
      rw [serve_undecoded mem hdec] at h
      cases h
    | ok made =>
      obtain ⟨recv, hrecv, hhandler⟩ := bind_eq_ok hdec
      have hcmd : recv.hdr.cmd = .poolCreate := by rw [daemonReceive_hdr hrecv]; rfl
      rw [handlerCall_create hcmd recv.data] at hhandler
      obtain ⟨arg', -, hmade⟩ := bind_eq_ok hhandler
      cases hmade
      exact ⟨_, ⟨arg', rfl⟩, rfl⟩
  | _ => exact ⟨_, rfl, request_decodes hfits nofun pad csend d.recv⟩

/-- what is read from a reply does not depend on the arguments of the call -/
theorem Call.Becomes.value {made : Call} (h : call.Becomes made) (old : Bytes) (msg : MsgBuf) :
    clientValue call old msg = clientValue made old msg := by
  cases call with
  | poolCreate arg =>
    obtain ⟨arg', rfl⟩ := h
    rfl
  | _ => rw [show made = _ from h]

theorem callRsp_told {fs : Flexalloc} {res : Res} (hres : res.For call.kind) (old : Bytes) (send : MsgBuf) :
    Told call res (clientValue call old (callRsp mem fs res send call)) := by
  cases call with
  | sync => rfl
  | poolGetRootObject pool => trivial
  | _ => exact callRsp_value hres nofun nofun old send

/-- **One turn** for a call. The base function of the call returns and the client is told so, or the handler gives up. -/
theorem serve_call (hfits : call.Fits) (h : serve env mem d (clientRequest pad csend call) = .ok (reply, d')) :
    (∃ made res msg, call.Becomes made ∧ baseCall env d.fs made = .ok (res, d'.fs) ∧ reply = some msg ∧
      (∀ old, Told made res (clientValue call old msg)) ∧ ∀ handle, call = .poolDestroy handle → env.malloc) ∨
    (reply = none ∧ d'.fs = d.fs ∧ ¬ env.malloc ∧ ∃ handle, call = .poolDestroy handle) := by
  obtain ⟨made, hmade, hdec⟩ := serve_decodes hfits h
  cases hcall : daemonCall env d.fs made with
  | error f =>
    rw [serve_fault mem hdec hcall] at h
    cases h
  | ok r =>
    cases r with
    | none =>
      obtain ⟨hmalloc, handle, rfl⟩ := daemonCall_none hcall
      obtain ⟨recv, hrecv, hhandler⟩ := bind_eq_ok hdec
      rw [serve, hrecv, ok_bind, msgHandler, hhandler, ok_bind] at h
      dsimp only at h
      rw [hcall] at h
      cases h
      have hasked : ∃ handle, call = .poolDestroy handle := by
        cases call with
        | poolDestroy handle' => exact ⟨handle', rfl⟩
        | poolCreate arg =>
          obtain ⟨arg', harg⟩ := hmade
          cases harg
        | _ => cases hmade
      exact Or.inr ⟨rfl, rfl, hmalloc, hasked⟩
    | some r =>
      obtain ⟨res, fs⟩ := r
      obtain ⟨recv', hserve⟩ := serve_answer mem hdec (clientRequest_cmd _ _ _) hcall
      rw [h] at hserve
      cases hserve
      have hbase := daemonCall_some hcall
      refine Or.inl ⟨made, res, _, hmade, hbase, rfl, fun old => ?_, fun handle hdestroy => ?_⟩
      · rw [hmade.value]
        exact callRsp_told (baseCall_for hbase) old _
      · subst hdestroy
        obtain rfl : made = .poolDestroy handle := hmade
        exact daemonCall_memory hcall

theorem serve_close (h : serve env mem d (request .syncNoRsps 0 0 csend) = .ok (reply, d')) :
    reply = none ∧ ∃ res, baseCall env d.fs .sync = .ok (res, d'.fs) := by
  obtain ⟨data, hrecv, -⟩ := daemonReceive_request .syncNoRsps (Nat.zero_le _) 0 d.recv csend
  rw [serve, hrecv, ok_bind] at h
  obtain ⟨made, hmade, hrest⟩ := bind_eq_ok h
  cases hmade
  obtain ⟨r, hcall, hres⟩ := bind_eq_ok hrest
  obtain ⟨r', hbase, hr⟩ := bind_eq_ok hcall
  cases hr
  cases hres
  exact ⟨rfl, _, hbase⟩

end Turn

/-! ## One event -/

theorem netStep_cases {n n' : Net ι} {e : Event ι} (h : netStep n e = some n') :
    (∃ i pad call, e = .ask i pad call ∧ (n.client i).phase = .idle ∧
      n' = n.post i (clientRequest pad (n.client i).send call) (.waiting call)) ∨
    (∃ i, e = .close i ∧ (n.client i).phase = .idle ∧
      n' = n.post i (request .syncNoRsps 0 0 (n.client i).send) .closed) ∨
    (∃ i env mem msg reply d, e = .turn i env mem ∧ n.sent i = some msg ∧
      serve env mem n.daemon msg = .ok (reply, d) ∧ n' = n.take i reply d) ∨
    (∃ i reply call, e = .deliver i ∧ n.answer i = some reply ∧ (n.client i).phase = .waiting call ∧
      n' = n.receive i reply call) := by
  cases e with
  | ask i pad call =>
    unfold netStep at h
    cases hphase : (n.client i).phase with
    | idle => simp [hphase] at h; exact Or.inl ⟨i, pad, call, rfl, hphase, h.symm⟩
    | _ => simp [hphase] at h
  | close i =>
    unfold netStep at h
    cases hphase : (n.client i).phase with
    | idle => simp [hphase] at h; exact Or.inr (Or.inl ⟨i, rfl, hphase, h.symm⟩)
    | _ => simp [hphase] at h
  | turn i env mem =>
    unfold netStep at h
    cases hsent : n.sent i with
    | none => simp [hsent] at h
    | some msg =>
      cases hserve : serve env mem n.daemon msg with
      | error f => simp [hsent, hserve] at h
      | ok r =>
        simp [hsent, hserve] at h
        exact Or.inr (Or.inr (Or.inl ⟨i, env, mem, msg, r.1, r.2, rfl, hsent, hserve, h.symm⟩))
  | deliver i =>
    unfold netStep at h
    cases hanswer : n.answer i with
    | none => simp [hanswer] at h
    | some reply =>
      cases hphase : (n.client i).phase with
      | waiting call =>
        simp [hanswer, hphase] at h
        exact Or.inr (Or.inr (Or.inr ⟨i, reply, call, rfl, hanswer, hphase, h.symm⟩))
      | _ => simp [hanswer, hphase] at h

theorem Wired.post {n : Net ι} (hw : Wired n) {i : ι} {msg : MsgBuf} {phase : Phase}
    (hidle : (n.client i).phase = .idle) (hsent : Sent phase msg) : Wired (n.post i msg phase) := by
  have hanswer : n.answer i = none := by
    cases h : n.answer i with
    | none => rfl
    | some reply =>
      obtain ⟨call, hcall⟩ := hw.answer i reply h
      rw [hidle] at hcall
      cases hcall
  constructor
  · intro j msg' h
    by_cases hj : j = i
    · subst hj
      simp only [Net.post, update_self, Option.some.injEq] at h ⊢
      exact ⟨h ▸ hsent, hanswer⟩
    · simp only [Net.post, update_of_ne hj] at h ⊢
      exact hw.sent j msg' h
  · intro j reply h
    by_cases hj : j = i
    · subst hj
      exact absurd (hanswer.symm.trans h) nofun
    · simp only [Net.post, update_of_ne hj]
      exact hw.answer j reply h

theorem Wired.take {n : Net ι} (hw : Wired n) {i : ι} {reply : Option MsgBuf} {d : Daemon}
    (hreply : ∀ msg, reply = some msg → ∃ call, (n.client i).phase = .waiting call) : Wired (n.take i reply d) := by
  constructor
  · intro j msg h
    by_cases hj : j = i
    · subst hj
      simp [Net.take] at h
    · simp only [Net.take, update_of_ne hj] at h ⊢
      exact hw.sent j msg h
  · intro j msg h
    by_cases hj : j = i
    · subst hj
      simp only [Net.take, update_self] at h
      exact hreply msg h
    · simp only [Net.take, update_of_ne hj] at h
      exact hw.answer j msg h

theorem Wired.receive {n : Net ι} (hw : Wired n) {i : ι} {reply : MsgBuf} {call : Call} (hanswer : n.answer i = some reply) :
    Wired (n.receive i reply call) := by
  constructor
  · intro j msg h
    by_cases hj : j = i
    · subst hj
      have hnone := (hw.sent j msg h).2
      rw [hanswer] at hnone
      cases hnone
    · simp only [Net.receive, update_of_ne hj] at h ⊢
      exact hw.sent j msg h
  · intro j msg h
    by_cases hj : j = i
    · subst hj
      simp [Net.receive] at h
    · simp only [Net.receive, update_of_ne hj] at h ⊢
      exact hw.answer j msg h

theorem Wired.posted {n : Net ι} (hw : Wired n) {i : ι} (hidle : (n.client i).phase = .idle) (msg : MsgBuf)
    (phase : Phase) (j : ι) :
    (n.post i msg phase).pending j = n.pending j ++ (if j = i then phase.asked else []) ∧
      (n.post i msg phase).told j = n.told j := by
  by_cases hj : j = i
  · subst hj
    obtain ⟨hsent, hanswer⟩ := hw.idle hidle
    rw [if_pos rfl, pending_of_none hsent, told_of_none hanswer]
    rw [pending_of_sent (show (n.post j msg phase).sent j = some msg from update_self _ _ _),
      told_of_none (show (n.post j msg phase).answer j = none from hanswer)]
    simp [Net.post]
  · rw [if_neg hj, List.append_nil]
    exact Net.view_congr (update_of_ne hj _ _) (update_of_ne hj _ _) rfl

theorem Wired.received {n : Net ι} (hw : Wired n) {i : ι} {reply : MsgBuf} {call : Call}
    (hanswer : n.answer i = some reply) (hphase : (n.client i).phase = .waiting call) (j : ι) :
    (n.receive i reply call).pending j = n.pending j ∧ (n.receive i reply call).told j = n.told j := by
  by_cases hj : j = i
  · subst hj
    have hsent : n.sent j = none := by
      cases h : n.sent j with
      | none => rfl
      | some msg =>
        have hnone := (hw.sent j msg h).2
        rw [hanswer] at hnone
        cases hnone
    rw [pending_of_none hsent, told_of_answer hanswer hphase]
    rw [pending_of_none (show (n.receive j reply call).sent j = none from hsent),
      told_of_none (show (n.receive j reply call).answer j = none from update_self _ _ _)]
    simp [Net.receive]
  · exact Net.view_congr (update_of_ne hj _ _) rfl (update_of_ne hj _ _)

/-- the turn of a client: its message is taken, and when there is a reply it is told of that -/
theorem Wired.taken {n : Net ι} (hw : Wired n) {i : ι} {msg : MsgBuf} (hsent : n.sent i = some msg)
    (reply : Option MsgBuf) (d : Daemon) (hreply : ∀ msg, reply = some msg → ∃ call, (n.client i).phase = .waiting call)
    (j : ι) :
    (n.pending j = if j = i then (n.client i).phase.asked ++ (n.take i reply d).pending j
      else (n.take i reply d).pending j) ∧
    (n.take i reply d).told j = n.told j ++ (if j = i then
      match reply, (n.client i).phase with
      | some msg, .waiting call => [(call, clientValue call (n.client i).recv msg)]
      | _, _ => []
      else []) := by
  by_cases hj : j = i
  · subst hj
    rw [if_pos rfl, if_pos rfl, pending_of_sent hsent, told_of_none (hw.sent j msg hsent).2,
      pending_of_none (show (n.take j reply d).sent j = none from update_self _ _ _), List.append_nil]
    refine ⟨rfl, ?_⟩
    unfold Net.told
    simp only [Net.take, update_self]
  · rw [if_neg hj, if_neg hj, List.append_nil]
    have hclient : (n.take i reply d).client j = n.client j := rfl
    obtain ⟨hpending, htold⟩ := Net.view_congr hclient (update_of_ne hj _ _) (update_of_ne hj _ _)
    exact ⟨hpending.symm, htold⟩

/-! ## Runs -/

section Runs

variable {fs : Flexalloc} {es : List (Event ι)} {n n' : Net ι} {log : List (Turn ι)}

theorem Serial.other (h : Serial fs es n log) {e : Event ι} (hturn : e.turnOf = none) (hfs : n'.daemon.fs = n.daemon.fs)
    (hasked : ∀ i, n'.pending i = n.pending i ++ (e.askedBy i).toList) (htold : ∀ i, n'.told i = n.told i) :
    Serial fs (es ++ [e]) n' log where
  turns := by rw [h.turns, List.filterMap_append, List.filterMap_cons, hturn]; simp
  runs := by rw [hfs]; exact h.runs
  honest := h.honest
  asked i := by
    rw [List.filterMap_append, h.asked i, hasked i, List.append_assoc]
    cases he : e.askedBy i <;> simp [he]
  told i := by rw [htold i]; exact h.told i

theorem Serial.turn (h : Serial fs es n log) (t : Turn ι) (mem : Bytes) (told : List (Call × Res))
    (hmade : match t.made with
      | some (call, res) => baseCall t.env n.daemon.fs call = .ok (res, n'.daemon.fs)
      | none => n'.daemon.fs = n.daemon.fs)
    (hpending : ∀ j, n.pending j = if j = t.client then t.asked :: n'.pending j else n'.pending j)
    (htold : ∀ j, n'.told j = n.told j ++ (if j = t.client then told else [])) (hhonest : t.Honest)
    (hanswer : if t.answered then ∃ v, told = [v] ∧ t.ToldAs v else told = []) :
    Serial fs (es ++ [.turn t.client t.env mem]) n' (log ++ [t]) where
  turns := by simp [h.turns, Event.turnOf]
  runs := by
    cases hm : t.made with
    | none =>
      rw [hm] at hmade
      have hruns := h.runs
      rw [← show n'.daemon.fs = n.daemon.fs from hmade] at hruns
      simpa [List.filterMap_append, List.filterMap_cons, Turn.performed, Turn.result, hm] using hruns
    | some m =>
      obtain ⟨call, res⟩ := m
      rw [hm] at hmade
      simpa [List.filterMap_append, List.filterMap_cons, Turn.performed, Turn.result, hm] using
        runCalls_snoc h.runs hmade
  honest := by
    intro t' ht
    rcases List.mem_append.1 ht with ht | ht
    · exact h.honest t' ht
    · rw [List.mem_singleton.1 ht]
      exact hhonest
  asked j := by
    rw [List.filterMap_append, h.asked j, hpending j]
    by_cases hj : j = t.client
    · subst hj
      simp [Event.askedBy]
    · simp [Event.askedBy, hj, Ne.symm hj]
  told j := by
    rw [htold j, List.filter_append]
    refine List.rel_append (h.told j) ?_
    by_cases hj : j = t.client
    · subst hj
      cases ha : t.answered with
      | false =>
        rw [ha] at hanswer
        rw [show told = [] from hanswer]
        simp [ha]
      | true =>
        rw [ha] at hanswer
        obtain ⟨v, rfl, hv⟩ := hanswer
        simpa [ha] using hv
    · simp [hj, Ne.symm hj]

/-- the turn of a log for an event: it is for the call that its client waits for, it is lost when there is no memory for the
handle of a pool to be destroyed, and otherwise it is answered, unless the client has closed -/
structure Turn.At (t : Turn ι) (n : Net ι) (e : Event ι) : Prop where
  event : ∃ mem, e = .turn t.client t.env mem
  asked : (n.client t.client).phase.asked = [t.asked]
  answered : t.answered = true ↔ t.made ≠ none ∧ (n.client t.client).phase ≠ .closed
  lost : t.made = none ↔ (∃ handle, t.asked = .poolDestroy handle) ∧ ¬ t.env.malloc

/-- **One event** keeps a serial order, which a turn of the daemon extends. -/
theorem Serial.step (hw : Wired n) (h : Serial fs es n log) {e : Event ι} (hfits : e.Fits) (hstep : netStep n e = some n') :
    Wired n' ∧ ((e.turnOf = none ∧ Serial fs (es ++ [e]) n' log) ∨
      ∃ t : Turn ι, t.At n e ∧ Serial fs (es ++ [e]) n' (log ++ [t])) := by
  rcases netStep_cases hstep with ⟨i, pad, call, rfl, hidle, rfl⟩ | ⟨i, rfl, hidle, rfl⟩ |
    ⟨i, env, mem, msg, reply, d, rfl, hsent, hserve, rfl⟩ | ⟨i, reply, call, rfl, hanswer, hphase, rfl⟩
  · -- a client makes a call
    refine ⟨hw.post hidle ⟨hfits, pad, _, rfl⟩,
      .inl ⟨rfl, h.other rfl rfl (fun j => ?_) fun j => (hw.posted hidle _ _ j).2⟩⟩
    rw [(hw.posted hidle _ _ j).1]
    by_cases hj : j = i
    · simp [hj, Event.askedBy, Phase.asked]
    · simp [hj, Ne.symm hj, Event.askedBy]
  · -- a client closes
    refine ⟨hw.post hidle ⟨_, rfl⟩, .inl ⟨rfl, h.other rfl rfl (fun j => ?_) fun j => (hw.posted hidle _ _ j).2⟩⟩
    rw [(hw.posted hidle _ _ j).1]
    by_cases hj : j = i
    · simp [hj, Event.askedBy, Phase.asked]
    · simp [hj, Ne.symm hj, Event.askedBy]
  · -- the daemon takes the message of a client
    have hmsg := (hw.sent i msg hsent).1
    cases hphase : (n.client i).phase with
    | idle =>
      rw [hphase] at hmsg
      exact absurd hmsg id
    | closed =>
      rw [hphase] at hmsg
      obtain ⟨send, rfl⟩ := hmsg
      obtain ⟨rfl, res, hbase⟩ := serve_close hserve
      have htaken := hw.taken hsent none d nofun
      refine ⟨hw.take nofun, .inr ⟨_, ?_, h.turn ⟨i, env, .sync, some (.sync, res), false⟩ mem [] hbase (fun j => ?_)
        (fun j => (htaken j).2) rfl rfl⟩⟩
      · exact ⟨⟨mem, rfl⟩, by rw [hphase]; rfl, by simp [hphase], by simp⟩
      · rw [(htaken j).1, hphase]
        rfl
    | waiting call =>
      rw [hphase] at hmsg
      obtain ⟨hcall, pad, send, rfl⟩ := hmsg
      rcases serve_call hcall hserve with ⟨made, res, msg, hmade, hbase, rfl, htold, hmemory⟩ |
        ⟨rfl, hfs, hmalloc, handle, rfl⟩
      · have hwait : ∀ msg', some msg = some msg' → ∃ call, (n.client i).phase = .waiting call := fun _ _ => ⟨call, hphase⟩
        have htaken := hw.taken hsent (some msg) d hwait
        refine ⟨hw.take hwait, .inr ⟨_, ?_, h.turn ⟨i, env, call, some (made, res), true⟩ mem
          [(call, clientValue call (n.client i).recv msg)] hbase (fun j => ?_) (fun j => ?_) hmade
          ⟨_, rfl, rfl, made, res, rfl, htold _⟩⟩⟩
        · exact ⟨⟨mem, rfl⟩, by rw [hphase]; rfl, by simp [hphase],
            iff_of_false nofun fun ⟨⟨handle, hdestroy⟩, hmalloc⟩ => hmalloc (hmemory handle hdestroy)⟩
        · rw [(htaken j).1, hphase]
          rfl
        · rw [(htaken j).2, hphase]
      · have htaken := hw.taken hsent none d nofun
        refine ⟨hw.take nofun, .inr ⟨_, ?_, h.turn ⟨i, env, .poolDestroy handle, none, false⟩ mem [] hfs (fun j => ?_)
          (fun j => (htaken j).2) ⟨rfl, hmalloc, handle, rfl⟩ rfl⟩⟩
        · exact ⟨⟨mem, rfl⟩, by rw [hphase]; rfl, by simp, iff_of_true rfl ⟨⟨handle, rfl⟩, hmalloc⟩⟩
        · rw [(htaken j).1, hphase]
          rfl
  · -- a client takes its reply
    refine ⟨hw.receive hanswer, .inl ⟨rfl, h.other rfl rfl (fun j => ?_) fun j => (hw.received hanswer hphase j).2⟩⟩
    rw [(hw.received hanswer hphase j).1]
    simp [Event.askedBy]

end Runs

theorem Net.Quiet.serial {n : Net ι} (hn : n.Quiet) : Serial n.daemon.fs [] n [] := by
  refine ⟨rfl, by simp [runCalls], by simp, fun i => ?_, fun i => ?_⟩
  · simp [pending_of_none (hn i).2.2.1]
  · simp [told_of_none (hn i).2.2.2, (hn i).2.1]

/-- **The daemon serialises its clients.** For any number of clients, any buffers and any file system: in every run of calls
with arguments that fit, however the events of the clients and the turns of the daemon follow each other, the turns are in
a serial order. -/
theorem clients_serialised {n n' : Net ι} (hn : n.Quiet) {es : List (Event ι)} (hfits : ∀ e ∈ es, e.Fits)
    (h : run netStep n es = some n') : ∃ log, Serial n.daemon.fs es n' log := by
  have hrun := run_history (P := fun es n' => (∀ e ∈ es, e.Fits) → Wired n' ∧ ∃ log, Serial n.daemon.fs es n' log)
    (fun pre s e t hP hstep hfits => by
      obtain ⟨hw, log, hlog⟩ := hP fun e he => hfits e (List.mem_append_left _ he)
      have he := hfits e (List.mem_append_right _ List.mem_cons_self)
      obtain ⟨hw', ⟨-, hsame⟩ | ⟨t, -, hturn⟩⟩ := hlog.step hw he hstep
      · exact ⟨hw', log, hsame⟩
      · exact ⟨hw', log ++ [t], hturn⟩)
    (fun _ => ⟨hn.wired, [], hn.serial⟩) h
  exact (hrun hfits).2

/-- two clients of the daemon on a small device -/
def twoClients : Option (Net (Fin 2)) :=
  (smallDaemon 0 ⟨⟨0, .identify, 0⟩, 0⟩).map fun d =>
    ⟨d, fun _ => ⟨⟨⟨0, .initInfo, 0⟩, 0⟩, 0, .idle, []⟩, fun _ => none, fun _ => none⟩

/-- each makes an object; the one that asks later comes first -/
def twoCreates : List (Event (Fin 2)) :=
  [.ask 0 0 (.objectCreate ⟨97, 0⟩), .ask 1 0 (.objectCreate ⟨97, 0⟩), .turn 1 .reliable 0, .turn 0 .reliable 0,
    .deliver 0, .deliver 1]

theorem twoClients_quiet {n : Net (Fin 2)} (h : twoClients = some n) : n.Quiet := by
  obtain ⟨d, -, rfl⟩ := Option.map_eq_some_iff.1 h
  exact fun _ => ⟨rfl, rfl, rfl, rfl⟩

theorem clients_serialised_two : ∃ n n' log, twoClients = some n ∧ n.Quiet ∧ run netStep n twoCreates = some n' ∧
    (n'.client 0).returned = [(.objectCreate ⟨97, 0⟩, .object ⟨0, 1⟩)] ∧
    (n'.client 1).returned = [(.objectCreate ⟨97, 0⟩, .object ⟨0, 0⟩)] ∧ Serial n.daemon.fs twoCreates n' log := by
  obtain ⟨n, hn, hrun⟩ := Option.map_eq_some_iff.1 (show twoClients.map (fun n => (run netStep n twoCreates).map fun n' =>
    ((n'.client 0).returned, (n'.client 1).returned)) = some (some ([(.objectCreate ⟨97, 0⟩, .object ⟨0, 1⟩)],
      [(.objectCreate ⟨97, 0⟩, .object ⟨0, 0⟩)])) by decide +kernel)
  obtain ⟨n', hn', hreturned⟩ := Option.map_eq_some_iff.1 hrun
  obtain ⟨h0, h1⟩ := Prod.mk.inj hreturned
  have hquiet := twoClients_quiet hn
  have hfits : ∀ e ∈ twoCreates, e.Fits := by
    simp [twoCreates, Event.Fits, Call.Fits, PoolHandle.Fits]
  obtain ⟨log, hlog⟩ := clients_serialised hquiet hfits hn'
  exact ⟨n, n', log, hn, hquiet, hn', h0, h1, hlog⟩

end FlexAlloc
