/-
`fla_daemon_loop`: the table of clients, and what an iteration does to it.

An iteration polls the slots up to `max_clients_ndx`, accepts a client if the listening socket is readable, and gives every
client that is ready a turn, as long as `nready` counts any. What `poll` and `accept` return, who is ready and what is read
is up to the inputs (`Tick`). Nothing is known of the memory past the table.

- `scan_inv`: what every turn keeps, the scan of the clients keeps. `scan_conn`: a connection has at most one turn in it.
- `iterate_frame`: an iteration leaves the slots past `lastSlot` alone.
- `loop_framed`: from the iteration that accepts it, a client whose turns read whole has its requests passed on in order,
  whatever the other clients do.
- `clients_consistent_iff`: along a run, `active_clients` counts the clients, every slot used is in the table, and the
  loop ends when it is told to and no client is left, if and only if a client that is accepted always finds a free slot
  and `accept` never fails with `EAGAIN`. `table_overrun`: two clients in a table of two, and an `accept` that fails.
-/
import FlexAlloc.Framing

namespace FlexAlloc

open FlexAlloc.Core Function

/-! ## The table -/

def flaDaemonFdFree : ℤ := -1

/-- what the loop keeps: the `fd` of every slot, `max_clients_ndx`, `active_clients` and the receive buffer, with the bytes
to come from the client in a slot and the messages of it that were passed on -/
structure Loop where
  fd : ℕ → ℤ
  ndx : ℕ
  active : ℤ
  buf : Bytes
  stream : ℕ → List UInt8
  passed : ℕ → List (ℕ × ℕ × List UInt8)

/-- what `accept` returns: a client, which will send these bytes, or `EAGAIN`, or another error -/
inductive Accept where
  | conn (fd : ℕ) (bytes : List UInt8)
  | again
  | failed
deriving DecidableEq

def Accept.connfd : Accept → ℤ
  | .conn fd _ => fd
  | _ => -1

def Accept.bytes : Accept → List UInt8
  | .conn _ bytes => bytes
  | _ => []

/-- what happens in an iteration: `*keep_running` at its top and after `poll`, the value of `poll`, whether the listening
socket is readable, what `accept` returns then, and the turns of the clients that are ready -/
structure Tick where
  keep : Bool
  keepAfter : Bool
  nready : ℤ
  listening : Bool
  accept : Accept
  turns : ℕ → Option TurnInput

namespace Loop

/-- at the start slot 0 listens and the others are free -/
def start (n listenFd : ℕ) (mem : ℕ → ℤ) (buf : Bytes) : Loop where
  fd i := if i = 0 then listenFd else if i < n then flaDaemonFdFree else mem i
  ndx := 0
  active := 0
  buf := buf
  stream _ := []
  passed _ := []

/-- `fla_daemon_client_disconnect` -/
def clientDisconnect (s : Loop) (i : ℕ) : Loop :=
  { s with fd := update s.fd i flaDaemonFdFree, active := s.active - 1 }

def turn (s : Loop) (i : ℕ) (t : TurnInput) : Loop :=
  let r := clientTurn s.buf (s.stream i) t
  let s := { s with
    buf := r.buf
    stream := update s.stream i r.rest
    passed := update s.passed i (s.passed i ++ (r.msg.map passedAt).toList) }
  if r.fin = .kept then s else s.clientDisconnect i

/-- the `k` slots from `i` on -/
def scan (turns : ℕ → Option TurnInput) : ℕ → ℕ → ℤ → Loop → Loop
  | 0, _, _, s => s
  | k + 1, i, nready, s =>
    if s.fd i < 0 then scan turns k (i + 1) nready s
    else match turns i with
      | none => scan turns k (i + 1) nready s
      | some t =>
        -- a client that is disconnected for its header is not counted
        if (clientTurn s.buf (s.stream i) t).fin = .short then scan turns k (i + 1) nready (s.turn i t)
        else if nready - 1 ≤ 0 then s.turn i t
        else scan turns k (i + 1) (nready - 1) (s.turn i t)

/-- where the search for a free slot ends: at `n` when there is none -/
def freeSlot (n : ℕ) (s : Loop) : ℕ := ((List.range n).find? fun i => s.fd i < 0).getD n

/-- what `accept` returned goes into the table; without a free slot it is closed, and all the same counted -/
def place (n : ℕ) (accept : Accept) (s : Loop) : Loop :=
  let i := s.freeSlot n
  let s := if i < n then { s with
    fd := update s.fd i accept.connfd
    stream := update s.stream i accept.bytes
    passed := update s.passed i [] } else s
  { s with ndx := max s.ndx i, active := s.active + 1 }

/-- an iteration of `fla_daemon_loop`: the value it returns, or the state at the top of the next -/
def iterate (n : ℕ) (s : Loop) (x : Tick) : ℤ ⊕ Loop :=
  if ¬ x.keep ∧ s.active = 0 then .inl 0
  else if x.nready = 0 ∧ ¬ x.keepAfter ∧ s.active = 0 then .inl 0
  else if x.nready < 0 then .inr s
  else if x.listening then
    if x.accept = .failed then .inl 1
    else
      let s := s.place n x.accept
      if x.nready - 1 ≤ 0 then .inr s else .inr (scan x.turns s.ndx 1 (x.nready - 1) s)
  else .inr (scan x.turns s.ndx 1 x.nready s)

/-- the iteration comes to put something in the table -/
def Admits (s : Loop) (x : Tick) : Prop :=
  ¬ (¬ x.keep ∧ s.active = 0) ∧ ¬ (x.nready = 0 ∧ ¬ x.keepAfter ∧ s.active = 0) ∧ 0 ≤ x.nready ∧ x.listening ∧
    x.accept ≠ .failed

instance (s : Loop) (x : Tick) : Decidable (s.Admits x) := inferInstanceAs (Decidable (_ ∧ _))

/-- the last slot that the iteration polls, writes or goes through -/
def lastSlot (n : ℕ) (s : Loop) (x : Tick) : ℕ := if s.Admits x then max s.ndx (s.freeSlot n) else s.ndx

def conn (s : Loop) (i : ℕ) : Conn := ⟨s.stream i, decide (0 ≤ s.fd i), s.passed i⟩

end Loop

/-! ## Turns -/

section Scan

variable {s : Loop} {turns : ℕ → Option TurnInput} {t : TurnInput} {i j : ℕ}

theorem Loop.turn_fd_of_ne (h : j ≠ i) : (s.turn i t).fd j = s.fd j := by
  unfold Loop.turn
  dsimp only
  split_ifs
  · rfl
  · exact update_of_ne h _ _

@[simp] theorem Loop.turn_ndx : (s.turn i t).ndx = s.ndx := by
  unfold Loop.turn
  dsimp only
  split_ifs <;> rfl

theorem Loop.turn_conn (h : 0 ≤ s.fd i) : (s.turn i t).conn i = (s.conn i).turn (s.buf, t) := by
  unfold Loop.turn Loop.conn Conn.turn
  dsimp only
  split_ifs with hfin
  · simp [hfin, h]
  · simp [hfin, Loop.clientDisconnect, flaDaemonFdFree]

theorem Loop.turn_conn_of_ne (h : j ≠ i) : (s.turn i t).conn j = s.conn j := by
  have hfd := Loop.turn_fd_of_ne (s := s) (t := t) h
  unfold Loop.conn
  rw [hfd]
  unfold Loop.turn
  dsimp only
  split_ifs
  · simp [h]
  · simp [h, Loop.clientDisconnect]

theorem scan_idle {k : ℕ} {nready : ℤ} (h : s.fd i < 0 ∨ turns i = none) :
    Loop.scan turns (k + 1) i nready s = Loop.scan turns k (i + 1) nready s := by
  rw [Loop.scan]
  by_cases hfree : s.fd i < 0
  · exact if_pos hfree
  · rw [if_neg hfree, h.resolve_left hfree]

theorem scan_turn (k : ℕ) (nready : ℤ) (hfd : 0 ≤ s.fd i) (ht : turns i = some t) :
    (∃ nready', Loop.scan turns (k + 1) i nready s = Loop.scan turns k (i + 1) nready' (s.turn i t)) ∨
      Loop.scan turns (k + 1) i nready s = s.turn i t := by
  rw [Loop.scan, if_neg (not_lt.2 hfd), ht]
  dsimp only
  split_ifs
  · exact .inl ⟨_, rfl⟩
  · exact .inr rfl
  · exact .inl ⟨_, rfl⟩

/-- **The scan rule.** What the turn of every client keeps, the scan of the slots from `lo` up to `hi` keeps. -/
theorem scan_inv {P : Loop → Prop} {lo hi : ℕ}
    (hturn : ∀ s i t, lo ≤ i → i < hi → 0 ≤ s.fd i → P s → P (s.turn i t)) {k : ℕ} {nready : ℤ} (hlo : lo ≤ i)
    (hhi : i + k ≤ hi) (hs : P s) : P (Loop.scan turns k i nready s) := by
  induction k generalizing i nready s with
  | zero => exact hs
  | succ k ih =>
    by_cases hidle : s.fd i < 0 ∨ turns i = none
    · rw [scan_idle hidle]
      exact ih (by omega) (by omega) hs
    obtain ⟨hfree, hready⟩ := not_or.1 hidle
    obtain ⟨t, ht⟩ := Option.ne_none_iff_exists'.1 hready
    have hs' := hturn s i t hlo (by omega) (not_lt.1 hfree) hs
    rcases scan_turn k nready (not_lt.1 hfree) ht with ⟨nready', hgo⟩ | hend
    · rw [hgo]
      exact ih (by omega) (by omega) hs'
    · rw [hend]
      exact hs'

theorem scan_conn_outside {k : ℕ} {nready : ℤ} (h : j < i ∨ i + k ≤ j) :
    (Loop.scan turns k i nready s).conn j = s.conn j := by
  refine scan_inv (P := fun s' => s'.conn j = s.conn j) (fun s' m t hm hm' _ hconn => ?_) le_rfl le_rfl rfl
  rw [Loop.turn_conn_of_ne (by omega), hconn]

/-- **One turn each**: in a scan a connection stays as it is, or has one turn. -/
theorem scan_conn (turns : ℕ → Option TurnInput) (k i : ℕ) (nready : ℤ) (s : Loop) (j : ℕ) :
    (Loop.scan turns k i nready s).conn j = s.conn j ∨ ∃ buf t, 0 ≤ s.fd j ∧ turns j = some t ∧
      (Loop.scan turns k i nready s).conn j = (s.conn j).turn (buf, t) := by
  induction k generalizing i nready s with
  | zero => exact .inl rfl
  | succ k ih =>
    by_cases hidle : s.fd i < 0 ∨ turns i = none
    · rw [scan_idle hidle]
      exact ih (i + 1) nready s
    obtain ⟨hfree, hready⟩ := not_or.1 hidle
    obtain ⟨t, ht⟩ := Option.ne_none_iff_exists'.1 hready
    have hfd := not_lt.1 hfree
    rcases eq_or_ne j i with rfl | hne
    · -- the slots after this one leave it alone
      refine .inr ⟨s.buf, t, hfd, ht, ?_⟩
      rcases scan_turn k nready hfd ht with ⟨nready', hgo⟩ | hend
      · rw [hgo, scan_conn_outside (.inl (by omega)), Loop.turn_conn hfd]
      · rw [hend, Loop.turn_conn hfd]
    · rcases scan_turn k nready hfd ht with ⟨nready', hgo⟩ | hend
      · rw [hgo]
        have hrest := ih (i + 1) nready' (s.turn i t)
        rwa [Loop.turn_conn_of_ne hne, Loop.turn_fd_of_ne hne] at hrest
      · rw [hend, Loop.turn_conn_of_ne hne]
        exact .inl rfl

end Scan

/-! ## Iterations -/

section Iterate

variable {n : ℕ} {s s' : Loop} {x : Tick} {accept : Accept} {i j : ℕ}

theorem freeSlot_cases (n : ℕ) (s : Loop) : (s.freeSlot n < n ∧ s.fd (s.freeSlot n) < 0) ∨
    (s.freeSlot n = n ∧ ∀ i < n, 0 ≤ s.fd i) := by
  unfold Loop.freeSlot
  cases hfind : (List.range n).find? fun i => s.fd i < 0 with
  | none =>
    refine .inr ⟨rfl, fun i hi => ?_⟩
    have hno := List.find?_eq_none.1 hfind i (List.mem_range.2 hi)
    simpa using hno
  | some i =>
    have hlt := List.mem_range.1 (List.mem_of_find?_eq_some hfind)
    have hfree := List.find?_some hfind
    exact .inl ⟨hlt, by simpa using hfree⟩

/-- **The outcomes** of an iteration that does not return: `poll` fails, or the clients are scanned, at most, after what
`accept` returned is in the table, if the iteration comes to that. -/
theorem iterate_cases (h : s.iterate n x = .inr s') :
    (¬ s.Admits x ∧ s' = s) ∨
    (¬ s.Admits x ∧ ∃ nready, s' = Loop.scan x.turns s.ndx 1 nready s) ∨
    (s.Admits x ∧ s' = s.place n x.accept) ∨
    (s.Admits x ∧ ∃ nready, s' = Loop.scan x.turns (s.place n x.accept).ndx 1 nready (s.place n x.accept)) := by
  unfold Loop.iterate at h
  by_cases hstop : ¬ x.keep ∧ s.active = 0
  · rw [if_pos hstop] at h
    cases h
  rw [if_neg hstop] at h
  by_cases hquiet : x.nready = 0 ∧ ¬ x.keepAfter ∧ s.active = 0
  · rw [if_pos hquiet] at h
    cases h
  rw [if_neg hquiet] at h
  by_cases hpoll : x.nready < 0
  · rw [if_pos hpoll] at h
    cases h
    exact .inl ⟨fun hadm => absurd hpoll (not_lt.2 hadm.2.2.1), rfl⟩
  rw [if_neg hpoll] at h
  by_cases hlisten : x.listening
  · rw [if_pos hlisten] at h
    by_cases hfailed : x.accept = .failed
    · rw [if_pos hfailed] at h
      cases h
    rw [if_neg hfailed] at h
    have hadm : s.Admits x := ⟨hstop, hquiet, not_lt.1 hpoll, hlisten, hfailed⟩
    dsimp only at h
    split_ifs at h
    · cases h
      exact .inr (.inr (.inl ⟨hadm, rfl⟩))
    · cases h
      exact .inr (.inr (.inr ⟨hadm, _, rfl⟩))
  · rw [if_neg hlisten] at h
    cases h
    exact .inr (.inl ⟨fun hadm => hlisten hadm.2.2.2.1, _, rfl⟩)

theorem Loop.Admits.goes_on (h : s.Admits x) : ∃ s', s.iterate n x = .inr s' := by
  obtain ⟨hstop, hquiet, hpoll, hlisten, hfailed⟩ := h
  unfold Loop.iterate
  rw [if_neg hstop, if_neg hquiet, if_neg (not_lt.2 hpoll), if_pos hlisten, if_neg hfailed]
  dsimp only
  split_ifs
  · exact ⟨_, rfl⟩
  · exact ⟨_, rfl⟩

@[simp] theorem Loop.place_ndx : (s.place n accept).ndx = max s.ndx (s.freeSlot n) := by
  unfold Loop.place
  dsimp only
  split_ifs <;> rfl

@[simp] theorem Loop.place_active : (s.place n accept).active = s.active + 1 := by
  unfold Loop.place
  dsimp only
  split_ifs <;> rfl

theorem Loop.place_fd_of_ne (h : j ≠ s.freeSlot n) : (s.place n accept).fd j = s.fd j := by
  unfold Loop.place
  dsimp only
  split_ifs
  · exact update_of_ne h _ _
  · rfl

theorem Loop.place_conn_of_ne (h : j ≠ s.freeSlot n) : (s.place n accept).conn j = s.conn j := by
  have hfd : (s.place n accept).fd j = s.fd j := Loop.place_fd_of_ne h
  unfold Loop.conn
  rw [hfd]
  unfold Loop.place
  dsimp only
  split_ifs
  · simp [h]
  · rfl

theorem Loop.place_of_free (h : s.freeSlot n < n) : (s.place n accept).fd = update s.fd (s.freeSlot n) accept.connfd := by
  unfold Loop.place
  dsimp only
  rw [if_pos h]

theorem place_conn {fd : ℕ} {ms : List WireMsg} (h : s.freeSlot n < n) :
    (s.place n (.conn fd (ms.flatMap WireMsg.bytes))).conn (s.freeSlot n) = .start ms := by
  unfold Loop.conn
  rw [Loop.place_of_free h]
  unfold Loop.place
  dsimp only
  rw [if_pos h]
  simp [Conn.start, Accept.connfd, Accept.bytes]

/-- **An iteration leaves alone** the slots past the last that it uses. -/
theorem iterate_frame (h : s.iterate n x = .inr s') (hj : s.lastSlot n x < j) : s'.conn j = s.conn j := by
  unfold Loop.lastSlot at hj
  rcases iterate_cases h with ⟨-, rfl⟩ | ⟨hadm, nready, rfl⟩ | ⟨hadm, rfl⟩ | ⟨hadm, nready, rfl⟩
  · rfl
  · rw [if_neg hadm] at hj
    exact scan_conn_outside (.inr (by omega))
  · rw [if_pos hadm] at hj
    exact Loop.place_conn_of_ne (by omega)
  · rw [if_pos hadm] at hj
    rw [scan_conn_outside (.inr (by rw [Loop.place_ndx]; omega)), Loop.place_conn_of_ne (by omega)]

/-- **A client in the table** keeps its slot, and has at most one turn in an iteration. -/
theorem iterate_conn (h : s.iterate n x = .inr s') (hj : j < n) (hfd : 0 ≤ s.fd j) :
    s'.conn j = s.conn j ∨ ∃ buf t, x.turns j = some t ∧ s'.conn j = (s.conn j).turn (buf, t) := by
  have hne : j ≠ s.freeSlot n := by
    rintro rfl
    rcases freeSlot_cases n s with ⟨-, hfree⟩ | ⟨hend, -⟩
    · exact absurd hfd (not_le.2 hfree)
    · omega
  rcases iterate_cases h with ⟨-, rfl⟩ | ⟨-, nready, rfl⟩ | ⟨-, rfl⟩ | ⟨-, nready, rfl⟩
  · exact .inl rfl
  · rcases scan_conn x.turns s.ndx 1 nready s j with hsame | ⟨buf, t, -, ht, hturn⟩
    · exact .inl hsame
    · exact .inr ⟨buf, t, ht, hturn⟩
  · exact .inl (Loop.place_conn_of_ne hne)
  · rcases scan_conn x.turns (s.place n x.accept).ndx 1 nready (s.place n x.accept) j with hsame | ⟨buf, t, -, ht, hturn⟩
    · exact .inl (hsame.trans (Loop.place_conn_of_ne hne))
    · exact .inr ⟨buf, t, ht, hturn.trans (by rw [Loop.place_conn_of_ne hne])⟩

/-- **A client that is accepted**, and is not yet among those that are ready, starts with the bytes it sends. -/
theorem accept_conn {fd : ℕ} {ms : List WireMsg} (hadm : s.Admits x) (hlt : s.freeSlot n < n)
    (haccept : x.accept = .conn fd (ms.flatMap WireMsg.bytes)) (hturn : x.turns (s.freeSlot n) = none)
    (h : s.iterate n x = .inr s') : s'.conn (s.freeSlot n) = .start ms := by
  have hplace : (s.place n x.accept).conn (s.freeSlot n) = .start ms := by
    rw [haccept]
    exact place_conn hlt
  rcases iterate_cases h with ⟨hno, -⟩ | ⟨hno, -⟩ | ⟨-, rfl⟩ | ⟨-, nready, rfl⟩
  · exact absurd hadm hno
  · exact absurd hadm hno
  · exact hplace
  · rcases scan_conn x.turns (s.place n x.accept).ndx 1 nready (s.place n x.accept) (s.freeSlot n) with
      hsame | ⟨buf, t, -, ht, -⟩
    · exact hsame.trans hplace
    · rw [hturn] at ht
      cases ht

/-- the client in slot `j` has a turn only when it has sent something, each of the two reads brings all it asks for, and the
handler returns 0 -/
def TurnWhole (j : ℕ) (s : Loop) (x : Tick) : Prop :=
  ∀ t, x.turns j = some t → s.stream j ≠ [] ∧ HdrWhole (s.stream j) t ∧ DataWhole (s.stream j) t ∧ t.err = 0

/-- an iteration keeps the requests of a client framed when its turn reads whole -/
theorem iterate_framed {ms : List WireMsg} (h : s.iterate n x = .inr s') (hj : j < n) (hf : Framed ms (s.conn j))
    (hwhole : TurnWhole j s x) : Framed ms (s'.conn j) := by
  have hfd : 0 ≤ s.fd j := of_decide_eq_true hf.connected
  rcases iterate_conn h hj hfd with hsame | ⟨buf, t, ht, hturn⟩
  · rw [hsame]
    exact hf
  · obtain ⟨hs, hread⟩ := hwhole t ht
    have hw : ReadsWhole (s.conn j) (buf, t) := fun _ _ => hread
    exact (keepsFramed_iff hf).2 hw _ ((connStep_eq hf.connected hs).trans (by rw [hturn]))

end Iterate

/-! ## Counting the clients -/

/-- the slots in [1, n) with a descriptor -/
def clientSlots (n : ℕ) (fd : ℕ → ℤ) : Finset ℕ := (Finset.Ico 1 n).filter fun i => 0 ≤ fd i

section Count

variable {n i : ℕ} {fd : ℕ → ℤ} {v : ℤ}

theorem mem_clientSlots : i ∈ clientSlots n fd ↔ (1 ≤ i ∧ i < n) ∧ 0 ≤ fd i := by
  rw [clientSlots, Finset.mem_filter, Finset.mem_Ico]

theorem clientSlots_taken (hi : 1 ≤ i) (hn : i < n) (hfree : fd i < 0) (hv : 0 ≤ v) :
    (clientSlots n (update fd i v)).card = (clientSlots n fd).card + 1 := by
  have hnew : i ∉ clientSlots n fd := fun hmem => absurd (mem_clientSlots.1 hmem).2 (not_le.2 hfree)
  rw [← Finset.card_insert_of_notMem hnew]
  congr 1
  ext j
  rcases eq_or_ne j i with rfl | hne
  · simp [mem_clientSlots, hi, hn, hv]
  · simp [mem_clientSlots, hne]

theorem clientSlots_freed (hi : 1 ≤ i) (hn : i < n) (hfd : 0 ≤ fd i) (hv : v < 0) :
    (clientSlots n (update fd i v)).card + 1 = (clientSlots n fd).card := by
  have hold : i ∈ clientSlots n fd := mem_clientSlots.2 ⟨⟨hi, hn⟩, hfd⟩
  rw [← Finset.card_erase_add_one hold]
  congr 2
  ext j
  rcases eq_or_ne j i with rfl | hne
  · simp [mem_clientSlots, not_le.2 hv]
  · simp [mem_clientSlots, hne]

theorem clientSlots_same (hfree : fd i < 0) (hv : v < 0) : clientSlots n (update fd i v) = clientSlots n fd := by
  ext j
  rcases eq_or_ne j i with rfl | hne
  · simp [mem_clientSlots, not_le.2 hv, not_le.2 hfree]
  · simp [mem_clientSlots, hne]

end Count

/-- how far `active_clients` is from the number of clients -/
def Loop.excess (n : ℕ) (s : Loop) : ℤ := s.active - (clientSlots n s.fd).card

section Excess

variable {n : ℕ} {s : Loop} {accept : Accept} {t : TurnInput} {i : ℕ}

/-- **A turn** counts the client it disconnects. -/
theorem Loop.turn_excess (hi : 1 ≤ i) (hn : i < n) (hfd : 0 ≤ s.fd i) : (s.turn i t).excess n = s.excess n := by
  have hfreed := clientSlots_freed hi hn hfd (show flaDaemonFdFree < 0 by decide)
  unfold Loop.turn Loop.excess
  dsimp only
  split_ifs
  · rfl
  · simp only [Loop.clientDisconnect]
    omega

theorem scan_excess (turns : ℕ → Option TurnInput) (nready : ℤ) {k : ℕ} (hk : k < n) :
    (Loop.scan turns k 1 nready s).excess n = s.excess n ∧ (Loop.scan turns k 1 nready s).ndx = s.ndx ∧
      (Loop.scan turns k 1 nready s).fd 0 = s.fd 0 := by
  have hhi : 1 + k ≤ n := by omega
  refine scan_inv (P := fun s' => s'.excess n = s.excess n ∧ s'.ndx = s.ndx ∧ s'.fd 0 = s.fd 0)
    (fun s' i t hi hn hfd ⟨hexcess, hndx, hzero⟩ => ?_) le_rfl hhi ⟨rfl, rfl, rfl⟩
  exact ⟨(Loop.turn_excess hi hn hfd).trans hexcess, Loop.turn_ndx.trans hndx,
    (Loop.turn_fd_of_ne (by omega)).trans hzero⟩

theorem place_conn_excess {fd : ℕ} {bytes : List UInt8} (hone : 1 ≤ s.freeSlot n) (hlt : s.freeSlot n < n)
    (hfree : s.fd (s.freeSlot n) < 0) : (s.place n (.conn fd bytes)).excess n = s.excess n := by
  have htaken := clientSlots_taken hone hlt hfree (Int.natCast_nonneg fd)
  unfold Loop.excess
  rw [Loop.place_of_free hlt, Loop.place_active, Accept.connfd, htaken]
  push_cast
  omega

/-- what is not a client is counted all the same -/
theorem place_again_excess (hlt : s.freeSlot n < n) (hfree : s.fd (s.freeSlot n) < 0) :
    (s.place n .again).excess n = s.excess n + 1 := by
  have hsame : clientSlots n (update s.fd (s.freeSlot n) Accept.again.connfd) = clientSlots n s.fd :=
    clientSlots_same hfree (by decide)
  unfold Loop.excess
  rw [Loop.place_of_free hlt, Loop.place_active, hsame]
  omega

end Excess

/-! ## Whole runs -/

/-- the table at the top of an iteration: `active_clients` is the number of clients, `max_clients_ndx` is in the table, and
the loop ends when it is told to and no client is left -/
structure Orderly (n : ℕ) (s : Loop) : Prop where
  active : s.active = (clientSlots n s.fd).card
  ndx : s.ndx < n
  ends : ∀ x : Tick, x.keep = false → (∀ i, 1 ≤ i → i < n → s.fd i < 0) → s.iterate n x = .inl 0

/-- the iteration uses slots of the table only, and the table is orderly at the top of the next -/
def KeepsOrder (n : ℕ) (s : Loop) (x : Tick) : Prop :=
  s.lastSlot n x < n ∧ ∀ s', s.iterate n x = .inr s' → Orderly n s'

/-- a client that is accepted finds a free slot, and `accept` does not fail with `EAGAIN` -/
def RoomForClient (n : ℕ) (s : Loop) (x : Tick) : Prop :=
  s.Admits x → x.accept ≠ .again ∧ ∃ i, 1 ≤ i ∧ i < n ∧ s.fd i < 0

/-- one iteration that does not return -/
def loopStep (n : ℕ) (s : Loop) (x : Tick) : Option Loop := (s.iterate n x).getRight?

/-- the table is orderly at the top of every iteration, and no iteration uses a slot past it -/
def Consistent (n : ℕ) (s : Loop) (xs : List Tick) : Prop := Orderly n s ∧ along (KeepsOrder n) (loopStep n) s xs

/-- the table as the loop finds it -/
structure Tidy (n : ℕ) (s : Loop) : Prop where
  excess : s.excess n = 0
  ndx : s.ndx < n
  listens : 0 ≤ s.fd 0

section Runs

variable {n : ℕ} {s s' : Loop} {x : Tick}

theorem Tidy.orderly (h : Tidy n s) : Orderly n s := by
  have hexcess := h.excess
  unfold Loop.excess at hexcess
  have hactive : s.active = (clientSlots n s.fd).card := by omega
  refine ⟨hactive, h.ndx, fun x hkeep hfree => ?_⟩
  have hnone : clientSlots n s.fd = ∅ := by
    refine Finset.eq_empty_of_forall_notMem fun i hi => ?_
    obtain ⟨⟨hone, hlt⟩, hfd⟩ := mem_clientSlots.1 hi
    exact absurd hfd (not_le.2 (hfree i hone hlt))
  rw [hnone, Finset.card_empty] at hactive
  exact if_pos ⟨by simp [hkeep], hactive⟩

theorem Orderly.excess (h : Orderly n s) : s.excess n = 0 := by
  have hactive := h.active
  unfold Loop.excess
  omega

/-- slot 0 is never given to a client -/
theorem Tidy.freeSlot_pos (h : Tidy n s) (hfree : s.fd (s.freeSlot n) < 0) : 1 ≤ s.freeSlot n := by
  refine Nat.pos_of_ne_zero fun hzero => ?_
  rw [hzero] at hfree
  exact absurd h.listens (not_le.2 hfree)

theorem Tidy.freeSlot_lt_iff (h : Tidy n s) : s.freeSlot n < n ↔ ∃ i, 1 ≤ i ∧ i < n ∧ s.fd i < 0 := by
  rcases freeSlot_cases n s with ⟨hlt, hfree⟩ | ⟨hend, hfull⟩
  · exact iff_of_true hlt ⟨_, h.freeSlot_pos hfree, hlt, hfree⟩
  · refine iff_of_false (by omega) ?_
    rintro ⟨i, -, hlt, hfree⟩
    exact absurd (hfull i hlt) (not_le.2 hfree)

theorem freeSlot_free (hlt : s.freeSlot n < n) : s.fd (s.freeSlot n) < 0 := by
  rcases freeSlot_cases n s with ⟨-, hfree⟩ | ⟨hend, -⟩
  · exact hfree
  · omega

/-- **Without an accept** an iteration keeps the table. -/
theorem Tidy.idle (h : Tidy n s) (hadm : ¬ s.Admits x) (hstep : s.iterate n x = .inr s') : Tidy n s' := by
  rcases iterate_cases hstep with ⟨-, rfl⟩ | ⟨-, nready, rfl⟩ | ⟨hadm', -⟩ | ⟨hadm', -⟩
  · exact h
  · obtain ⟨hexcess, hndx, hzero⟩ := scan_excess x.turns nready h.ndx
    exact ⟨hexcess.trans h.excess, hndx.trans_lt h.ndx, h.listens.trans_eq hzero.symm⟩
  · exact absurd hadm' hadm
  · exact absurd hadm' hadm

/-- **With an accept** it changes the count as putting what was accepted in the table does. -/
theorem Tidy.admit (h : Tidy n s) (hadm : s.Admits x) (hlt : s.freeSlot n < n) (hstep : s.iterate n x = .inr s') :
    s'.excess n = (s.place n x.accept).excess n ∧ s'.ndx < n ∧ 0 ≤ s'.fd 0 := by
  have hndx : (s.place n x.accept).ndx < n := by
    rw [Loop.place_ndx]
    exact max_lt h.ndx hlt
  have hzero : (s.place n x.accept).fd 0 = s.fd 0 :=
    Loop.place_fd_of_ne (Nat.ne_of_lt (h.freeSlot_pos (freeSlot_free hlt)))
  rcases iterate_cases hstep with ⟨hadm', -⟩ | ⟨hadm', -⟩ | ⟨-, rfl⟩ | ⟨-, nready, rfl⟩
  · exact absurd hadm hadm'
  · exact absurd hadm hadm'
  · exact ⟨rfl, hndx, h.listens.trans_eq hzero.symm⟩
  · obtain ⟨hexcess, hndx', hzero'⟩ := scan_excess x.turns nready hndx
    exact ⟨hexcess, hndx'.trans_lt hndx, h.listens.trans_eq (hzero'.trans hzero).symm⟩

/-- **An iteration** with room for what it accepts keeps the table. -/
theorem Tidy.step (h : Tidy n s) (hroom : RoomForClient n s x) (hstep : s.iterate n x = .inr s') : Tidy n s' := by
  by_cases hadm : s.Admits x
  swap
  · exact h.idle hadm hstep
  obtain ⟨hagain, hfree⟩ := hroom hadm
  have hlt := h.freeSlot_lt_iff.2 hfree
  obtain ⟨hexcess, hndx, hzero⟩ := h.admit hadm hlt hstep
  refine ⟨hexcess.trans ?_, hndx, hzero⟩
  cases haccept : x.accept with
  | conn fd bytes =>
    rw [place_conn_excess (h.freeSlot_pos (freeSlot_free hlt)) hlt (freeSlot_free hlt)]
    exact h.excess
  | again => exact absurd haccept hagain
  | failed => exact absurd haccept hadm.2.2.2.2

theorem keepsOrder_iff (h : Tidy n s) : KeepsOrder n s x ↔ RoomForClient n s x := by
  constructor
  · rintro ⟨hlast, hnext⟩ hadm
    rw [Loop.lastSlot, if_pos hadm] at hlast
    have hlt := (max_lt_iff.1 hlast).2
    refine ⟨fun hagain => ?_, h.freeSlot_lt_iff.1 hlt⟩
    -- the client that is not there is counted, and nothing uncounts it
    obtain ⟨s', hstep⟩ := hadm.goes_on (n := n)
    obtain ⟨hexcess, -, -⟩ := h.admit hadm hlt hstep
    rw [hagain, place_again_excess hlt (freeSlot_free hlt), h.excess, (hnext s' hstep).excess] at hexcess
    exact absurd hexcess (by decide)
  · intro hroom
    refine ⟨?_, fun s' hstep => (h.step hroom hstep).orderly⟩
    unfold Loop.lastSlot
    split_ifs with hadm
    · exact max_lt h.ndx (h.freeSlot_lt_iff.2 (hroom hadm).2)
    · exact h.ndx

theorem tidy_start {n : ℕ} (hn : 2 ≤ n) (listenFd : ℕ) (mem : ℕ → ℤ) (buf : Bytes) :
    Tidy n (.start n listenFd mem buf) := by
  have hnone : clientSlots n (Loop.start n listenFd mem buf).fd = ∅ := by
    refine Finset.eq_empty_of_forall_notMem fun i hi => ?_
    obtain ⟨⟨hone, hlt⟩, hfd⟩ := mem_clientSlots.1 hi
    have hfree : (Loop.start n listenFd mem buf).fd i = flaDaemonFdFree := by
      simp [Loop.start, hlt]
      omega
    rw [hfree] at hfd
    exact absurd hfd (by decide)
  refine ⟨?_, Nat.lt_of_lt_of_le Nat.zero_lt_two hn, Int.natCast_nonneg listenFd⟩
  rw [Loop.excess, hnone, Finset.card_empty]
  rfl

theorem loopStep_eq_some (h : loopStep n s x = some s') : s.iterate n x = .inr s' := by
  unfold loopStep at h
  exact Sum.getRight?_eq_some_iff.1 h

/-- **Framing in the loop.** A client that is accepted has its requests passed on, each once and in order, in every run of the
loop from there whose turns read whole for it. -/
theorem loop_framed {fd : ℕ} {ms : List WireMsg} (hadm : s.Admits x) (hlt : s.freeSlot n < n)
    (haccept : x.accept = .conn fd (ms.flatMap WireMsg.bytes)) (hturn : x.turns (s.freeSlot n) = none)
    (hstep : loopStep n s x = some s') {t : Loop} {xs : List Tick}
    (hwhole : along (TurnWhole (s.freeSlot n)) (loopStep n) s' xs) (hrun : run (loopStep n) s' xs = some t) :
    Framed ms (t.conn (s.freeSlot n)) := by
  have hstart : Framed ms (s'.conn (s.freeSlot n)) := by
    rw [accept_conn hadm hlt haccept hturn (loopStep_eq_some hstep)]
    exact Framed.start ms
  have hkeep : ∀ u x w, Framed ms (u.conn (s.freeSlot n)) → TurnWhole (s.freeSlot n) u x → True →
      loopStep n u x = some w → Framed ms (w.conn (s.freeSlot n)) :=
    fun _ _ _ hf hread _ hnext => iterate_framed (loopStep_eq_some hnext) hlt hf hread
  exact run_inv_along hkeep hstart (fun _ _ => trivial) hwhole hrun

theorem Tidy.consistent_iff (h : Tidy n s) (xs : List Tick) :
    Consistent n s xs ↔ along (RoomForClient n) (loopStep n) s xs := by
  have hkeep : ∀ s x s', Tidy n s → RoomForClient n s x → loopStep n s x = some s' → Tidy n s' :=
    fun _ _ _ htidy hroom hstep => htidy.step hroom (loopStep_eq_some hstep)
  have hiff : ∀ s x, Tidy n s → (KeepsOrder n s x ↔ RoomForClient n s x) := fun _ _ htidy => keepsOrder_iff htidy
  rw [Consistent, and_iff_right h.orderly]
  exact along_iff hiff hkeep h xs

/-- **The table of clients.** For every size of the table and every run of the loop: `active_clients` counts the clients at
the top of every iteration, no slot past the table is used, and the loop ends when it is told to and no client is left, if
and only if every client that is accepted finds a free slot and `accept` never fails with `EAGAIN`. -/
theorem clients_consistent_iff {n : ℕ} (hn : 2 ≤ n) (listenFd : ℕ) (mem : ℕ → ℤ) (buf : Bytes) (xs : List Tick) :
    Consistent n (.start n listenFd mem buf) xs ↔
      along (RoomForClient n) (loopStep n) (.start n listenFd mem buf) xs :=
  (tidy_start hn listenFd mem buf).consistent_iff xs

/-- `accept` returns that, and no client is ready -/
def accepting (accept : Accept) : Tick := ⟨true, true, 1, true, accept, fun _ => none⟩

/-- one client in a table of two -/
theorem clients_consistent_one : Consistent 2 (.start 2 3 0 0) [accepting (.conn 4 [])] := by
  refine (clients_consistent_iff le_rfl 3 0 0 _).2 ⟨fun _ => ⟨nofun, 1, le_rfl, by decide, by decide⟩, fun _ _ => trivial⟩

/-- **Past the table**: a second client in a table of two is closed, but counted, and slot 2 is polled from then on. And
an `accept` that fails with `EAGAIN` is counted as a client. -/
theorem table_overrun : ¬ Consistent 2 (.start 2 3 0 0) [accepting (.conn 4 []), accepting (.conn 5 [])] ∧
    ¬ Consistent 2 (.start 2 3 0 0) [accepting .again] := by
  have htidy := tidy_start le_rfl 3 0 0
  constructor
  · intro h
    obtain ⟨-, hrest⟩ := (htidy.consistent_iff _).1 h
    obtain ⟨hroom, -⟩ := hrest _ rfl
    obtain ⟨-, i, hone, hlt, hfree⟩ := hroom (by decide)
    obtain rfl : i = 1 := by omega
    exact absurd hfree (by decide)
  · intro h
    obtain ⟨hroom, -⟩ := (htidy.consistent_iff _).1 h
    exact (hroom (by decide)).1 rfl

end Runs

end FlexAlloc
