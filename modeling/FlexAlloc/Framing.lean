/-
A connection: the requests that a client sends, one after another on a stream, and the turns of `fla_daemon_loop` that
read them.

The stream may be cut anywhere, so a read may bring a part of a request, or the header without all of the data. What the
receive buffer holds before a turn comes from the turns of other clients.

- `turn_passes`: a request that is read whole is the one that was sent.
- `framing_iff`: the requests are passed on one by one, and the client stays, exactly as long as every read brings all it
  asks for and every handler returns 0. `framing_complete`: then they all are. `split_header_dropped`.
-/
import FlexAlloc.ClientTurn

namespace FlexAlloc

open FlexAlloc.Core

/-! ## Requests on the wire -/

/-- a request that a client sends -/
structure WireMsg where
  cmd : ℕ
  tag : ℕ
  data : List UInt8
  cmd_lt : cmd < 2 ^ 16
  tag_lt : tag < 2 ^ 16
  len_le : data.length ≤ flaMsgDataMax

namespace WireMsg

/-- `struct fla_msg_header` -/
def header (m : WireMsg) : Bytes := record [(4, m.data.length), (2, m.cmd), (2, m.tag)]

/-- the bytes that `fla_sock_send_msg` sends -/
def bytes (m : WireMsg) : List UInt8 := (List.range sizeofFlaMsgHeader).map m.header ++ m.data

/-- what there is to see of it -/
def view (m : WireMsg) : ℕ × ℕ × List UInt8 := (m.cmd, m.tag, m.data)

end WireMsg

/-- the message in the buffer that `on_msg` is given -/
def passedAt (b : Bytes) : ℕ × ℕ × List UInt8 := (hdrCmd b, hdrTag b, payload (msgAt b))

section Wire

variable (m : WireMsg)

theorem WireMsg.bytes_length : m.bytes.length = sizeofFlaMsgHeader + m.data.length := by
  simp [WireMsg.bytes]

theorem stored_header (buf : Bytes) (rest : List UInt8) {i : ℕ} (hi : i < sizeofFlaMsgHeader) :
    store buf 0 (m.bytes ++ rest) i = m.header i := by
  have hlt : i < (m.bytes ++ rest).length := by
    rw [List.length_append, m.bytes_length]
    omega
  have hstore := store_at buf 0 hlt
  rw [Nat.zero_add] at hstore
  rw [hstore]
  simp [WireMsg.bytes, hi]

theorem stored_data (buf : Bytes) {i : ℕ} (hi : i < m.data.length) :
    store buf 0 m.bytes (sizeofFlaMsgHeader + i) = m.data[i] := by
  have hlt : sizeofFlaMsgHeader + i < m.bytes.length := by
    rw [m.bytes_length]
    omega
  have hstore := store_at buf 0 hlt
  rw [Nat.zero_add] at hstore
  rw [hstore]
  simp [WireMsg.bytes]

theorem stored_field (buf : Bytes) (rest : List UInt8) (pre post : List (ℕ × ℕ)) {width v : ℕ}
    (hrec : m.header = record (pre ++ (width, v) :: post)) (hsize : recordSize pre + width ≤ sizeofFlaMsgHeader)
    (hv : v < 256 ^ width) : leNat (store buf 0 (m.bytes ++ rest)) (recordSize pre) width = v := by
  have hfield : leNat (store buf 0 (m.bytes ++ rest)) (0 + recordSize pre) width = v % 256 ^ width := by
    refine leNat_record pre post fun i hi => ?_
    rw [Nat.zero_add, stored_header m buf rest (by omega), hrec]
  rwa [Nat.zero_add, Nat.mod_eq_of_lt hv] at hfield

theorem streamLen_bytes (rest : List UInt8) : streamLen (m.bytes ++ rest) = m.data.length := by
  have hlt : m.data.length < 256 ^ 4 := lt_of_le_of_lt m.len_le (by decide)
  exact stored_field m 0 rest [] [(2, m.cmd), (2, m.tag)] rfl (by decide) hlt

/-- **A request in the buffer** is seen as it was sent. -/
theorem passedAt_bytes (buf : Bytes) : passedAt (store buf 0 m.bytes) = m.view := by
  have hlen : hdrLen (store buf 0 m.bytes) = m.data.length := by
    have hlt : m.data.length < 256 ^ 4 := lt_of_le_of_lt m.len_le (by decide)
    have hfield := stored_field m buf [] [] [(2, m.cmd), (2, m.tag)] rfl (by decide) hlt
    rwa [List.append_nil] at hfield
  have hcmd : hdrCmd (store buf 0 m.bytes) = m.cmd := by
    have hfield := stored_field m buf [] [(4, m.data.length)] [(2, m.tag)] rfl (by simp [recordSize, sizeofFlaMsgHeader])
      m.cmd_lt
    rwa [List.append_nil] at hfield
  have htag : hdrTag (store buf 0 m.bytes) = m.tag := by
    have hfield := stored_field m buf [] [(4, m.data.length), (2, m.cmd)] [] rfl (by simp [recordSize, sizeofFlaMsgHeader])
      m.tag_lt
    rwa [List.append_nil] at hfield
  have hdata : payload (msgAt (store buf 0 m.bytes)) = m.data := by
    refine List.ext_getElem ?_ fun i hi hi' => ?_
    · simp [payload, msgAt, hlen]
    · simp [payload, msgAt, stored_data m buf hi']
  rw [passedAt, hcmd, htag, hdata, WireMsg.view]

end Wire

/-! ## A turn at the start of a request -/

section Turn

variable (buf : Bytes) (m : WireMsg) {rest : List UInt8} {x : TurnInput}

/-- **A request passed on**: it is the one that was sent, and no byte of the next is read. -/
theorem turn_passes (h : HdrWhole (m.bytes ++ rest) x) (hd : DataWhole (m.bytes ++ rest) x) :
    (clientTurn buf (m.bytes ++ rest) x).rest = rest ∧
      (clientTurn buf (m.bytes ++ rest) x).msg.map passedAt = some m.view ∧
      (clientTurn buf (m.bytes ++ rest) x).fin = if x.err = 0 then .kept else .dropped := by
  have hlen : sizeofFlaMsgHeader + streamLen (m.bytes ++ rest) = m.bytes.length := by
    rw [streamLen_bytes, m.bytes_length]
  have hdata : (dataBytes (m.bytes ++ rest) x).length = streamLen (m.bytes ++ rest) := Delivery.length_of_ret hd
  rw [turn_read h hd]
  refine ⟨?_, ?_, rfl⟩
  · rw [List.drop_drop, hdata, hlen, List.drop_left]
  · rw [hd.readBuf, hlen, List.take_left, Option.map_some, passedAt_bytes]

end Turn

/-! ## Connections -/

/-- a client at the daemon: the bytes it sends that are not yet read, and the messages that were passed to `on_msg` -/
structure Conn where
  stream : List UInt8
  connected : Bool
  passed : List (ℕ × ℕ × List UInt8)

/-- a client that will send these requests -/
def Conn.start (ms : List WireMsg) : Conn := ⟨ms.flatMap WireMsg.bytes, true, []⟩

/-- a turn of the client, from what the receive buffer holds -/
def Conn.turn (s : Conn) (t : Bytes × TurnInput) : Conn :=
  let r := clientTurn t.1 s.stream t.2
  ⟨r.rest, decide (r.fin = .kept), s.passed ++ (r.msg.map passedAt).toList⟩

/-- a turn of a client that is connected and has bytes to read -/
def connStep (s : Conn) (t : Bytes × TurnInput) : Option Conn :=
  if s.connected ∧ s.stream ≠ [] then some (s.turn t) else none

/-- the client is connected; the requests up to some point were passed on, each once and in order, and the stream holds
the others -/
structure Framed (ms : List WireMsg) (s : Conn) : Prop where
  connected : s.connected
  cut : ∃ sent todo, ms = sent ++ todo ∧ s.passed = sent.map WireMsg.view ∧ s.stream = todo.flatMap WireMsg.bytes

def KeepsFramed (ms : List WireMsg) (s : Conn) (t : Bytes × TurnInput) : Prop := ∀ s', connStep s t = some s' → Framed ms s'

/-- the turn of a connected client: each of the two reads brings all it asks for, and the handler returns 0 -/
def ReadsWhole (s : Conn) (t : Bytes × TurnInput) : Prop :=
  s.connected → s.stream ≠ [] → HdrWhole s.stream t.2 ∧ DataWhole s.stream t.2 ∧ t.2.err = 0

section Connection

variable {ms : List WireMsg} {s s' : Conn} {t : Bytes × TurnInput}

theorem connStep_eq (hc : s.connected) (hs : s.stream ≠ []) : connStep s t = some (s.turn t) := if_pos ⟨hc, hs⟩

/-- a read that brings less, or a handler that fails, costs the client its connection -/
theorem turn_kept_iff : (clientTurn t.1 s.stream t.2).fin = .kept ↔
    HdrWhole s.stream t.2 ∧ DataWhole s.stream t.2 ∧ t.2.err = 0 := by
  by_cases h : HdrWhole s.stream t.2
  · by_cases hd : DataWhole s.stream t.2
    · rw [turn_read h hd]
      simp [h, hd]
    · rw [turn_cut h hd]
      simp [hd]
  · rw [turn_short h]
    simp [h]

theorem Framed.next {sent todo : List WireMsg} {m : WireMsg} (hc : s.connected)
    (hpassed : s.passed = sent.map WireMsg.view) (hstream : s.stream = (m :: todo).flatMap WireMsg.bytes)
    (hs : s.stream ≠ []) (hread : ReadsWhole s t) :
    connStep s t = some ⟨todo.flatMap WireMsg.bytes, true, (sent ++ [m]).map WireMsg.view⟩ := by
  obtain ⟨h, hd, herr⟩ := hread hc hs
  have hkept := turn_kept_iff.2 (hread hc hs)
  rw [connStep_eq hc hs, Conn.turn, hkept]
  rw [hstream, List.flatMap_cons] at h hd ⊢
  obtain ⟨hrest, hmsg, -⟩ := turn_passes t.1 m h hd
  rw [hrest, hmsg, hpassed, List.map_append]
  rfl

theorem keepsFramed_iff (hf : Framed ms s) : KeepsFramed ms s t ↔ ReadsWhole s t := by
  constructor
  · intro hkeep hc hs
    have hf' := hkeep _ (connStep_eq hc hs)
    exact turn_kept_iff.1 (of_decide_eq_true hf'.connected)
  · intro hread s' hstep
    have hlive : s.connected ∧ s.stream ≠ [] := by
      by_contra hno
      rw [connStep, if_neg hno] at hstep
      cases hstep
    obtain ⟨sent, todo, hms, hpassed, hstream⟩ := hf.cut
    cases todo with
    | nil => exact absurd hstream hlive.2
    | cons m todo =>
      have hnext := Framed.next hlive.1 hpassed hstream hlive.2 hread
      cases hnext.symm.trans hstep
      exact ⟨rfl, sent ++ [m], todo, by rw [hms]; simp, rfl, rfl⟩

theorem Framed.start (ms : List WireMsg) : Framed ms (.start ms) := ⟨rfl, [], ms, rfl, rfl, rfl⟩

/-- **Framing.** For every list of requests and every way to cut their bytes, whatever the buffer holds before each turn:
along the run the requests are passed on, each once and in order, and the client stays connected, if and only if every read
brings all it asks for and every handler returns 0. -/
theorem framing_iff (ms : List WireMsg) (ts : List (Bytes × TurnInput)) :
    along (KeepsFramed ms) connStep (.start ms) ts ↔ along ReadsWhole connStep (.start ms) ts :=
  along_iff (fun _ _ (hf : Framed ms _) => keepsFramed_iff hf)
    (fun _ _ s' hf hread hstep => (keepsFramed_iff hf).2 hread s' hstep) (Framed.start ms) ts

theorem Framed.all (hf : Framed ms s) (hs : s.stream = []) : s.passed = ms.map WireMsg.view := by
  obtain ⟨sent, todo, hms, hpassed, hstream⟩ := hf.cut
  cases todo with
  | nil => rw [hpassed, hms, List.append_nil]
  | cons m todo =>
    have hlen := congrArg List.length (hstream.symm.trans hs)
    rw [List.flatMap_cons, List.length_append, m.bytes_length, List.length_nil] at hlen
    have hsize : sizeofFlaMsgHeader = 8 := rfl
    omega

theorem passes_rest (sent todo : List WireMsg) (ts : List (Bytes × TurnInput)) (hlen : ts.length = todo.length)
    (h : along ReadsWhole connStep ⟨todo.flatMap WireMsg.bytes, true, sent.map WireMsg.view⟩ ts) :
    run connStep ⟨todo.flatMap WireMsg.bytes, true, sent.map WireMsg.view⟩ ts =
      some ⟨[], true, (sent ++ todo).map WireMsg.view⟩ := by
  induction todo generalizing sent ts with
  | nil =>
    rw [List.length_eq_zero_iff.1 hlen, List.append_nil]
    rfl
  | cons m todo ih =>
    obtain ⟨t, ts, rfl⟩ := List.exists_cons_of_length_eq_add_one hlen
    obtain ⟨hread, hrest⟩ := h
    have hne : (m :: todo).flatMap WireMsg.bytes ≠ [] := by
      intro hnil
      have hzero := congrArg List.length hnil
      rw [List.flatMap_cons, List.length_append, m.bytes_length, List.length_nil] at hzero
      have hsize : sizeofFlaMsgHeader = 8 := rfl
      omega
    have hnext := Framed.next rfl rfl rfl hne hread
    rw [run, hnext, Option.bind_some, ih (sent ++ [m]) ts (Nat.succ.inj hlen) (hrest _ hnext), List.append_assoc]
    rfl

/-- **All requests are passed on**, when every read is whole and every handler returns 0. -/
theorem framing_complete (ms : List WireMsg) (ts : List (Bytes × TurnInput)) (hlen : ts.length = ms.length)
    (h : along ReadsWhole connStep (.start ms) ts) :
    run connStep (.start ms) ts = some ⟨[], true, ms.map WireMsg.view⟩ := passes_rest [] ms ts hlen h

def syncMsg : WireMsg := ⟨2, 0, [], by decide, by decide, by decide⟩

/-- **A header in two pieces**: the first read brings four bytes of it. -/
theorem split_header_dropped :
    ¬ along (KeepsFramed [syncMsg]) connStep (.start [syncMsg]) [(0, ⟨.upTo 3, .upTo 3, 0, 0⟩)] := by
  intro h
  have hne : (Conn.start [syncMsg]).stream ≠ [] := by decide +kernel
  obtain ⟨hhdr, -⟩ := (keepsFramed_iff (Framed.start [syncMsg])).1 h.1 rfl hne
  obtain ⟨-, k, hk, hlen⟩ := Delivery.ret_eq_iff.1 hhdr
  cases hk
  exact absurd hlen (by decide)

end Connection

end FlexAlloc
