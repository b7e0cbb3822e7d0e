/-
Messages over a stream socket: `fla_sock_send_msg` at one end, `fla_sock_recv_msg` at the other.

The kernel takes a message in pieces and hands it over in others, and either call may be interrupted or fail at any of
them. A sender stops at the first message that it cannot send.

- `sendBytes_prefix`: what went into the socket is the start of what was to be sent, and all of it when 0 is returned.
- `recvMsg_inv`: a receive that returns 0 has a complete message, or the stream is cut short under it.
- `messages_arrive`: each receive that returns 0 delivers the next of the messages sent, as it was sent.
-/
import FlexAlloc.Core.Run
import FlexAlloc.Framing

namespace FlexAlloc

open FlexAlloc.Core

/-! ## Sending -/

/-- one call of `send`: it takes at most `k` bytes, or fails -/
inductive Taken where
  | upTo (k : ℕ)
  | fail (errno : {e : ℤ // 0 < e})
deriving DecidableEq

/-- the loop of `fla_sock_send_bytes`: what it returns, the bytes that `send` has taken, and the calls to come -/
def sendBytes : ℕ → List UInt8 → ℤ → Stream' Taken → Ret (ℤ × List UInt8 × Stream' Taken)
  | 0, _, _, _ => .error .endless
  | fuel + 1, buf, errno, next =>
    if buf = [] then .ok (0, [], next)
    else
      match next.head with
      | .fail e => if e.1 = eINTR then sendBytes fuel buf e next.tail else .ok (-e, [], next.tail)
      | .upTo k =>
        if min k buf.length = 0 then .ok (if errno ≠ 0 then -errno else 1, [], next.tail)
        else do
          let (err, out, rest) ← sendBytes fuel (buf.drop k) errno next.tail
          .ok (err, buf.take k ++ out, rest)

def flaSockSendBytes (fuel : ℕ) (buf : List UInt8) (next : Stream' Taken) : Ret (ℤ × List UInt8 × Stream' Taken) :=
  sendBytes fuel buf 0 next

def flaSockSendMsg (fuel : ℕ) (m : WireMsg) (next : Stream' Taken) : Ret (ℤ × List UInt8 × Stream' Taken) :=
  flaSockSendBytes fuel m.bytes next

/-- messages sent one after another, up to the first that cannot be sent -/
def sendMsgs (fuel : ℕ) : List WireMsg → Stream' Taken → Ret (ℤ × List UInt8 × Stream' Taken)
  | [], next => .ok (0, [], next)
  | m :: ms, next => do
    let (err, out, next) ← flaSockSendMsg fuel m next
    if err ≠ 0 then .ok (err, out, next)
    else do
      let (err, out', next) ← sendMsgs fuel ms next
      .ok (err, out ++ out', next)

/-- `send` is not interrupted for ever -/
def Uninterrupted (next : Stream' Taken) : Prop := ∀ n, ∃ m, ∀ e, next.get (n + m) = .fail e → e.1 ≠ eINTR

section Send

variable {buf out : List UInt8} {errno err : ℤ} {next rest : Stream' Taken}

/-- **What was sent** is the start of what was to be sent, and all of it exactly when 0 is returned. -/
theorem sendBytes_prefix (fuel : ℕ) (herr : 0 ≤ errno) (h : sendBytes fuel buf errno next = .ok (err, out, rest)) :
    out <+: buf ∧ (err = 0 ↔ out = buf) := by
  induction fuel generalizing buf errno next out with
  | zero => cases h
  | succ fuel ih =>
    unfold sendBytes at h
    by_cases hbuf : buf = []
    · rw [if_pos hbuf] at h
      cases h
      exact ⟨List.nil_prefix, ⟨fun _ => hbuf.symm, fun _ => rfl⟩⟩
    rw [if_neg hbuf] at h
    -- a call that fails has sent nothing of what is left
    have hstop : ∀ {e : ℤ}, e ≠ 0 → ([] : List UInt8) <+: buf ∧ (e = 0 ↔ [] = buf) := fun he =>
      ⟨List.nil_prefix, ⟨fun h0 => absurd h0 he, fun hnil => absurd hnil.symm hbuf⟩⟩
    cases hd : next.head with
    | fail e =>
      rw [hd] at h
      dsimp only at h
      have hpos := e.2
      by_cases hintr : e.1 = eINTR
      · rw [if_pos hintr] at h
        exact ih hpos.le h
      · rw [if_neg hintr] at h
        cases h
        exact hstop (by omega)
    | upTo k =>
      rw [hd] at h
      dsimp only at h
      by_cases hnone : min k buf.length = 0
      · rw [if_pos hnone] at h
        cases h
        refine hstop ?_
        split_ifs with h0
        · omega
        · decide
      · rw [if_neg hnone] at h
        obtain ⟨⟨err₁, out₁, rest₁⟩, hrun, h⟩ := bind_eq_ok h
        cases h
        obtain ⟨hpre, hiff⟩ := ih herr hrun
        obtain ⟨left, hleft⟩ := hpre
        refine ⟨⟨left, by rw [List.append_assoc, hleft, List.take_append_drop]⟩, hiff.trans ⟨fun hall => ?_, fun hall => ?_⟩⟩
        · rw [hall, List.take_append_drop]
        · exact List.append_cancel_left (hall.trans (List.take_append_drop k buf).symm)

theorem sendBytes_mono {fuel fuel' : ℕ} (hle : fuel ≤ fuel') {r : ℤ × List UInt8 × Stream' Taken}
    (h : sendBytes fuel buf errno next = .ok r) : sendBytes fuel' buf errno next = .ok r := by
  induction fuel generalizing fuel' buf errno next r with
  | zero => cases h
  | succ fuel ih =>
    obtain ⟨fuel', rfl⟩ : ∃ k, fuel' = k + 1 := ⟨fuel' - 1, by omega⟩
    have hle' : fuel ≤ fuel' := Nat.le_of_succ_le_succ hle
    unfold sendBytes at h ⊢
    by_cases hbuf : buf = []
    · rw [if_pos hbuf] at h ⊢
      exact h
    rw [if_neg hbuf] at h ⊢
    cases hd : next.head with
    | fail e =>
      rw [hd] at h
      dsimp only at h ⊢
      split_ifs at h ⊢
      · exact ih hle' h
      · exact h
    | upTo k =>
      rw [hd] at h
      dsimp only at h ⊢
      by_cases hnone : min k buf.length = 0
      · rw [if_pos hnone] at h ⊢
        exact h
      · rw [if_neg hnone] at h ⊢
        obtain ⟨r₁, hrun, h⟩ := bind_eq_ok h
        rw [ih hle' hrun]
        exact h

theorem Uninterrupted.tail (h : Uninterrupted next) : Uninterrupted next.tail := fun n => by
  obtain ⟨m, hm⟩ := h (n + 1)
  exact ⟨m, fun e he => hm e (by rw [Nat.add_right_comm]; exact he)⟩

/-- the loop returns, and is not interrupted for ever after that -/
def Returns (buf : List UInt8) (errno : ℤ) (next : Stream' Taken) : Prop :=
  ∃ fuel err out rest, sendBytes fuel buf errno next = .ok (err, out, rest) ∧ Uninterrupted rest

theorem returns_nil (errno : ℤ) (hnext : Uninterrupted next) : Returns [] errno next :=
  ⟨1, 0, [], next, by rw [sendBytes, if_pos rfl], hnext⟩

theorem returns_upTo (hbuf : buf ≠ []) (hnext : Uninterrupted next) {k : ℕ} (hd : next.head = .upTo k)
    (h : min k buf.length ≠ 0 → Returns (buf.drop k) errno next.tail) : Returns buf errno next := by
  by_cases hnone : min k buf.length = 0
  · refine ⟨1, if errno ≠ 0 then -errno else 1, [], next.tail, ?_, hnext.tail⟩
    rw [sendBytes, if_neg hbuf, hd]
    exact if_pos hnone
  · obtain ⟨fuel, err, out, rest, hrun, hrest⟩ := h hnone
    refine ⟨fuel + 1, err, buf.take k ++ out, rest, ?_, hrest⟩
    rw [sendBytes, if_neg hbuf, hd]
    dsimp only
    rw [if_neg hnone, hrun, ok_bind]

theorem returns_fail (hbuf : buf ≠ []) (hnext : Uninterrupted next) {e : {e : ℤ // 0 < e}} (hd : next.head = .fail e)
    (h : e.1 = eINTR → Returns buf e next.tail) : Returns buf errno next := by
  by_cases hintr : e.1 = eINTR
  · obtain ⟨fuel, err, out, rest, hrun, hrest⟩ := h hintr
    refine ⟨fuel + 1, err, out, rest, ?_, hrest⟩
    rw [sendBytes, if_neg hbuf, hd]
    dsimp only
    rw [if_pos hintr, hrun]
  · refine ⟨1, -e, [], next.tail, ?_, hnext.tail⟩
    rw [sendBytes, if_neg hbuf, hd]
    exact if_neg hintr

/-- **A send returns**, unless it is interrupted for ever. -/
theorem sendBytes_returns (hnext : Uninterrupted next) (buf : List UInt8) (errno : ℤ) : Returns buf errno next := by
  -- on the bytes that are left, and for each number of them on the interrupts before the next call that is not
  induction hlen : buf.length using Nat.strong_induction_on generalizing buf errno next with
  | _ len ih =>
    obtain ⟨m, hm⟩ := hnext 0
    rw [Nat.zero_add] at hm
    induction m generalizing errno next with
    | zero =>
      by_cases hbuf : buf = []
      · exact hbuf ▸ returns_nil errno hnext
      cases hd : next.head with
      | fail e => exact returns_fail hbuf hnext hd fun hintr => absurd hintr (hm e hd)
      | upTo k =>
        refine returns_upTo hbuf hnext hd fun hsome => ih _ ?_ hnext.tail _ errno rfl
        rw [List.length_drop]
        omega
    | succ m ihm =>
      by_cases hbuf : buf = []
      · exact hbuf ▸ returns_nil errno hnext
      cases hd : next.head with
      | fail e => exact returns_fail hbuf hnext hd fun _ => ihm hnext.tail e hm
      | upTo k =>
        refine returns_upTo hbuf hnext hd fun hsome => ih _ ?_ hnext.tail _ errno rfl
        rw [List.length_drop]
        omega

end Send

/-! ## Sequences of messages -/

section Messages

variable {m : WireMsg} {ms : List WireMsg} {fuel fuel' : ℕ} {stream : List UInt8} {err : ℤ} {next rest : Stream' Taken}

/-- the messages that were sent whole, and a part of the next one if there was a failure -/
structure SentPart (ms : List WireMsg) (n : ℕ) (err : ℤ) (stream part : List UInt8) : Prop where
  le : n ≤ ms.length
  all : err = 0 ↔ n = ms.length
  stream_eq : stream = (ms.take n).flatMap WireMsg.bytes ++ part
  cut : ∃ m : WireMsg, part <+: m.bytes ∧ part.length < m.bytes.length
  none : err = 0 → part = []

theorem sendMsgs_sent (h : sendMsgs fuel ms next = .ok (err, stream, rest)) : ∃ n part, SentPart ms n err stream part := by
  induction ms generalizing next stream with
  | nil =>
    cases h
    refine ⟨0, [], le_rfl, ⟨fun _ => rfl, fun _ => rfl⟩, rfl, ⟨syncMsg, List.nil_prefix, ?_⟩, fun _ => rfl⟩
    rw [WireMsg.bytes_length]
    decide
  | cons m ms ih =>
    obtain ⟨⟨err₁, out, next₁⟩, hrun, h⟩ := bind_eq_ok h
    obtain ⟨hpre, hiff⟩ := sendBytes_prefix fuel le_rfl hrun
    dsimp only at h
    by_cases herr : err₁ ≠ 0
    · rw [if_pos herr] at h
      cases h
      have hne : stream ≠ m.bytes := fun hall => herr (hiff.2 hall)
      refine ⟨0, stream, Nat.zero_le _, ⟨fun h0 => absurd h0 herr, fun h0 => by cases h0⟩, rfl, ⟨m, hpre, ?_⟩,
        fun h0 => absurd h0 herr⟩
      exact lt_of_le_of_ne hpre.length_le fun hlen => hne (hpre.eq_of_length hlen)
    · rw [if_neg herr] at h
      obtain ⟨⟨err₂, out', next₂⟩, hrest, h⟩ := bind_eq_ok h
      cases h
      obtain ⟨n, part, hle, hall, heq, hpart, hnone⟩ := ih hrest
      refine ⟨n + 1, part, Nat.succ_le_succ hle, ?_, ?_, hpart, hnone⟩
      · rw [hall, List.length_cons, Nat.succ_inj]
      · rw [List.take_succ_cons, List.flatMap_cons, hiff.1 (not_not.1 herr), List.append_assoc]
        exact congrArg _ heq

theorem sendMsgs_mono (hle : fuel ≤ fuel') {r : ℤ × List UInt8 × Stream' Taken} (h : sendMsgs fuel ms next = .ok r) :
    sendMsgs fuel' ms next = .ok r := by
  induction ms generalizing next r with
  | nil => exact h
  | cons m ms ih =>
    obtain ⟨⟨err₁, out, next₁⟩, hrun, h⟩ := bind_eq_ok h
    have hrun' : flaSockSendMsg fuel' m next = .ok (err₁, out, next₁) := sendBytes_mono hle hrun
    rw [sendMsgs, hrun', ok_bind]
    dsimp only at h ⊢
    split_ifs at h ⊢
    · exact h
    · obtain ⟨r₂, hrest, h⟩ := bind_eq_ok h
      rw [ih hrest]
      exact h

theorem sendMsgs_returns (hnext : Uninterrupted next) (ms : List WireMsg) :
    ∃ fuel err stream rest, sendMsgs fuel ms next = .ok (err, stream, rest) := by
  induction ms generalizing next with
  | nil => exact ⟨0, 0, [], next, rfl⟩
  | cons m ms ih =>
    obtain ⟨fuel₁, err₁, out, next₁, hrun, hnext₁⟩ := sendBytes_returns hnext m.bytes 0
    obtain ⟨fuel₂, err₂, out', next₂, hrest⟩ := ih hnext₁
    have hrun' : flaSockSendMsg (max fuel₁ fuel₂) m next = .ok (err₁, out, next₁) := sendBytes_mono (le_max_left _ _) hrun
    have hrest' := sendMsgs_mono (le_max_right fuel₁ fuel₂) hrest
    by_cases herr : err₁ ≠ 0
    · refine ⟨max fuel₁ fuel₂, err₁, out, next₁, ?_⟩
      rw [sendMsgs, hrun', ok_bind]
      exact if_pos herr
    · refine ⟨max fuel₁ fuel₂, err₂, out ++ out', next₂, ?_⟩
      rw [sendMsgs, hrun', ok_bind]
      dsimp only
      rw [if_neg herr, hrest', ok_bind]

end Messages

/-! ## Receiving -/

section Receive

variable {m : WireMsg} {errno : ℤ} {buf b : Bytes} {stream tail rest : List UInt8} {next rest' : Stream' Delivery}

theorem hdrLen_of_stored {msg : List UInt8} (hlen : 4 ≤ msg.length) (hb : ∀ i (hi : i < msg.length), b i = msg[i]) :
    hdrLen b = streamLen msg := by
  refine leNat_congr fun i hi => ?_
  have hi' : i < msg.length := by omega
  rw [Nat.zero_add, hb i hi']
  have hat := store_at 0 0 hi'
  rw [Nat.zero_add] at hat
  exact hat.symm

/-- **A complete message** from a stream that starts with a message is that message. -/
theorem received_next (h : Received (m.bytes ++ tail) rest b) : rest = tail ∧ passedAt b = m.view := by
  obtain ⟨msg, hmsg, hlen, -, hb⟩ := h
  have hsize : sizeofFlaMsgHeader = 8 := rfl
  have hfront : streamLen msg = m.data.length := by
    rw [← streamLen_bytes m tail, hmsg]
    exact (streamLen_append (by omega)).symm
  rw [hdrLen_of_stored (by omega) hb, hfront, ← m.bytes_length] at hlen
  obtain ⟨rfl, rfl⟩ := List.append_inj hmsg hlen.symm
  refine ⟨rfl, ?_⟩
  have hbuf : store b 0 m.bytes = b := by
    funext i
    by_cases hi : i < m.bytes.length
    · have hat := store_at b 0 hi
      rw [Nat.zero_add] at hat
      exact hat.trans (hb i hi).symm
    · exact store_of_le (by omega)
  rw [← hbuf]
  exact passedAt_bytes m b

theorem not_received_part {part : List UInt8} (hpre : part <+: m.bytes) (hlt : part.length < m.bytes.length) :
    ¬ Received part rest b := by
  rintro ⟨msg, rfl, hlen, -, hb⟩
  obtain ⟨tail, htail⟩ := hpre
  have hsize : sizeofFlaMsgHeader = 8 := rfl
  have hfront : streamLen msg = m.data.length := by
    have hall := streamLen_bytes m []
    rw [List.append_nil, ← htail, List.append_assoc] at hall
    rw [← hall]
    exact (streamLen_append (by omega)).symm
  rw [hdrLen_of_stored (by omega) hb, hfront, ← m.bytes_length] at hlen
  rw [List.length_append] at hlt
  omega

/-- **A receive** returns, and what it returns 0 for is a complete message, or the stream was cut short under it. -/
theorem recvMsg_inv (herr : 0 ≤ errno) (buf : Bytes) (stream : List UInt8) (next : Stream' Delivery) :
    ∃ err b rest, flaSockRecvMsg errno buf stream next = .ok (err, b, rest) ∧
      (err = 0 → Received stream rest b ∨ CutShort buf stream next) := by
  have hpeek := recvHdr_inv stream 3 herr (setHdrCmd buf flaMsgCmdNull) next
  unfold flaSockRecvMsg
  generalize recvHdr stream 3 errno (setHdrCmd buf flaMsgCmdNull) next = r at hpeek
  have hsize : sizeofFlaMsgHeader = 8 := rfl
  cases hpeek with
  | failed hne => exact ⟨_, _, _, rfl, fun h0 => absurd h0 hne⟩
  | @whole b₁ errno₁ retries₁ rest₁ hs hlen hpos hquiet =>
    dsimp only
    by_cases hlong : flaMsgDataMax < hdrLen b₁
    · exact ⟨2, b₁, stream, if_pos hlong, fun h0 => absurd h0 (by decide)⟩
    rw [if_neg hlong, hlen]
    rw [hlen] at hlong
    obtain ⟨err, b₂, rest₂, hrun, hzero⟩ := recvData_inv _ (sizeofFlaMsgHeader + streamLen stream) 0 retries₁ errno₁ b₁
      stream rest₁ (Nat.lt_succ_self _) hpos
    refine ⟨err, b₂, rest₂, hrun, fun h0 => ?_⟩
    rcases hzero h0 with ⟨bs, hbs, hbslen, hstore⟩ | ⟨herr0, hshort, hend⟩
    · have hfront : streamLen stream = streamLen bs := by
        rw [hbs]
        exact streamLen_append (by omega)
      rw [hfront] at hbslen hlong
      rw [hbs, hstore]
      exact .inl (received_of_stored hbslen (not_lt.1 hlong) b₁)
    · exact .inr (.inside hs (not_lt.1 hlong) hshort (hquiet herr0).2 hend)
  | @closed b₁ errno₁ retries₁ rest₁ hs hlen hpos hquiet =>
    dsimp only
    by_cases hlong : flaMsgDataMax < hdrLen b₁
    · exact ⟨2, b₁, stream, if_pos hlong, fun h0 => absurd h0 (by decide)⟩
    rw [if_neg hlong]
    obtain ⟨err, b₂, rest₂, hrun, hzero⟩ := recvData_inv _ (sizeofFlaMsgHeader + hdrLen b₁) 0 retries₁ errno₁ b₁
      stream rest₁ (Nat.lt_succ_self _) hpos
    refine ⟨err, b₂, rest₂, hrun, fun h0 => .inr ?_⟩
    rcases hzero h0 with ⟨bs, hbs, hbslen, -⟩ | ⟨herr0, -, hend⟩
    · rw [hs] at hbs
      rw [(List.append_eq_nil_iff.1 hbs.symm).1, List.length_nil] at hbslen
      omega
    · obtain ⟨-, k, hd, rfl⟩ := hquiet herr0
      rw [hlen, hdrLen_setHdrCmd] at hlong
      rw [hs] at hend
      cases hend with
      | ended hd' => exact .before hs (not_lt.1 hlong) hd hd'
      | more hm _ _ => exact absurd hm (Nat.lt_irrefl 0)

/-- no call fails from here on -/
def Unfailing (next : Stream' Delivery) : Prop := ∀ n, ∃ k, next.get n = .upTo k

theorem recvData_all (fuel nleft off retries : ℕ) (hnext : Unfailing next) (hfuel : nleft < fuel)
    (hle : nleft ≤ stream.length) (b : Bytes) :
    recvData fuel nleft off retries errno b stream next =
      .ok (if hdrCmd (store b off (stream.take nleft)) = flaMsgCmdNull then 1 else 0, store b off (stream.take nleft),
        stream.drop nleft) := by
  induction fuel generalizing nleft off stream next b with
  | zero => omega
  | succ fuel ih =>
    by_cases hleft : nleft = 0
    · subst hleft
      rw [recvData, if_pos rfl, List.take_zero, store_nil, List.drop_zero]
    obtain ⟨k, hd⟩ := hnext 0
    have hd' : next.head = .upTo k := hd
    have hn : 0 < next.head.ret nleft stream :=
      (Delivery.ret_pos_iff (Nat.pos_of_ne_zero hleft)).2 ⟨by omega, k, hd'⟩
    have hlen : (next.head.bytes nleft stream).length = min nleft (k + 1) := by
      rw [hd', Delivery.bytes, List.length_take]
      omega
    have hbytes : next.head.bytes nleft stream = stream.take (min nleft (k + 1)) := by rw [hd', Delivery.bytes]
    have htail : Unfailing next.tail := fun n => hnext (n + 1)
    rw [recvData_step hleft hn, hlen, ih (nleft - min nleft (k + 1)) _ htail (by omega) (by rw [List.length_drop]; omega)]
    have hstore : store (store b off (next.head.bytes nleft stream)) (off + min nleft (k + 1))
        ((stream.drop (min nleft (k + 1))).take (nleft - min nleft (k + 1))) = store b off (stream.take nleft) := by
      rw [← hlen, store_append, hlen, hbytes, ← List.take_add, Nat.add_sub_cancel' (min_le_left _ _)]
    rw [hstore, List.drop_drop, Nat.add_sub_cancel' (min_le_left _ _)]

/-- **A receive of a whole message** in which nothing fails, and that sees the header within its retries. -/
theorem recvMsg_whole (hm : m.cmd ≠ flaMsgCmdNull) (errno : ℤ) (buf : Bytes) (tail : List UInt8)
    (hseen : HeaderSeen 3 next rest') (hrest : Unfailing rest') :
    ∃ b, flaSockRecvMsg errno buf (m.bytes ++ tail) next = .ok (0, b, tail) ∧ passedAt b = m.view := by
  have hsize : sizeofFlaMsgHeader ≤ (m.bytes ++ tail).length := by
    rw [List.length_append, m.bytes_length]
    omega
  obtain ⟨b₁, retries₁, hrun, hlen⟩ := recvHdr_whole errno hsize hseen (setHdrCmd buf flaMsgCmdNull)
  rw [streamLen_bytes] at hlen
  have htake : (m.bytes ++ tail).take (sizeofFlaMsgHeader + m.data.length) = m.bytes := by
    rw [← m.bytes_length, List.take_left]
  have hdrop : (m.bytes ++ tail).drop (sizeofFlaMsgHeader + m.data.length) = tail := by
    rw [← m.bytes_length, List.drop_left]
  have hview := passedAt_bytes m b₁
  have hcmd : hdrCmd (store b₁ 0 m.bytes) = m.cmd := congrArg Prod.fst hview
  refine ⟨store b₁ 0 m.bytes, ?_, hview⟩
  unfold flaSockRecvMsg
  rw [hrun]
  dsimp only
  rw [hlen, if_neg (Nat.not_lt.2 m.len_le), recvData_all _ _ _ _ hrest (by omega)
    (by rw [List.length_append, m.bytes_length]; omega), htake, hdrop, hcmd, if_neg hm]

end Receive

/-! ## From one end to the other -/

/-- a call of `fla_sock_recv_msg`: `errno` and the receive buffer before it, and how the stream is delivered -/
structure RecvCall where
  errno : ℤ
  buf : Bytes
  next : Stream' Delivery

/-- a receiver: what it has not read yet, and the messages it was given -/
structure Inbox where
  stream : List UInt8
  got : List (ℕ × ℕ × List UInt8)

/-- a receive that returns 0 -/
def recvStep (s : Inbox) (x : RecvCall) : Option Inbox :=
  match flaSockRecvMsg x.errno x.buf s.stream x.next with
  | .ok (err, b, rest) => if err = 0 then some ⟨rest, s.got ++ [passedAt b]⟩ else none
  | .error _ => none

/-- what comes off a stream with the messages of `ms`, and then a part of one more -/
structure Delivers (ms : List WireMsg) (stream part : List UInt8) : Prop where
  /-- each receive that returns 0 delivers the next message -/
  next : ∀ calls t, (∀ x ∈ calls, 0 ≤ x.errno) → calls.length ≤ ms.length → run recvStep ⟨stream, []⟩ calls = some t →
    t.got = (ms.take calls.length).map WireMsg.view
  /-- when there are no more, only a stream that is cut short is taken for one -/
  past : ∀ calls x t, (∀ x ∈ calls, 0 ≤ x.errno) → 0 ≤ x.errno → calls.length = ms.length →
    run recvStep ⟨stream, []⟩ (calls ++ [x]) = some t → CutShort x.buf part x.next
  /-- all of them are delivered when nothing fails -/
  all : (∀ m ∈ ms, m.cmd ≠ flaMsgCmdNull) → ∀ calls, calls.length = ms.length →
    (∀ x ∈ calls, ∃ rest, HeaderSeen 3 x.next rest ∧ Unfailing rest) →
      ∃ t, run recvStep ⟨stream, []⟩ calls = some t ∧ t.got = ms.map WireMsg.view

section Ends

variable {m : WireMsg} {ms : List WireMsg} {s t : Inbox} {x : RecvCall} {part tail : List UInt8}

theorem recvStep_inv (herr : 0 ≤ x.errno) (h : recvStep s x = some t) :
    (∃ b, Received s.stream t.stream b ∧ t.got = s.got ++ [passedAt b]) ∨ CutShort x.buf s.stream x.next := by
  obtain ⟨err, b, rest, hrun, hzero⟩ := recvMsg_inv herr x.buf s.stream x.next
  unfold recvStep at h
  rw [hrun] at h
  dsimp only at h
  split_ifs at h with h0
  cases h
  exact (hzero h0).imp (fun hr => ⟨b, hr, rfl⟩) id

theorem not_cutShort (m : WireMsg) {buf : Bytes} {next : Stream' Delivery} : ¬ CutShort buf (m.bytes ++ tail) next := by
  have hsize : sizeofFlaMsgHeader = 8 := rfl
  intro h
  cases h with
  | before hs _ _ _ =>
    have hlen := congrArg List.length hs
    rw [List.length_append, m.bytes_length, List.length_nil] at hlen
    omega
  | inside _ _ hcut _ _ =>
    rw [streamLen_bytes, List.length_append, m.bytes_length] at hcut
    omega

/-- **Each receive** that returns 0, while there are messages. -/
theorem recvStep_next (herr : 0 ≤ x.errno) (hs : s.stream = m.bytes ++ tail) (h : recvStep s x = some t) :
    t = ⟨tail, s.got ++ [m.view]⟩ := by
  obtain ⟨stream, got⟩ := t
  rcases recvStep_inv herr h with ⟨b, hr, hgot⟩ | hcut
  · rw [hs] at hr
    obtain ⟨rfl, hview⟩ := received_next hr
    rw [hview] at hgot
    rw [← hgot]
  · rw [hs] at hcut
    exact absurd hcut (not_cutShort m)

/-- **A run of receives.** -/
theorem recvRun_next (part : List UInt8) {calls : List RecvCall} (hcalls : ∀ x ∈ calls, 0 ≤ x.errno)
    (hle : calls.length ≤ ms.length) (hs : s.stream = ms.flatMap WireMsg.bytes ++ part)
    (h : run recvStep s calls = some t) :
    t = ⟨(ms.drop calls.length).flatMap WireMsg.bytes ++ part, s.got ++ (ms.take calls.length).map WireMsg.view⟩ := by
  induction calls generalizing ms s with
  | nil =>
    cases h
    obtain ⟨stream, got⟩ := t
    rw [List.length_nil, List.drop_zero, List.take_zero, List.map_nil, List.append_nil, ← hs]
  | cons x calls ih =>
    obtain ⟨u, hu, h⟩ := Option.bind_eq_some_iff.1 h
    cases ms with
    | nil => exact absurd hle (by simp)
    | cons m ms =>
      rw [List.flatMap_cons, List.append_assoc] at hs
      obtain rfl := recvStep_next (hcalls x List.mem_cons_self) hs hu
      rw [ih (fun y hy => hcalls y (List.mem_cons_of_mem _ hy)) (Nat.le_of_succ_le_succ hle) rfl h]
      rw [List.length_cons, List.drop_succ_cons, List.take_succ_cons, List.map_cons, List.append_assoc]
      rfl

theorem delivers (hpart : ∃ m : WireMsg, part <+: m.bytes ∧ part.length < m.bytes.length) :
    Delivers ms (ms.flatMap WireMsg.bytes ++ part) part := by
  refine ⟨fun calls t hcalls hle h => ?_, fun calls x t hcalls hx hlen h => ?_, fun hcmd calls hlen hcalls => ?_⟩
  · rw [recvRun_next part hcalls hle rfl h]
    rfl
  · obtain ⟨u, hu, hstep⟩ := run_snoc h
    obtain rfl := recvRun_next part hcalls hlen.le rfl hu
    rw [hlen, List.drop_length] at hstep
    obtain ⟨m, hpre, hlt⟩ := hpart
    exact (recvStep_inv hx hstep).resolve_left fun ⟨b, hr, _⟩ => not_received_part hpre hlt hr
  · have hgen : ∀ s : Inbox, s.stream = ms.flatMap WireMsg.bytes ++ part →
        ∃ t, run recvStep s calls = some t ∧ t.got = s.got ++ ms.map WireMsg.view := by
      induction calls generalizing ms with
      | nil =>
        intro s _
        rw [List.length_eq_zero_iff.1 hlen.symm]
        exact ⟨s, rfl, (List.append_nil _).symm⟩
      | cons x calls ih =>
        intro s hs
        cases ms with
        | nil => cases hlen
        | cons m ms =>
          rw [List.flatMap_cons, List.append_assoc] at hs
          obtain ⟨rest, hseen, hrest⟩ := hcalls x List.mem_cons_self
          obtain ⟨b, hrun, hview⟩ := recvMsg_whole (hcmd m List.mem_cons_self) x.errno x.buf
            (ms.flatMap WireMsg.bytes ++ part) hseen hrest
          have hstep : recvStep s x = some ⟨ms.flatMap WireMsg.bytes ++ part, s.got ++ [m.view]⟩ := by
            unfold recvStep
            rw [hs, hrun, ← hview]
            exact if_pos rfl
          obtain ⟨t, ht, hgot⟩ := ih (fun y hy => hcmd y (List.mem_cons_of_mem _ hy)) (Nat.succ.inj hlen)
            (fun y hy => hcalls y (List.mem_cons_of_mem _ hy)) ⟨ms.flatMap WireMsg.bytes ++ part, s.got ++ [m.view]⟩ rfl
          refine ⟨t, ?_, ?_⟩
          · rw [run, hstep]
            exact ht
          · rw [hgot, List.append_assoc]
            rfl
    exact hgen ⟨_, []⟩ rfl

/-- **From one end to the other.** Messages are sent one after another until one fails. Of the messages that were sent
whole none is lost, none comes twice and none is changed, however the kernel cuts the stream on either side. -/
theorem messages_arrive (ms : List WireMsg) {answers : Stream' Taken} (hanswers : Uninterrupted answers) :
    (∃ fuel err stream rest, sendMsgs fuel ms answers = .ok (err, stream, rest)) ∧
      ∀ fuel err stream rest, sendMsgs fuel ms answers = .ok (err, stream, rest) →
        ∃ n part, n ≤ ms.length ∧ (err = 0 ↔ n = ms.length) ∧ (err = 0 → part = []) ∧ Delivers (ms.take n) stream part := by
  refine ⟨sendMsgs_returns hanswers ms, fun fuel err stream rest h => ?_⟩
  obtain ⟨n, part, hsent⟩ := sendMsgs_sent h
  refine ⟨n, part, hsent.le, hsent.all, hsent.none, ?_⟩
  rw [hsent.stream_eq]
  exact delivers hsent.cut

/-- `send` is interrupted at first and then takes three bytes at a time -/
def threes : Stream' Taken := fun n => if n = 0 then .fail ⟨eINTR, by decide⟩ else .upTo 3

theorem messages_arrive_threes : ∃ fuel stream rest, sendMsgs fuel [syncMsg, syncMsg] threes = .ok (0, stream, rest) ∧
    Delivers [syncMsg, syncMsg] stream [] := by
  have hthrees : Uninterrupted threes := fun n => ⟨1, fun e he => by simp [threes, Stream'.get] at he⟩
  obtain ⟨-, hall⟩ := messages_arrive [syncMsg, syncMsg] hthrees
  obtain ⟨r, hrun, hval⟩ := Option.map_eq_some_iff.1 (show (sendMsgs 5 [syncMsg, syncMsg] threes).toOption.map (·.1) =
    some 0 by decide +kernel)
  obtain ⟨err, stream, rest⟩ := r
  obtain rfl : err = 0 := hval
  have hsend := toOption_eq_some hrun
  obtain ⟨n, part, -, hn, hpart, hdel⟩ := hall 5 0 stream rest hsend
  rw [hn.1 rfl, hpart rfl] at hdel
  exact ⟨5, stream, rest, hsend, hdel⟩

end Ends

end FlexAlloc
