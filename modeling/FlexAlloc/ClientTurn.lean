/-
One turn of `fla_daemon_loop` for a client that is ready, at the level of the bytes read and written.

The header is read with one `read` and the data with another; a read that brings fewer bytes than asked for ends the
connection. The length in the header is not checked. All clients share the receive buffer, so a turn starts from a buffer
with anything in it. Memory is a function on addresses from the start of the buffer on: a write past the end of the buffer
lands in it too, and `writes` says where each write of a turn starts and how long it is (`turn_frame`: there are no
others).

- `turn_serves`: a message that is read whole is the message that `daemonReceive` makes of it.
- `buffer_contained_iff`: no turn writes past the buffer, and messages that are too long are refused, exactly when at most
  `FLA_MSG_DATA_MAX` bytes arrive for the data and no pool name fills the buffer. `long_name_overruns`.
-/
import FlexAlloc.Core.Run
import FlexAlloc.Daemon
import FlexAlloc.Receive

namespace FlexAlloc

open FlexAlloc.Core Function

/-! ## The message in the buffer -/

def flaMsgBufsiz : ℕ := sizeofFlaMsgHeader + flaMsgDataMax

/-- the command of a value; those without a handler are all `other` -/
def MsgCmd.ofValue : ℕ → MsgCmd
  | 1 => .identify
  | 2 => .sync
  | 3 => .poolOpen
  | 5 => .poolCreate
  | 6 => .poolDestroy
  | 7 => .poolSetRootObject
  | 8 => .poolGetRootObject
  | 9 => .objectOpen
  | 10 => .objectCreate
  | 11 => .objectDestroy
  | 12 => .syncNoRsps
  | 30 => .initInfo
  | _ => .other

def hdrTag (b : Bytes) : ℕ := leNat b 6 2

/-- the receive buffer as the handlers see it -/
def msgAt (b : Bytes) : MsgBuf := ⟨⟨hdrLen b, .ofValue (hdrCmd b), hdrTag b⟩, fun i => b (sizeofFlaMsgHeader + i)⟩

/-- where the handler of a message writes in the receive buffer: a terminator after a name, and the address of one -/
def handlerWrites (recv : MsgBuf) : List (ℕ × ℕ) :=
  match recv.hdr.cmd with
  | .poolOpen => [(sizeofFlaMsgHeader + recv.hdr.len, 1)]
  | .poolCreate => [(sizeofFlaMsgHeader + 8, 8)]
  | _ => []

/-- the memory after the handler of the message in it -/
def handled (mem b : Bytes) : Bytes := fun i =>
  if i < sizeofFlaMsgHeader then b i else recvAfter mem (msgAt b) (i - sizeofFlaMsgHeader)

/-! ## A turn -/

/-- how a turn ends: the client is disconnected for its header, or after it, or stays -/
inductive TurnEnd where
  | short
  | dropped
  | kept
deriving DecidableEq, Repr

/-- what happens in a turn: the two reads, the value the handler returns if there is a message, and memory nobody set -/
structure TurnInput where
  hdr : Delivery
  data : Delivery
  err : ℤ
  mem : Bytes

structure TurnResult where
  fin : TurnEnd
  buf : Bytes
  rest : List UInt8
  /-- the receive buffer that is passed to `on_msg` -/
  msg : Option Bytes
  writes : List (ℕ × ℕ)

/-- the part of `fla_daemon_loop` for a client that is ready, of whose bytes `stream` are not yet read -/
def clientTurn (buf : Bytes) (stream : List UInt8) (x : TurnInput) : TurnResult :=
  let bs := x.hdr.bytes sizeofFlaMsgHeader stream
  let buf := store buf 0 bs
  let rest := stream.drop bs.length
  if x.hdr.ret sizeofFlaMsgHeader stream ≠ sizeofFlaMsgHeader then ⟨.short, buf, rest, none, [(0, bs.length)]⟩
  else
    let len := hdrLen buf
    let ds := x.data.bytes len rest
    let buf := store buf sizeofFlaMsgHeader ds
    let writes := [(0, bs.length), (sizeofFlaMsgHeader, ds.length)]
    if x.data.ret len rest ≠ len then ⟨.dropped, buf, rest.drop ds.length, none, writes⟩
    else
      ⟨if x.err = 0 then .kept else .dropped, handled x.mem buf, rest.drop ds.length, some buf,
        writes ++ handlerWrites (msgAt buf)⟩

def HdrWhole (stream : List UInt8) (x : TurnInput) : Prop := x.hdr.ret sizeofFlaMsgHeader stream = sizeofFlaMsgHeader

def DataWhole (stream : List UInt8) (x : TurnInput) : Prop :=
  x.data.ret (streamLen stream) (stream.drop sizeofFlaMsgHeader) = streamLen stream

/-- the data that arrive -/
def dataBytes (stream : List UInt8) (x : TurnInput) : List UInt8 :=
  x.data.bytes (streamLen stream) (stream.drop sizeofFlaMsgHeader)

def readBuf (buf : Bytes) (stream : List UInt8) (x : TurnInput) : Bytes :=
  store buf 0 (stream.take sizeofFlaMsgHeader ++ dataBytes stream x)

section Turn

variable {buf : Bytes} {stream : List UInt8} {x : TurnInput}

theorem HdrWhole.length (h : HdrWhole stream x) : sizeofFlaMsgHeader ≤ stream.length := (Delivery.ret_eq_iff.1 h).1

theorem HdrWhole.take_length (h : HdrWhole stream x) : (stream.take sizeofFlaMsgHeader).length = sizeofFlaMsgHeader := by
  rw [List.length_take, Nat.min_eq_left h.length]

theorem turn_short (h : ¬ HdrWhole stream x) :
    clientTurn buf stream x = ⟨.short, store buf 0 (x.hdr.bytes sizeofFlaMsgHeader stream),
      stream.drop (x.hdr.bytes sizeofFlaMsgHeader stream).length, none,
      [(0, (x.hdr.bytes sizeofFlaMsgHeader stream).length)]⟩ := if_pos h

theorem store_dataBytes (h : HdrWhole stream x) :
    store (store buf 0 (stream.take sizeofFlaMsgHeader)) sizeofFlaMsgHeader (dataBytes stream x) = readBuf buf stream x := by
  have happend := store_append buf 0 (stream.take sizeofFlaMsgHeader) (dataBytes stream x)
  rwa [Nat.zero_add, h.take_length] at happend

/-- **After a whole header** the turn goes by the length in it: the client is disconnected when its data are not all
there. -/
theorem turn_cut (h : HdrWhole stream x) (hd : ¬ DataWhole stream x) :
    clientTurn buf stream x = ⟨.dropped, readBuf buf stream x,
      (stream.drop sizeofFlaMsgHeader).drop (dataBytes stream x).length, none,
      [(0, sizeofFlaMsgHeader), (sizeofFlaMsgHeader, (dataBytes stream x).length)]⟩ := by
  have hlen : hdrLen (store buf 0 (stream.take sizeofFlaMsgHeader)) = streamLen stream := hdrLen_peeked h.length buf
  have hhdr : x.hdr.ret sizeofFlaMsgHeader stream = sizeofFlaMsgHeader := h
  have hdata : x.data.ret (streamLen stream) (stream.drop sizeofFlaMsgHeader) ≠ streamLen stream := hd
  simp only [clientTurn, Delivery.bytes_of_ret_eq hhdr, hlen, h.take_length]
  rw [if_neg (not_not.2 hhdr), if_pos hdata, ← dataBytes, store_dataBytes h]

theorem turn_read (h : HdrWhole stream x) (hd : DataWhole stream x) :
    clientTurn buf stream x = ⟨if x.err = 0 then .kept else .dropped, handled x.mem (readBuf buf stream x),
      (stream.drop sizeofFlaMsgHeader).drop (dataBytes stream x).length, some (readBuf buf stream x),
      [(0, sizeofFlaMsgHeader), (sizeofFlaMsgHeader, (dataBytes stream x).length)] ++
        handlerWrites (msgAt (readBuf buf stream x))⟩ := by
  have hlen : hdrLen (store buf 0 (stream.take sizeofFlaMsgHeader)) = streamLen stream := hdrLen_peeked h.length buf
  have hhdr : x.hdr.ret sizeofFlaMsgHeader stream = sizeofFlaMsgHeader := h
  have hdata : x.data.ret (streamLen stream) (stream.drop sizeofFlaMsgHeader) = streamLen stream := hd
  simp only [clientTurn, Delivery.bytes_of_ret_eq hhdr, hlen, h.take_length]
  rw [if_neg (not_not.2 hhdr), if_neg (not_not.2 hdata), ← dataBytes, store_dataBytes h]

end Turn

/-! ## Frame -/

theorem store_outside {b : Bytes} {off i : ℕ} {bs : List UInt8} (h : ¬ (off ≤ i ∧ i < off + bs.length)) :
    store b off bs i = b i := by
  rcases Nat.lt_or_ge i off with hlt | hge
  · exact store_of_lt hlt
  · exact store_of_le (not_lt.1 fun hlt => h ⟨hge, hlt⟩)

theorem handled_outside {mem b : Bytes} {i : ℕ} (h : ∀ w ∈ handlerWrites (msgAt b), ¬ (w.1 ≤ i ∧ i < w.1 + w.2)) :
    handled mem b i = b i := by
  unfold handled
  split_ifs with hi
  · rfl
  obtain ⟨j, rfl⟩ : ∃ j, i = sizeofFlaMsgHeader + j := ⟨i - sizeofFlaMsgHeader, by omega⟩
  rw [Nat.add_sub_cancel_left]
  unfold recvAfter
  unfold handlerWrites at h
  cases hcmd : (msgAt b).hdr.cmd
  all_goals
    rw [hcmd] at h
    dsimp only at h ⊢
  case poolOpen =>
    have hne : j ≠ (msgAt b).hdr.len := by
      have hout := h _ (List.mem_singleton.2 rfl)
      omega
    exact update_of_ne hne _ _
  case poolCreate =>
    have hout := h _ (List.mem_singleton.2 rfl)
    exact copyBytes_of_not_mem (by omega)
  all_goals rfl

/-- **A turn writes** where it says and nowhere else. -/
theorem turn_frame (buf : Bytes) (stream : List UInt8) (x : TurnInput) {i : ℕ}
    (h : ∀ w ∈ (clientTurn buf stream x).writes, ¬ (w.1 ≤ i ∧ i < w.1 + w.2)) :
    (clientTurn buf stream x).buf i = buf i := by
  by_cases hhdr : HdrWhole stream x
  · have hread : ∀ ws, (∀ w ∈ [(0, sizeofFlaMsgHeader), (sizeofFlaMsgHeader, (dataBytes stream x).length)] ++ ws,
        ¬ (w.1 ≤ i ∧ i < w.1 + w.2)) → readBuf buf stream x i = buf i := by
      intro ws hws
      have hfirst := hws (0, sizeofFlaMsgHeader) (by simp)
      have hsecond := hws (sizeofFlaMsgHeader, (dataBytes stream x).length) (by simp)
      refine store_outside ?_
      rw [List.length_append, hhdr.take_length]
      omega
    by_cases hdata : DataWhole stream x
    · rw [turn_read hhdr hdata] at h ⊢
      exact (handled_outside fun w hw => h w (List.mem_append_right _ hw)).trans (hread _ h)
    · rw [turn_cut hhdr hdata] at h ⊢
      exact hread [] h
  · rw [turn_short hhdr] at h ⊢
    exact store_outside (h _ (List.mem_singleton.2 rfl))

/-! ## The message that is served -/

def bufData (b : Bytes) : Bytes := fun i => b (sizeofFlaMsgHeader + i)

/-- the message that a stream starts with -/
def streamMsg (stream : List UInt8) : MsgBuf := msgAt (store 0 0 stream)

section Served

variable {buf : Bytes} {stream : List UInt8} {x : TurnInput}

theorem DataWhole.readBuf (hd : DataWhole stream x) :
    readBuf buf stream x = store buf 0 (stream.take (sizeofFlaMsgHeader + streamLen stream)) := by
  rw [FlexAlloc.readBuf, dataBytes, Delivery.bytes_of_ret_eq hd, List.take_add]

theorem DataWhole.length (hd : DataWhole stream x) (h : HdrWhole stream x) :
    sizeofFlaMsgHeader + streamLen stream ≤ stream.length := by
  have hdata := (Delivery.ret_eq_iff.1 hd).1
  have hhdr := h.length
  rw [List.length_drop] at hdata
  omega

theorem leNat_stored {n i k : ℕ} (hn : n ≤ stream.length) (hk : i + k ≤ n) (buf : Bytes) :
    leNat (store buf 0 (stream.take n)) i k = leNat (store 0 0 stream) i k := by
  refine leNat_congr fun j hj => ?_
  have hlt : i + j < stream.length := by omega
  have htake : i + j < (stream.take n).length := by
    rw [List.length_take]
    omega
  have hleft := store_at buf 0 htake
  have hright := store_at 0 0 hlt
  rw [Nat.zero_add] at hleft hright
  rw [hleft, hright, List.getElem_take]

theorem msgAt_read_hdr (h : HdrWhole stream x) (hd : DataWhole stream x) :
    (msgAt (readBuf buf stream x)).hdr = (streamMsg stream).hdr := by
  have hroom := hd.length h
  have hsize : sizeofFlaMsgHeader = 8 := rfl
  rw [hd.readBuf, streamMsg, msgAt, msgAt, hdrLen, hdrLen, hdrCmd, hdrCmd, hdrTag, hdrTag, leNat_stored hroom (by omega),
    leNat_stored hroom (by omega), leNat_stored hroom (by omega)]

/-- **The message served**: what is in the buffer is what the daemon makes of the message in the stream. -/
theorem msgAt_read (h : HdrWhole stream x) (hd : DataWhole stream x) (hlen : streamLen stream ≤ flaMsgDataMax) :
    daemonReceive (bufData buf) (streamMsg stream) = .ok (msgAt (readBuf buf stream x)) := by
  have hroom := hd.length h
  have hdata : (msgAt (readBuf buf stream x)).data =
      copyBytes (bufData buf) 0 (streamMsg stream).data 0 (streamMsg stream).hdr.len := by
    funext i
    show readBuf buf stream x (sizeofFlaMsgHeader + i) =
      copyBytes (bufData buf) 0 (bufData (store 0 0 stream)) 0 (streamLen stream) i
    have htake : (stream.take (sizeofFlaMsgHeader + streamLen stream)).length = sizeofFlaMsgHeader + streamLen stream := by
      rw [List.length_take, Nat.min_eq_left hroom]
    rw [hd.readBuf]
    by_cases hi : i < streamLen stream
    · have hleft := store_at buf 0 (show sizeofFlaMsgHeader + i < (stream.take _).length by rw [htake]; omega)
      have hright := store_at 0 0 (show sizeofFlaMsgHeader + i < stream.length by omega)
      rw [Nat.zero_add] at hleft hright
      rw [copyBytes_of_mem (Nat.zero_le _) (by omega), hleft, List.getElem_take, bufData, Nat.zero_add, Nat.sub_zero,
        hright]
    · rw [copyBytes_of_not_mem (by omega), store_of_le (by rw [htake]; omega)]
      rfl
  have hlen' : ¬ flaMsgDataMax < (streamMsg stream).hdr.len := not_lt.2 hlen
  have hhdr : (msgAt (readBuf buf stream x)).hdr = (streamMsg stream).hdr := msgAt_read_hdr h hd
  rw [daemonReceive, if_neg hlen', ← hdata, ← hhdr]

theorem msgHandler_recv {env : Env} {mem : Bytes} {d d' : Daemon} {recv : MsgBuf} {reply : Option MsgBuf}
    (h : msgHandler env mem d recv = .ok (reply, d')) : d'.recv = recvAfter mem recv := by
  obtain ⟨call, hcall, h⟩ := bind_eq_ok h
  cases call with
  | some call =>
    obtain ⟨r, -, h⟩ := bind_eq_ok h
    cases r with
    | none =>
      cases h
      rfl
    | some r =>
      dsimp only at h
      split_ifs at h
      all_goals
        cases h
        rfl
  | none =>
    dsimp only at h
    unfold handlerCall at hcall
    unfold recvAfter
    cases hcmd : recv.hdr.cmd
    all_goals
      rw [hcmd] at h hcall
      dsimp only at h hcall ⊢
    case initInfo =>
      obtain ⟨send, -, h⟩ := bind_eq_ok h
      cases h
      rfl
    case poolOpen =>
      split_ifs at hcall
      obtain ⟨name, -, hcall⟩ := bind_eq_ok hcall
      cases hcall
    case poolCreate =>
      obtain ⟨arg, -, hcall⟩ := bind_eq_ok hcall
      cases hcall
    all_goals
      cases h
      rfl

/-- **A turn serves** the message at the head of the stream, and leaves in the buffer what serving it leaves there. -/
theorem turn_serves (h : HdrWhole stream x) (hd : DataWhole stream x) (hlen : streamLen stream ≤ flaMsgDataMax)
    {env : Env} {d d' : Daemon} {reply : Option MsgBuf} (hrecv : d.recv = bufData buf)
    (hserve : serve env x.mem d (streamMsg stream) = .ok (reply, d')) :
    d'.recv = bufData (clientTurn buf stream x).buf := by
  unfold serve at hserve
  rw [hrecv, msgAt_read h hd hlen, ok_bind] at hserve
  rw [msgHandler_recv hserve, turn_read h hd]
  funext i
  show _ = handled x.mem (readBuf buf stream x) (sizeofFlaMsgHeader + i)
  rw [handled, if_neg (by omega), Nat.add_sub_cancel_left]

end Served

/-! ## The end of the buffer -/

/-- no write reaches past the buffer, and a message that is too long ends the connection -/
def Contained (buf : Bytes) (stream : List UInt8) (x : TurnInput) : Prop :=
  (∀ w ∈ (clientTurn buf stream x).writes, w.1 + w.2 ≤ flaMsgBufsiz) ∧
    (HdrWhole stream x → flaMsgDataMax < streamLen stream → (clientTurn buf stream x).fin ≠ .kept)

/-- after a whole header: a message that is too long is not followed by more bytes than fit, in one read or at all; and
what fills the buffer is not a pool name -/
structure Roomy (stream : List UInt8) (x : TurnInput) : Prop where
  fits : HdrWhole stream x → flaMsgDataMax < streamLen stream →
    stream.length ≤ flaMsgBufsiz ∨ ∀ k, x.data = .upTo k → k < flaMsgDataMax
  ends : HdrWhole stream x → DataWhole stream x → streamLen stream = flaMsgDataMax → (streamMsg stream).hdr.cmd ≠ .poolOpen

section Room

variable {buf : Bytes} {stream : List UInt8} {x : TurnInput}

theorem dataBytes_le_iff (h : HdrWhole stream x) :
    (dataBytes stream x).length ≤ flaMsgDataMax ↔
      (flaMsgDataMax < streamLen stream → stream.length ≤ flaMsgBufsiz ∨ ∀ k, x.data = .upTo k → k < flaMsgDataMax) := by
  have hlen := h.length
  have hbuf : flaMsgBufsiz = sizeofFlaMsgHeader + flaMsgDataMax := rfl
  rw [dataBytes]
  cases hd : x.data with
  | fail e => simp [Delivery.bytes]
  | upTo k =>
    have hbytes : ((Delivery.upTo k).bytes (streamLen stream) (stream.drop sizeofFlaMsgHeader)).length =
        min (min (streamLen stream) (k + 1)) (stream.length - sizeofFlaMsgHeader) := by
      rw [Delivery.bytes, List.length_take, List.length_drop]
    rw [hbytes]
    simp
    omega

theorem handlerWrites_le (b : MsgBuf) (hlen : b.hdr.len ≤ flaMsgDataMax) :
    (∀ w ∈ handlerWrites b, w.1 + w.2 ≤ flaMsgBufsiz) ↔ (b.hdr.len = flaMsgDataMax → b.hdr.cmd ≠ .poolOpen) := by
  have hbuf : flaMsgBufsiz = sizeofFlaMsgHeader + flaMsgDataMax := rfl
  have hmax : flaMsgDataMax = 2048 := rfl
  unfold handlerWrites
  cases b.hdr.cmd
  case poolOpen =>
    simp
    omega
  case poolCreate =>
    simp
    omega
  all_goals simp

theorem contained_iff (buf : Bytes) (stream : List UInt8) (x : TurnInput) : Contained buf stream x ↔ Roomy stream x := by
  have hbuf : flaMsgBufsiz = sizeofFlaMsgHeader + flaMsgDataMax := rfl
  by_cases h : HdrWhole stream x
  swap
  · have hle : (x.hdr.bytes sizeofFlaMsgHeader stream).length ≤ sizeofFlaMsgHeader := Delivery.bytes_length_le
    refine iff_of_true ⟨fun w hw => ?_, fun h' => absurd h' h⟩ ⟨fun h' => absurd h' h, fun h' => absurd h' h⟩
    rw [turn_short h] at hw
    obtain rfl := List.mem_singleton.1 hw
    dsimp only
    omega
  have hfits := dataBytes_le_iff h
  by_cases hd : DataWhole stream x
  swap
  · rw [Contained, turn_cut h hd]
    constructor
    · rintro ⟨hw, -⟩
      have hle := hw (sizeofFlaMsgHeader, (dataBytes stream x).length) (by simp)
      exact ⟨fun _ => hfits.1 (by omega), fun _ h' => absurd h' hd⟩
    · rintro ⟨hroom, -⟩
      have hle := hfits.2 (hroom h)
      refine ⟨fun w hw => ?_, fun _ _ => by simp⟩
      simp at hw
      rcases hw with rfl | rfl
      all_goals
        dsimp only
        omega
  have hall : (dataBytes stream x).length = streamLen stream := Delivery.length_of_ret hd
  have hmsg : (msgAt (readBuf buf stream x)).hdr = (streamMsg stream).hdr := msgAt_read_hdr h hd
  have hlen : (msgAt (readBuf buf stream x)).hdr.len = streamLen stream := by
    rw [hmsg]
    rfl
  rw [Contained, turn_read h hd]
  constructor
  · rintro ⟨hw, -⟩
    have hle := hw (sizeofFlaMsgHeader, (dataBytes stream x).length) (by simp)
    refine ⟨fun _ => hfits.1 (by omega), fun _ _ hfull => ?_⟩
    have hends := (handlerWrites_le _ (by omega)).1 fun w hw' => hw w (List.mem_append_right _ hw')
    rw [← hmsg]
    exact hends (hlen.trans hfull)
  · rintro ⟨hroom, hends⟩
    have hle := hfits.2 (hroom h)
    refine ⟨fun w hw => ?_, fun _ hlong => by omega⟩
    rcases List.mem_append.1 hw with hw | hw
    · simp at hw
      rcases hw with rfl | rfl
      all_goals
        dsimp only
        omega
    · refine (handlerWrites_le _ (by omega)).2 (fun hfull => ?_) w hw
      rw [hmsg]
      exact hends h hd (hlen.symm.trans hfull)

/-- a turn for a client, from the buffer that the turn before left -/
def turnStep (buf : Bytes) (t : List UInt8 × TurnInput) : Option Bytes := some (clientTurn buf t.1 t.2).buf

/-- **The receive buffer.** Whatever the clients send and however it arrives, from any buffer: along every sequence of
turns no write reaches past the buffer, and messages that are too long are refused, if and only if every turn is roomy. -/
theorem buffer_contained_iff (buf : Bytes) (turns : List (List UInt8 × TurnInput)) :
    along (fun buf t => Contained buf t.1 t.2) turnStep buf turns ↔ ∀ t ∈ turns, Roomy t.1 t.2 := by
  induction turns generalizing buf with
  | nil => simp [along]
  | cons t turns ih =>
    have hstep : (∀ buf', turnStep buf t = some buf' → along (fun buf t => Contained buf t.1 t.2) turnStep buf' turns) ↔
        ∀ t ∈ turns, Roomy t.1 t.2 := by
      simp [turnStep, ih]
    rw [along, contained_iff, hstep, List.forall_mem_cons]

/-- 2048 bytes of name in a message to open a pool -/
def longName : List UInt8 := [0, 8, 0, 0, 3, 0, 0, 0] ++ List.replicate flaMsgDataMax 97

/-- **A terminator past the buffer**: the name fills it. -/
theorem long_name_overruns :
    ¬ along (fun buf t => Contained buf t.1 t.2) turnStep 0 [(longName, ⟨.upTo 7, .upTo 2047, 0, 0⟩)] := by
  intro h
  have hends := (contained_iff _ _ _).1 h.1
  have hlen : streamLen longName = flaMsgDataMax := by decide +kernel
  have hlong : longName.length = flaMsgBufsiz := by decide +kernel
  have hhdr : HdrWhole longName ⟨.upTo 7, .upTo 2047, 0, 0⟩ :=
    Delivery.ret_eq_iff.2 ⟨by rw [hlong]; decide, 7, rfl, by decide⟩
  refine hends.ends hhdr (Delivery.ret_eq_iff.2 ⟨?_, 2047, rfl, ?_⟩) hlen (by decide +kernel)
  · rw [List.length_drop, hlen, hlong]
    decide
  · rw [hlen]
    decide

end Room

end FlexAlloc
