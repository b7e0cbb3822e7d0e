/-
How a client receives a reply (`fla_sock_recv_msg`).

The header is peeked at until it is all there, with three retries, and then the whole message is read. A connection that
is closed makes `recv` return 0, which is no failure: `errno` keeps its value. The buffer is the one the message before
was received in.

- `recvHdr_whole`, `recvData_ends`: the runs in which nothing fails. `recvHdr_inv`, `recvData_inv`: all of them.
- `recv_msg_complete_iff`: what is received is a complete message, for every stream, every buffer and every sequence of
  deliveries, if and only if the stream is not cut short (`CutShort`). `closed_reply_accepted`: a connection that is closed
  before the reply.
-/
import FlexAlloc.Core.Stream
import FlexAlloc.Message

namespace FlexAlloc

open FlexAlloc.Core

/-! ## Messages in memory -/

def sizeofFlaMsgHeader : ℕ := 8

def flaMsgCmdNull : ℕ := 2 ^ 16 - 1

def hdrLen (b : Bytes) : ℕ := leNat b 0 4

def hdrCmd (b : Bytes) : ℕ := leNat b 4 2

def setHdrCmd (b : Bytes) (cmd : ℕ) : Bytes := store b 4 [byteOf cmd 0, byteOf cmd 1]

/-- the length in the header that a stream starts with -/
def streamLen (stream : List UInt8) : ℕ := hdrLen (store 0 0 stream)

theorem hdrLen_setHdrCmd (b : Bytes) (cmd : ℕ) : hdrLen (setHdrCmd b cmd) = hdrLen b :=
  leNat_congr fun _ hi => store_of_lt (by omega)

theorem hdrLen_store (b : Bytes) {bs : List UInt8} (h : 4 ≤ bs.length) : hdrLen (store b 0 bs) = streamLen bs :=
  leNat_store (i := 0) (by omega) b 0

theorem streamLen_append {bs rest : List UInt8} (h : 4 ≤ bs.length) : streamLen (bs ++ rest) = streamLen bs := by
  refine leNat_congr fun i hi => ?_
  have hi' : i < bs.length := by omega
  have hlt : i < (bs ++ rest).length := by
    rw [List.length_append]
    omega
  rw [store_at 0 0 hlt, store_at 0 0 hi', List.getElem_append_left hi']

theorem streamLen_take {stream : List UInt8} {n : ℕ} (hn : 4 ≤ n) (h : n ≤ stream.length) :
    streamLen (stream.take n) = streamLen stream := by
  have hlen : 4 ≤ (stream.take n).length := by
    rw [List.length_take]
    omega
  have hfront : streamLen (stream.take n ++ stream.drop n) = streamLen (stream.take n) := streamLen_append hlen
  rw [← hfront, List.take_append_drop]

/-! ## Receiving -/

def eINTR : ℤ := 4

/-- the part of `fla_sock_recv_msg` from `retry_hdr` to the check of the length: what it returns there, or the buffer,
`errno`, the retries left and the deliveries to come -/
def recvHdr (stream : List UInt8) (retries : ℕ) (errno : ℤ) (buf : Bytes) (next : Stream' Delivery) :
    ℤ × Bytes ⊕ Bytes × ℤ × ℕ × Stream' Delivery :=
  let n := next.head.ret sizeofFlaMsgHeader stream
  let errno := next.head.errno errno
  let buf := store buf 0 (next.head.bytes sizeofFlaMsgHeader stream)
  if n ≠ sizeofFlaMsgHeader then
    if 0 < n ∨ (n = -1 ∧ errno = eINTR) then
      match retries with
      | 0 => .inl (1, buf)
      | retries + 1 => recvHdr stream retries errno buf next.tail
    else if n = -1 then .inl (-errno, buf)
    else .inr (buf, errno, retries, next.tail)
  else .inr (buf, errno, retries, next.tail)

/-- the part from `retry_data` on, with `nleft` bytes to go to `off` on: the return value, the buffer, and what is left of
the stream -/
def recvData : ℕ → ℕ → ℕ → ℕ → ℤ → Bytes → List UInt8 → Stream' Delivery → Ret (ℤ × Bytes × List UInt8)
  | 0, _, _, _, _, _, _, _ => .error .endless
  | fuel + 1, nleft, off, retries, errno, buf, stream, next =>
    if nleft = 0 then .ok (if hdrCmd buf = flaMsgCmdNull then 1 else 0, buf, stream)
    else
      let n := next.head.ret nleft stream
      let errno := next.head.errno errno
      if n ≤ 0 then
        if errno = eINTR ∧ retries ≠ 0 then recvData fuel nleft off (retries - 1) errno buf stream next.tail
        else .ok (-errno, buf, stream)
      else
        recvData fuel (nleft - n.toNat) (off + n.toNat) retries errno (store buf off (next.head.bytes nleft stream))
          (stream.drop n.toNat) next.tail

/-- `fla_sock_recv_msg`, on a stream of which no more comes than `stream`; every turn of the loop over the data takes a byte
or a retry -/
def flaSockRecvMsg (errno : ℤ) (buf : Bytes) (stream : List UInt8) (next : Stream' Delivery) :
    Ret (ℤ × Bytes × List UInt8) :=
  match recvHdr stream 3 errno (setHdrCmd buf flaMsgCmdNull) next with
  | .inl (err, buf) => .ok (err, buf, stream)
  | .inr (buf, errno, retries, next) =>
    if flaMsgDataMax < hdrLen buf then .ok (2, buf, stream)
    else
      let nleft := sizeofFlaMsgHeader + hdrLen buf
      recvData (nleft + retries + 1) nleft 0 retries errno buf stream next

/-- a complete message: the header and as many bytes as it says came off the stream and are in the buffer, in order -/
def Received (stream rest : List UInt8) (buf : Bytes) : Prop :=
  ∃ msg, stream = msg ++ rest ∧ msg.length = sizeofFlaMsgHeader + hdrLen buf ∧ hdrLen buf ≤ flaMsgDataMax ∧
    ∀ i (hi : i < msg.length), buf i = msg[i]

/-- the call returns, and what it returns 0 for is a complete message -/
def RecvComplete (buf : Bytes) (stream : List UInt8) (next : Stream' Delivery) : Prop :=
  ∃ err buf' rest, flaSockRecvMsg 0 buf stream next = .ok (err, buf', rest) ∧ (err = 0 → Received stream rest buf')

/-! ## Streams that are cut short -/

/-- the header is seen whole, after at most `retries` peeks that saw less, and nothing fails on the way -/
inductive HeaderSeen : ℕ → Stream' Delivery → Stream' Delivery → Prop where
  | whole {retries k : ℕ} {next : Stream' Delivery} (hd : next.head = .upTo k) (hk : sizeofFlaMsgHeader ≤ k + 1) :
      HeaderSeen retries next next.tail
  | short {retries k : ℕ} {next rest : Stream' Delivery} (hd : next.head = .upTo k) (hk : k + 1 < sizeofFlaMsgHeader)
      (h : HeaderSeen retries next.tail rest) : HeaderSeen (retries + 1) next rest

/-- `m` bytes and then the end of the stream are read, and nothing fails on the way -/
inductive EndsQuietly : ℕ → Stream' Delivery → Prop where
  | ended {k : ℕ} {next : Stream' Delivery} (hd : next.head = .upTo k) : EndsQuietly 0 next
  | more {m k : ℕ} {next : Stream' Delivery} (hm : 0 < m) (hd : next.head = .upTo k)
      (h : EndsQuietly (m - (k + 1)) next.tail) : EndsQuietly m next

/-- the stream ends before its first byte and the buffer holds the length of a message; or it ends inside the data of a
message. No read fails. -/
inductive CutShort (buf : Bytes) (stream : List UInt8) (next : Stream' Delivery) : Prop where
  | before {k k' : ℕ} (hs : stream = []) (hlen : hdrLen buf ≤ flaMsgDataMax) (hd : next.head = .upTo k)
      (hd' : next.tail.head = .upTo k') : CutShort buf stream next
  | inside {rest : Stream' Delivery} (hhdr : sizeofFlaMsgHeader ≤ stream.length) (hlen : streamLen stream ≤ flaMsgDataMax)
      (hcut : stream.length < sizeofFlaMsgHeader + streamLen stream) (hseen : HeaderSeen 3 next rest)
      (hend : EndsQuietly stream.length rest) : CutShort buf stream next

section Header

variable {stream : List UInt8} {retries : ℕ} {errno : ℤ} {buf : Bytes} {next rest : Stream' Delivery}

theorem recvHdr_full (hn : next.head.ret sizeofFlaMsgHeader stream = sizeofFlaMsgHeader) :
    recvHdr stream retries errno buf next = .inr (store buf 0 (stream.take sizeofFlaMsgHeader), errno, retries, next.tail) := by
  obtain ⟨-, k, hd, -⟩ := Delivery.ret_eq_iff.1 hn
  unfold recvHdr
  rw [hn, if_neg (by simp), Delivery.bytes_of_ret_eq hn, hd]
  rfl

theorem hdrLen_peeked (hs : sizeofFlaMsgHeader ≤ stream.length) (buf : Bytes) :
    hdrLen (store buf 0 (stream.take sizeofFlaMsgHeader)) = streamLen stream := by
  have hlen : 4 ≤ (stream.take sizeofFlaMsgHeader).length := by
    rw [List.length_take]
    exact (by decide : 4 ≤ sizeofFlaMsgHeader).trans (Nat.le_min.2 ⟨le_rfl, hs⟩)
  rw [hdrLen_store buf hlen, streamLen_take (by decide) hs]

/-- **A header seen.** -/
theorem recvHdr_whole (errno : ℤ) (hs : sizeofFlaMsgHeader ≤ stream.length) (h : HeaderSeen retries next rest) (buf : Bytes) :
    ∃ buf' retries', recvHdr stream retries errno buf next = .inr (buf', errno, retries', rest) ∧
      hdrLen buf' = streamLen stream := by
  induction h generalizing buf with
  | whole hd hk =>
    have hn := Delivery.ret_eq_iff.2 ⟨hs, _, hd, hk⟩
    exact ⟨_, _, recvHdr_full hn, hdrLen_peeked hs buf⟩
  | @short retries k next rest hd hk h ih =>
    obtain ⟨buf', retries', hrun, hlen⟩ := ih (store buf 0 (next.head.bytes sizeofFlaMsgHeader stream))
    refine ⟨buf', retries', ?_, hlen⟩
    have hn : next.head.ret sizeofFlaMsgHeader stream = (k + 1 : ℕ) := by
      rw [hd, Delivery.ret_upTo]
      congr 1
      omega
    unfold recvHdr
    rw [hn, if_pos (by omega), if_pos (.inl (by omega))]
    rw [← hrun, hd]
    rfl

theorem recvHdr_closed {k : ℕ} (hd : next.head = .upTo k) :
    recvHdr [] retries errno buf next = .inr (buf, errno, retries, next.tail) := by
  have hn : next.head.ret sizeofFlaMsgHeader [] = 0 := by
    rw [hd, Delivery.ret_upTo]
    simp
  have hb : next.head.bytes sizeofFlaMsgHeader [] = [] := by
    rw [hd, Delivery.bytes, List.take_nil]
  unfold recvHdr
  rw [hn, hb, hd, store_nil, if_pos (by decide), if_neg (by simp), if_neg (by decide)]
  rfl

/-- what the peeks come to: an error, a whole header, or the end of a stream of which nothing came. When `errno` is 0 in
the end, nothing failed. -/
inductive Peeked (stream : List UInt8) (retries : ℕ) (errno : ℤ) (buf : Bytes) (next : Stream' Delivery) :
    ℤ × Bytes ⊕ Bytes × ℤ × ℕ × Stream' Delivery → Prop where
  | failed {err : ℤ} {buf' : Bytes} (herr : err ≠ 0) : Peeked stream retries errno buf next (.inl (err, buf'))
  | whole {buf' : Bytes} {errno' : ℤ} {retries' : ℕ} {rest : Stream' Delivery} (hs : sizeofFlaMsgHeader ≤ stream.length)
      (hlen : hdrLen buf' = streamLen stream) (hpos : 0 ≤ errno')
      (hquiet : errno' = 0 → errno = 0 ∧ HeaderSeen retries next rest) :
      Peeked stream retries errno buf next (.inr (buf', errno', retries', rest))
  | closed {buf' : Bytes} {errno' : ℤ} {retries' : ℕ} {rest : Stream' Delivery} (hs : stream = [])
      (hlen : hdrLen buf' = hdrLen buf) (hpos : 0 ≤ errno')
      (hquiet : errno' = 0 → errno = 0 ∧ ∃ k, next.head = .upTo k ∧ rest = next.tail) :
      Peeked stream retries errno buf next (.inr (buf', errno', retries', rest))

/-- a peek that is made again: part of the header, or interrupted -/
inductive PeekAgain (stream : List UInt8) : Delivery → Prop where
  | part {k : ℕ} (hs : 0 < stream.length) (hne : min sizeofFlaMsgHeader (k + 1) ≠ sizeofFlaMsgHeader ∨
      stream.length < sizeofFlaMsgHeader) : PeekAgain stream (.upTo k)
  | interrupted {e : {e : ℤ // 0 < e}} (he : e.1 = eINTR) : PeekAgain stream (.fail e)

theorem recvHdr_again (h : PeekAgain stream next.head) :
    recvHdr stream retries errno buf next = match retries with
      | 0 => .inl (1, store buf 0 (next.head.bytes sizeofFlaMsgHeader stream))
      | retries + 1 => recvHdr stream retries (next.head.errno errno)
          (store buf 0 (next.head.bytes sizeofFlaMsgHeader stream)) next.tail := by
  generalize hd : next.head = d at h
  have hcond : d.ret sizeofFlaMsgHeader stream ≠ sizeofFlaMsgHeader ∧
      (0 < d.ret sizeofFlaMsgHeader stream ∨ (d.ret sizeofFlaMsgHeader stream = -1 ∧ d.errno errno = eINTR)) := by
    cases h with
    | part hs hne =>
      rw [Delivery.ret_upTo]
      have hsize : sizeofFlaMsgHeader = 8 := rfl
      omega
    | interrupted he => exact ⟨by simp [Delivery.ret], .inr ⟨rfl, he⟩⟩
  conv_lhs => unfold recvHdr
  rw [hd, if_pos hcond.1, if_pos hcond.2]

theorem recvHdr_stop (herr : 0 ≤ errno) (h : ¬ PeekAgain stream next.head) :
    Peeked stream retries errno buf next (recvHdr stream retries errno buf next) := by
  cases hd : next.head with
  | upTo k =>
    by_cases hs : stream = []
    · subst hs
      rw [recvHdr_closed hd]
      exact .closed rfl rfl herr fun h0 => ⟨h0, k, hd, rfl⟩
    have hpos : 0 < stream.length := List.length_pos_iff.2 hs
    have hall : ¬ (min sizeofFlaMsgHeader (k + 1) ≠ sizeofFlaMsgHeader ∨ stream.length < sizeofFlaMsgHeader) :=
      fun hne => h (hd ▸ .part hpos hne)
    push Not at hall
    have hk : sizeofFlaMsgHeader ≤ k + 1 := min_eq_left_iff.1 hall.1
    have hn : next.head.ret sizeofFlaMsgHeader stream = sizeofFlaMsgHeader := Delivery.ret_eq_iff.2 ⟨hall.2, k, hd, hk⟩
    rw [recvHdr_full hn]
    exact .whole hall.2 (hdrLen_peeked hall.2 buf) herr fun h0 => ⟨h0, .whole hd hk⟩
  | fail e =>
    have hne : e.1 ≠ eINTR := fun he => h (hd ▸ .interrupted he)
    have hrun : recvHdr stream retries errno buf next = .inl (-e.1, store buf 0 []) := by
      unfold recvHdr
      rw [hd]
      have hret : Delivery.ret sizeofFlaMsgHeader stream (.fail e) = -1 := rfl
      have herrno : Delivery.errno errno (.fail e) = e.1 := rfl
      rw [hret, herrno, if_pos (by decide), if_neg (by simp [hne]), if_pos rfl]
      rfl
    rw [hrun]
    refine .failed ?_
    have hpos := e.2
    omega

theorem Peeked.again (hagain : PeekAgain stream next.head) {r : ℤ × Bytes ⊕ Bytes × ℤ × ℕ × Stream' Delivery}
    (h : Peeked stream retries (next.head.errno errno) (store buf 0 (next.head.bytes sizeofFlaMsgHeader stream)) next.tail r) :
    Peeked stream (retries + 1) errno buf next r := by
  generalize hd : next.head = d at hagain h
  cases hagain with
  | @part k hs hne =>
    cases h with
    | failed herr => exact .failed herr
    | whole hs' hlen hpos hquiet =>
      refine .whole hs' hlen hpos fun h0 => ?_
      obtain ⟨herr, hseen⟩ := hquiet h0
      have hk : k + 1 < sizeofFlaMsgHeader := by omega
      exact ⟨herr, .short hd hk hseen⟩
    | closed hnil _ _ _ =>
      rw [hnil] at hs
      cases hs
  | @interrupted e he =>
    -- `errno` was set and stays set
    have hne : Delivery.errno errno (.fail e) ≠ 0 := e.2.ne'
    cases h with
    | failed herr => exact .failed herr
    | whole hs hlen hpos hquiet => exact .whole hs hlen hpos fun h0 => absurd (hquiet h0).1 hne
    | closed hnil hlen hpos hquiet =>
      refine .closed hnil (hlen.trans ?_) hpos fun h0 => absurd (hquiet h0).1 hne
      rw [Delivery.bytes, store_nil]

/-- **The header.** Whatever comes, the peeks come to one of three things. -/
theorem recvHdr_inv (stream : List UInt8) (retries : ℕ) (herr : 0 ≤ errno) (buf : Bytes) (next : Stream' Delivery) :
    Peeked stream retries errno buf next (recvHdr stream retries errno buf next) := by
  induction retries generalizing errno buf next with
  | zero =>
    by_cases hagain : PeekAgain stream next.head
    · rw [recvHdr_again hagain]
      exact .failed (by decide)
    · exact recvHdr_stop herr hagain
  | succ retries ih =>
    by_cases hagain : PeekAgain stream next.head
    · rw [recvHdr_again hagain]
      refine .again hagain (ih ?_ _ _)
      cases next.head with
      | upTo k => exact herr
      | fail e => exact e.2.le
    · exact recvHdr_stop herr hagain

end Header

section Data

variable {fuel nleft off retries : ℕ} {errno : ℤ} {buf : Bytes} {stream : List UInt8} {next : Stream' Delivery}

theorem recvData_step (hleft : nleft ≠ 0) (hn : 0 < next.head.ret nleft stream) :
    recvData (fuel + 1) nleft off retries errno buf stream next =
      recvData fuel (nleft - (next.head.bytes nleft stream).length) (off + (next.head.bytes nleft stream).length) retries
        errno (store buf off (next.head.bytes nleft stream)) (stream.drop (next.head.bytes nleft stream).length)
        next.tail := by
  obtain ⟨-, k, hd⟩ := (Delivery.ret_pos_iff (Nat.pos_of_ne_zero hleft)).1 hn
  have hret : (next.head.ret nleft stream).toNat = (next.head.bytes nleft stream).length := by
    rw [hd]
    rfl
  rw [recvData, if_neg hleft]
  dsimp only
  rw [if_neg (not_le.2 hn), hret, hd]
  rfl

theorem recvData_nothing (hleft : nleft ≠ 0) (hn : next.head.ret nleft stream ≤ 0) :
    recvData (fuel + 1) nleft off retries errno buf stream next =
      if next.head.errno errno = eINTR ∧ retries ≠ 0 then
        recvData fuel nleft off (retries - 1) (next.head.errno errno) buf stream next.tail
      else .ok (-next.head.errno errno, buf, stream) := by
  rw [recvData, if_neg hleft]
  dsimp only
  rw [if_pos hn]

/-- **Reading to the end of the stream.** -/
theorem recvData_ends {m : ℕ} (h : EndsQuietly m next) (hm : stream.length = m) (hleft : m < nleft) (hfuel : m < fuel) :
    recvData fuel nleft off retries 0 buf stream next = .ok (0, store buf off stream, []) := by
  induction h generalizing fuel nleft off buf stream with
  | @ended k next hd =>
    obtain rfl := List.length_eq_zero_iff.1 hm
    obtain ⟨fuel, rfl⟩ : ∃ n, fuel = n + 1 := ⟨fuel - 1, by omega⟩
    have hn : next.head.ret nleft [] = 0 := by
      rw [hd, Delivery.ret_upTo]
      simp
    have herrno : next.head.errno 0 = 0 := by rw [hd]; rfl
    rw [recvData_nothing (by omega) hn.le, herrno, if_neg (by simp [eINTR]), store_nil]
    rfl
  | @more m k next hpos hd h ih =>
    obtain ⟨fuel, rfl⟩ : ∃ n, fuel = n + 1 := ⟨fuel - 1, by omega⟩
    have hlen : (next.head.bytes nleft stream).length = min (k + 1) m := by
      rw [hd, Delivery.bytes, List.length_take]
      omega
    have hn : 0 < next.head.ret nleft stream := (Delivery.ret_pos_iff (by omega)).2 ⟨by omega, k, hd⟩
    have hrest : (stream.drop (next.head.bytes nleft stream).length).length = m - (k + 1) := by
      rw [List.length_drop, hlen]
      omega
    rw [recvData_step (by omega) hn, ih hrest (by omega) (by omega), store_append, Delivery.bytes_append_drop]

/-- a read of a stream that is shorter than what is asked for is bounded by the delivery alone -/
theorem read_short {m n k : ℕ} (hn : n = min (min nleft (k + 1)) m) (hshort : m - n < nleft - n) :
    m - n = m - (k + 1) ∧ m < nleft := by omega

/-- **Reading the data.** The loop ends, and returns 0 only for all the bytes it was to read, or at the end of a stream in
which nothing failed. -/
theorem recvData_inv (fuel nleft off retries : ℕ) (errno : ℤ) (buf : Bytes) (stream : List UInt8)
    (next : Stream' Delivery) (hfuel : nleft + retries < fuel) (herr : 0 ≤ errno) :
    ∃ err buf' rest, recvData fuel nleft off retries errno buf stream next = .ok (err, buf', rest) ∧
      (err = 0 → (∃ bs, stream = bs ++ rest ∧ bs.length = nleft ∧ buf' = store buf off bs) ∨
        errno = 0 ∧ stream.length < nleft ∧ EndsQuietly stream.length next) := by
  induction fuel generalizing nleft off retries errno buf stream next with
  | zero => omega
  | succ fuel ih =>
    by_cases hleft : nleft = 0
    · refine ⟨_, _, _, by rw [recvData, if_pos hleft], fun _ => .inl ⟨[], rfl, hleft.symm, (store_nil _ _).symm⟩⟩
    by_cases hn : 0 < next.head.ret nleft stream
    · obtain ⟨hpos, k, hd⟩ := (Delivery.ret_pos_iff (Nat.pos_of_ne_zero hleft)).1 hn
      have hle : (next.head.bytes nleft stream).length ≤ nleft := Delivery.bytes_length_le
      have hlen : (next.head.bytes nleft stream).length = min (min nleft (k + 1)) stream.length := by
        rw [hd, Delivery.bytes, List.length_take]
      obtain ⟨err, buf', rest, hrun, hzero⟩ := ih (nleft - (next.head.bytes nleft stream).length)
        (off + (next.head.bytes nleft stream).length) retries errno (store buf off (next.head.bytes nleft stream))
        (stream.drop (next.head.bytes nleft stream).length) next.tail (by omega) herr
      refine ⟨err, buf', rest, (recvData_step hleft hn).trans hrun, fun h0 => ?_⟩
      rcases hzero h0 with ⟨bs, hbs, hbslen, hstore⟩ | ⟨herr0, hshort, hend⟩
      · refine .inl ⟨next.head.bytes nleft stream ++ bs, ?_, ?_, ?_⟩
        · rw [List.append_assoc, ← hbs, Delivery.bytes_append_drop]
        · rw [List.length_append]
          omega
        · rw [hstore, store_append]
      · rw [List.length_drop] at hshort hend
        obtain ⟨hall, hlt⟩ := read_short hlen hshort
        exact .inr ⟨herr0, hlt, .more hpos hd (hall ▸ hend)⟩
    · rw [recvData_nothing hleft (not_lt.1 hn)]
      by_cases hretry : next.head.errno errno = eINTR ∧ retries ≠ 0
      · rw [if_pos hretry]
        obtain ⟨err, buf', rest, hrun, hzero⟩ := ih nleft off (retries - 1) (next.head.errno errno) buf stream
          next.tail (by omega) (by rw [hretry.1]; decide)
        refine ⟨err, buf', rest, hrun, fun h0 => ?_⟩
        rcases hzero h0 with hall | ⟨herr0, -⟩
        · exact .inl hall
        · rw [hretry.1] at herr0
          exact absurd herr0 (by decide)
      · rw [if_neg hretry]
        refine ⟨_, _, _, rfl, fun h0 => .inr ?_⟩
        cases hd : next.head with
        | fail e =>
          rw [hd] at h0
          have hzero : -e.1 = 0 := h0
          have hpos := e.2
          omega
        | upTo k =>
          rw [hd] at h0
          have hzero : -errno = 0 := h0
          have hnil : stream.length = 0 := by
            by_contra hne
            exact hn ((Delivery.ret_pos_iff (Nat.pos_of_ne_zero hleft)).2 ⟨Nat.pos_of_ne_zero hne, k, hd⟩)
          rw [hnil]
          exact ⟨by omega, Nat.pos_of_ne_zero hleft, .ended hd⟩

end Data

/-! ## Complete messages -/

section Complete

variable {buf : Bytes} {stream : List UInt8} {next : Stream' Delivery}

/-- a stream that is cut short is taken for a message -/
theorem CutShort.returns (h : CutShort buf stream next) :
    ∃ buf', flaSockRecvMsg 0 buf stream next = .ok (0, buf', []) ∧ ¬ Received stream [] buf' := by
  cases h with
  | before hs hlen hd hd' =>
    subst hs
    have hlen' : ¬ flaMsgDataMax < hdrLen (setHdrCmd buf flaMsgCmdNull) := by
      rw [hdrLen_setHdrCmd]
      exact not_lt.2 hlen
    have hsize : sizeofFlaMsgHeader = 8 := rfl
    refine ⟨store (setHdrCmd buf flaMsgCmdNull) 0 [], ?_, ?_⟩
    · rw [flaSockRecvMsg, recvHdr_closed hd]
      dsimp only
      rw [if_neg hlen']
      exact recvData_ends (.ended hd') rfl (by omega) (by omega)
    · rintro ⟨msg, hmsg, hsum, -⟩
      have hnil : msg = [] := (List.append_eq_nil_iff.1 hmsg.symm).1
      rw [hnil, List.length_nil] at hsum
      omega
  | inside hhdr hlen hcut hseen hend =>
    obtain ⟨buf', retries', hrun, hpeek⟩ := recvHdr_whole 0 hhdr hseen (setHdrCmd buf flaMsgCmdNull)
    have hlen' : ¬ flaMsgDataMax < hdrLen buf' := by
      rw [hpeek]
      exact not_lt.2 hlen
    refine ⟨store buf' 0 stream, ?_, ?_⟩
    · rw [flaSockRecvMsg, hrun]
      dsimp only
      rw [if_neg hlen', hpeek]
      exact recvData_ends hend rfl hcut (by omega)
    · rintro ⟨msg, hmsg, hsum, -⟩
      rw [List.append_nil] at hmsg
      have hsize : sizeofFlaMsgHeader = 8 := rfl
      rw [hdrLen_store buf' (by omega), ← hmsg] at hsum
      omega

theorem received_of_stored {bs rest : List UInt8} (hbs : bs.length = sizeofFlaMsgHeader + streamLen bs)
    (hlen : streamLen bs ≤ flaMsgDataMax) (buf : Bytes) : Received (bs ++ rest) rest (store buf 0 bs) := by
  have hsize : sizeofFlaMsgHeader = 8 := rfl
  have hhdr : hdrLen (store buf 0 bs) = streamLen bs := hdrLen_store buf (by omega)
  refine ⟨bs, rfl, ?_, ?_, fun i hi => ?_⟩
  · rw [hhdr]
    exact hbs
  · rw [hhdr]
    exact hlen
  · have hat := store_at buf 0 hi
    rwa [Nat.zero_add] at hat

/-- **Received messages.** For every buffer, every stream and every sequence of deliveries, with `errno` 0 at the start,
the call returns, and returns 0 only for a complete message, if and only if the stream is not cut short. -/
theorem recv_msg_complete_iff (buf : Bytes) (stream : List UInt8) (next : Stream' Delivery) :
    RecvComplete buf stream next ↔ ¬ CutShort buf stream next := by
  constructor
  · rintro ⟨err, buf', rest, hrun, hzero⟩ hcut
    obtain ⟨buf'', hrun', hnot⟩ := hcut.returns
    cases hrun.symm.trans hrun'
    exact hnot (hzero rfl)
  intro hcut
  have hpeek := recvHdr_inv stream 3 (le_refl (0 : ℤ)) (setHdrCmd buf flaMsgCmdNull) next
  unfold RecvComplete flaSockRecvMsg
  generalize recvHdr stream 3 0 (setHdrCmd buf flaMsgCmdNull) next = r at hpeek
  have hsize : sizeofFlaMsgHeader = 8 := rfl
  cases hpeek with
  | failed herr => exact ⟨_, _, _, rfl, fun h0 => absurd h0 herr⟩
  | @whole buf' errno' retries' rest hs hlen hpos hquiet =>
    dsimp only
    by_cases hlong : flaMsgDataMax < hdrLen buf'
    · exact ⟨2, buf', stream, if_pos hlong, fun h0 => by cases h0⟩
    rw [if_neg hlong, hlen]
    rw [hlen] at hlong
    obtain ⟨err, buf'', rest', hrun, hzero⟩ := recvData_inv _ (sizeofFlaMsgHeader + streamLen stream) 0 retries' errno'
      buf' stream rest (Nat.lt_succ_self _) hpos
    refine ⟨err, buf'', rest', hrun, fun h0 => ?_⟩
    rcases hzero h0 with ⟨bs, hbs, hbslen, hstore⟩ | ⟨herr0, hshort, hend⟩
    · have hfront : streamLen stream = streamLen bs := by
        rw [hbs]
        exact streamLen_append (by omega)
      rw [hfront] at hbslen hlong
      rw [hbs, hstore]
      exact received_of_stored hbslen (not_lt.1 hlong) buf'
    · exact absurd (.inside hs (not_lt.1 hlong) hshort (hquiet herr0).2 hend) hcut
  | @closed buf' errno' retries' rest hs hlen hpos hquiet =>
    dsimp only
    by_cases hlong : flaMsgDataMax < hdrLen buf'
    · exact ⟨2, buf', stream, if_pos hlong, fun h0 => by cases h0⟩
    rw [if_neg hlong]
    obtain ⟨err, buf'', rest', hrun, hzero⟩ := recvData_inv _ (sizeofFlaMsgHeader + hdrLen buf') 0 retries' errno' buf'
      stream rest (Nat.lt_succ_self _) hpos
    refine ⟨err, buf'', rest', hrun, fun h0 => ?_⟩
    rcases hzero h0 with ⟨bs, hbs, hbslen, -⟩ | ⟨herr0, -, hend⟩
    · rw [hs] at hbs
      rw [(List.append_eq_nil_iff.1 hbs.symm).1, List.length_nil] at hbslen
      omega
    · obtain ⟨-, k, hd, rfl⟩ := hquiet herr0
      rw [hlen, hdrLen_setHdrCmd] at hlong
      rw [hs] at hend
      cases hend with
      | ended hd' => exact absurd (.before hs (not_lt.1 hlong) hd hd') hcut
      | more hm _ _ => exact absurd hm (Nat.lt_irrefl 0)

/-- the buffer after the reply to an object create -/
def lastReply : Bytes := store 0 0 [12, 0, 0, 0, 10, 0, 0, 0, 0, 0, 0, 0, 3, 0, 0, 0, 5, 0, 0, 0]

/-- **The last reply again.** The daemon closes the connection before it replies. -/
theorem closed_reply_accepted : ¬ RecvComplete lastReply [] (Stream'.const (.upTo 0)) := by
  rintro ⟨err, buf', rest, hrun, hzero⟩
  have hcut : CutShort lastReply [] (Stream'.const (.upTo 0)) := .before rfl (by decide +kernel) rfl rfl
  obtain ⟨buf'', hrun', hnot⟩ := hcut.returns
  cases hrun.symm.trans hrun'
  exact hnot (hzero rfl)

end Complete

end FlexAlloc
