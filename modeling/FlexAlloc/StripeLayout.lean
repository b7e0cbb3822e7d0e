/-
Striping: which block of the device holds a byte of a striped object, and how a transfer is dealt out to the stripes.

A striped object is `strp_nobjs` objects in a row. Its bytes are cut into chunks, and the chunks are dealt out to the
objects in turn. A transfer has one chain of commands for each object it touches: the first command of a chain is computed
by `fla_xne_async_strp_seq_xneio`, the others by `fla_async_strp_cb`, each from the one before.

- `calcStrpObjSlba_of_lt`: the two translations of `calc_strp_obj_slba` give the block of the layout when the number
  between them fits 64 bits.
- `chain_regular`: as long as the pieces of a chain begin in the request, its commands are these pieces.
- `sum_pieces`: the pieces, dealt out to the stripes, are the blocks asked for.
-/
import FlexAlloc.ObjectData
import FlexAlloc.Core.Strides
import FlexAlloc.Core.Interleave

namespace FlexAlloc

open FlexAlloc.Core

/-! ## Commands -/

/-- a command of a striped transfer: its first block, the number of its blocks less one, and where its bytes are in the
caller's buffer -/
structure StrpCmd where
  slba : ℕ
  nlbs : ℕ
  sbufNbytes : ℕ
deriving DecidableEq, Repr

def calcChunkTranslation (zeroOffset chunk translationStep : ℕ) : ℕ :=
  u64 (zeroOffset % chunk + u64 (zeroOffset / chunk * translationStep))

def calcStrpObjSlba (p : StrpParams) (xferSnbytes : ℕ) : ℕ :=
  let chunksInFaobs := calcChunkTranslation xferSnbytes p.strpChunkNbytes (u64 (p.faobjNlbs * p.devLbaNbytes))
  calcChunkTranslation chunksInFaobs p.strpObjTnbytes p.strpChunkNbytes / p.devLbaNbytes

def calcStrpObjNextNbls (p : StrpParams) (sbufNbytes : ℕ) : ℕ :=
  let nbytesToXfer := sub64 p.xferNbytes sbufNbytes
  u16 (sub64 (min p.strpChunkNbytes nbytesToXfer / p.devLbaNbytes) 1)

def calcStrpObjFirstNlbs (p : StrpParams) (xferSnbytes : ℕ) : ℕ :=
  u16 (sub64 (min p.xferNbytes (p.strpChunkNbytes - xferSnbytes % p.strpChunkNbytes) / p.devLbaNbytes) 1)

def calcStrpObjNextSbufNbytes (p : StrpParams) (currSbufNbytes xferedNbls : ℕ) : ℕ :=
  u64 (currSbufNbytes + u32 ((xferedNbls + 1) * p.devLbaNbytes) + u32 (p.strpChunkNbytes * (p.strpNobjs - 1)))

/-- the command that `fla_xne_async_strp_seq_xneio` prepares for the buffer from `sbuf` on -/
def firstCmd (p : StrpParams) (sbuf : ℕ) : StrpCmd :=
  ⟨u64 (calcStrpObjSlba p (u64 (sbuf + p.xferSnbytes)) + p.strpObjStartNbytes / p.devLbaNbytes),
    calcStrpObjFirstNlbs p (u64 (sbuf + p.xferSnbytes)), sbuf⟩

@[simp] theorem firstCmd_sbufNbytes (p : StrpParams) (sbuf : ℕ) : (firstCmd p sbuf).sbufNbytes = sbuf := rfl

/-- where the buffer of the next stripe starts -/
def StrpCmd.after (p : StrpParams) (c : StrpCmd) : ℕ := u64 (c.sbufNbytes + u32 ((c.nlbs + 1) * p.devLbaNbytes))

/-- where the buffer of the next command of the stripe starts -/
def StrpCmd.nextSbuf (p : StrpParams) (c : StrpCmd) : ℕ := calcStrpObjNextSbufNbytes p c.sbufNbytes c.nlbs

/-- the command that `fla_async_strp_cb` makes of a completed one, while there is something left to transfer -/
def StrpCmd.next (p : StrpParams) (c : StrpCmd) : StrpCmd :=
  ⟨u64 (c.slba + (c.nlbs + 1)), calcStrpObjNextNbls p (c.nextSbuf p), c.nextSbuf p⟩

/-- the buffer of stripe `j` in `fla_xne_async_strp_seq_xneio` -/
def sbufAt (p : StrpParams) : ℕ → ℕ
  | 0 => 0
  | j + 1 => (firstCmd p (sbufAt p j)).after p

/-- the commands of stripe `j`, one after the other -/
def chain (p : StrpParams) (j : ℕ) : ℕ → StrpCmd
  | 0 => firstCmd p (sbufAt p j)
  | r + 1 => (chain p j r).next p

/-- what a command transfers: the places in the buffer, in bytes, each with its block of the device -/
def StrpCmd.moves (p : StrpParams) (c : StrpCmd) : Multiset (ℕ × ℕ) :=
  (Multiset.range (c.nlbs + 1)).map fun t => (c.sbufNbytes + t * p.devLbaNbytes, u64 (c.slba + t))

/-! ## The layout -/

/-- the byte, counted from the first of the objects, that holds byte `x` of the striped object: its chunk is dealt to
object `x / chunk % nobjs`, as that object's chunk `x / chunk / nobjs` -/
def layout (p : StrpParams) (x : ℕ) : ℕ :=
  x / p.strpChunkNbytes % p.strpNobjs * (p.faobjNlbs * p.devLbaNbytes) +
    x / p.strpChunkNbytes / p.strpNobjs * p.strpChunkNbytes + x % p.strpChunkNbytes

/-- the block of the device that holds it -/
def layoutLba (p : StrpParams) (x : ℕ) : ℕ := u64 (p.strpObjStartNbytes / p.devLbaNbytes + layout p x / p.devLbaNbytes)

/-- a block of the buffer, with the block of the device that the layout gives it -/
def askedAt (p : StrpParams) (b : ℕ) : ℕ × ℕ := (b * p.devLbaNbytes, layoutLba p (p.xferSnbytes + b * p.devLbaNbytes))

/-- what the transfer is asked for: every block of the buffer once -/
def asked (p : StrpParams) : Multiset (ℕ × ℕ) := (Multiset.range (p.xferNbytes / p.devLbaNbytes)).map (askedAt p)

/-- the number between the two translations of `calc_strp_obj_slba`, before it is put in 64 bits: the byte that would hold
`x` if each chunk had an object of its own -/
def chunkByte (p : StrpParams) (x : ℕ) : ℕ :=
  x % p.strpChunkNbytes + x / p.strpChunkNbytes * (p.faobjNlbs * p.devLbaNbytes)

/-- the second translation: `strp_obj_tnbytes` at a time, a chunk further -/
def fold (p : StrpParams) (w : ℕ) : ℕ := w % p.strpObjTnbytes + w / p.strpObjTnbytes * p.strpChunkNbytes

/-- a request for a part of a striped object -/
structure StrpRequest (p : StrpParams) : Prop where
  nobjs_pos : 1 ≤ p.strpNobjs
  nobjs_le : p.strpNobjs ≤ 512
  lb_pos : 0 < p.devLbaNbytes
  chunk_pos : 0 < p.strpChunkNbytes
  chunk_blocks : p.devLbaNbytes ∣ p.strpChunkNbytes
  chunk_obj : p.strpChunkNbytes ∣ p.faobjNlbs * p.devLbaNbytes
  chunk_lt : p.strpChunkNbytes * p.strpNobjs < 2 ^ 32
  chunk_le : p.strpChunkNbytes ≤ 65536 * p.devLbaNbytes
  total : p.strpObjTnbytes = p.strpNobjs * (p.faobjNlbs * p.devLbaNbytes)
  total_lt : p.strpObjTnbytes < 2 ^ 64
  inside : p.xferSnbytes + p.xferNbytes ≤ p.strpObjTnbytes

/-- what a request says of the striped object it is for -/
structure StrpShape (p : StrpParams) : Prop where
  nobjs_pos : 1 ≤ p.strpNobjs
  lb_pos : 0 < p.devLbaNbytes
  chunk_pos : 0 < p.strpChunkNbytes
  chunk_blocks : p.devLbaNbytes ∣ p.strpChunkNbytes
  chunk_obj : p.strpChunkNbytes ∣ p.faobjNlbs * p.devLbaNbytes
  chunk_lt : p.strpChunkNbytes * p.strpNobjs < 2 ^ 32
  chunk_le : p.strpChunkNbytes ≤ 65536 * p.devLbaNbytes
  total : p.strpObjTnbytes = p.strpNobjs * (p.faobjNlbs * p.devLbaNbytes)

theorem StrpRequest.shape {p : StrpParams} (h : StrpRequest p) : StrpShape p :=
  ⟨h.nobjs_pos, h.lb_pos, h.chunk_pos, h.chunk_blocks, h.chunk_obj, h.chunk_lt, h.chunk_le, h.total⟩

/-- the request is for whole blocks, at least one -/
structure BlockAligned (p : StrpParams) : Prop where
  snbytes : p.devLbaNbytes ∣ p.xferSnbytes
  nbytes : p.devLbaNbytes ∣ p.xferNbytes
  pos : p.devLbaNbytes ≤ p.xferNbytes

/-! ## Chunks -/

/-- where the buffer of the `q`-th chunk that the request meets starts, counted from 0: at the chunk, but the request
begins inside the first -/
def start (p : StrpParams) (q : ℕ) : ℕ :=
  (p.xferSnbytes / p.strpChunkNbytes + q) * p.strpChunkNbytes - p.xferSnbytes

/-- from the `q`-th chunk's first byte in the request to the end of the chunk -/
def width (p : StrpParams) (q : ℕ) : ℕ := p.strpChunkNbytes - (p.xferSnbytes + start p q) % p.strpChunkNbytes

section Chunks

variable {p : StrpParams} {q x d : ℕ}

theorem start_zero : start p 0 = 0 := Nat.sub_eq_zero_of_le (Nat.div_mul_le_self _ _)

theorem add_start_succ (hc : 0 < p.strpChunkNbytes) (q : ℕ) :
    p.xferSnbytes + start p (q + 1) = (p.xferSnbytes / p.strpChunkNbytes + (q + 1)) * p.strpChunkNbytes := by
  have hnext : p.xferSnbytes < (p.xferSnbytes / p.strpChunkNbytes + 1) * p.strpChunkNbytes :=
    Nat.lt_mul_of_div_lt (Nat.lt_succ_self _) hc
  have hmono := Nat.mul_le_mul_right p.strpChunkNbytes (show p.xferSnbytes / p.strpChunkNbytes + 1 ≤
    p.xferSnbytes / p.strpChunkNbytes + (q + 1) by omega)
  exact Nat.add_sub_cancel' (hnext.le.trans hmono)

theorem chunk_start (hc : 0 < p.strpChunkNbytes) (q : ℕ) :
    (p.xferSnbytes + start p q) / p.strpChunkNbytes = p.xferSnbytes / p.strpChunkNbytes + q := by
  cases q with
  | zero => rw [start_zero, Nat.add_zero, Nat.add_zero]
  | succ q => rw [add_start_succ hc, Nat.mul_div_cancel _ hc]

theorem width_pos (hc : 0 < p.strpChunkNbytes) (q : ℕ) : 0 < width p q := Nat.sub_pos_of_lt (Nat.mod_lt _ hc)

theorem start_succ (hc : 0 < p.strpChunkNbytes) (q : ℕ) : start p (q + 1) = start p q + width p q := by
  have hnext := add_start_succ hc q
  have hdiv := Nat.div_add_mod (p.xferSnbytes + start p q) p.strpChunkNbytes
  have hmod := Nat.mod_lt (p.xferSnbytes + start p q) hc
  rw [chunk_start hc, Nat.mul_comm] at hdiv
  rw [← Nat.add_assoc, Nat.succ_mul] at hnext
  unfold width
  omega

theorem start_strictMono (hc : 0 < p.strpChunkNbytes) : StrictMono (start p) :=
  strictMono_nat_of_lt_succ fun q => by rw [start_succ hc]; exact Nat.lt_add_of_pos_right (width_pos hc q)

theorem width_succ (hc : 0 < p.strpChunkNbytes) (q : ℕ) : width p (q + 1) = p.strpChunkNbytes := by
  rw [width, add_start_succ hc, Nat.mul_mod_left, Nat.sub_zero]

theorem width_le (p : StrpParams) (q : ℕ) : width p q ≤ p.strpChunkNbytes := Nat.sub_le _ _

theorem start_add (hc : 0 < p.strpChunkNbytes) (q k : ℕ) :
    start p (q + (k + 1)) = start p q + width p q + k * p.strpChunkNbytes := by
  induction k with
  | zero => rw [start_succ hc, Nat.zero_mul, Nat.add_zero]
  | succ k ih => rw [← Nat.add_assoc q, start_succ hc, ih, ← Nat.add_assoc q, width_succ hc, Nat.succ_mul, Nat.add_assoc]

theorem start_row (h : StrpShape p) (q : ℕ) : start p (q + p.strpNobjs) =
    start p q + width p q + p.strpChunkNbytes * (p.strpNobjs - 1) := by
  obtain ⟨n, hn⟩ : ∃ n, p.strpNobjs = n + 1 := Nat.exists_eq_succ_of_ne_zero (by have := h.nobjs_pos; omega)
  rw [hn, start_add h.chunk_pos, Nat.add_sub_cancel, Nat.mul_comm n]

theorem layout_eq_deal (p : StrpParams) (x : ℕ) :
    layout p x = deal p.strpNobjs (p.faobjNlbs * p.devLbaNbytes) p.strpChunkNbytes x := rfl

theorem layout_add (h : x % p.strpChunkNbytes + d < p.strpChunkNbytes) : layout p (x + d) = layout p x + d := deal_add h

/-- the chunk one row on is behind this one on the device -/
theorem layout_row (h : StrpShape p) (q : ℕ) : layout p (p.xferSnbytes + start p (q + p.strpNobjs)) =
    layout p (p.xferSnbytes + start p q) + width p q := by
  rw [start_row h, ← Nat.add_assoc, ← Nat.add_assoc]
  exact deal_row h.nobjs_pos h.chunk_pos _

theorem layout_lt (h : StrpShape p) (hx : x < p.strpObjTnbytes) : layout p x < p.strpObjTnbytes := by
  rw [h.total] at hx ⊢
  exact deal_lt h.nobjs_pos h.chunk_pos h.chunk_obj hx

theorem fold_chunkByte (h : StrpShape p) (hobj : 0 < p.faobjNlbs * p.devLbaNbytes) (x : ℕ) :
    fold p (chunkByte p x) = layout p x := by
  rw [layout_eq_deal, ← translate_translate h.nobjs_pos h.chunk_pos h.chunk_obj hobj, ← h.total]
  rfl

theorem fold_le (hle : p.strpChunkNbytes ≤ p.strpObjTnbytes) (w : ℕ) : fold p w ≤ w := translate_le hle

/-- **The address computed.** -/
theorem calcStrpObjSlba_eq (h : StrpShape p) (htotal : p.strpObjTnbytes < 2 ^ 64)
    (hobj : 0 < p.faobjNlbs * p.devLbaNbytes) (x : ℕ) :
    calcStrpObjSlba p x = fold p (chunkByte p x % 2 ^ 64) / p.devLbaNbytes := by
  have hle : p.faobjNlbs * p.devLbaNbytes ≤ p.strpObjTnbytes := h.total ▸ Nat.le_mul_of_pos_left _ h.nobjs_pos
  have hbytes : u64 (p.faobjNlbs * p.devLbaNbytes) = p.faobjNlbs * p.devLbaNbytes := u64_of_lt (hle.trans_lt htotal)
  have hinner : calcChunkTranslation x p.strpChunkNbytes (p.faobjNlbs * p.devLbaNbytes) = chunkByte p x % 2 ^ 64 := by
    rw [calcChunkTranslation, u64, u64, Nat.add_mod_mod, chunkByte]
  have hfold := fold_le ((Nat.le_of_dvd hobj h.chunk_obj).trans hle) (chunkByte p x % 2 ^ 64)
  have hlt := Nat.mod_lt (chunkByte p x) (show 0 < 2 ^ 64 by decide)
  rw [calcStrpObjSlba, hbytes, hinner]
  generalize chunkByte p x % 2 ^ 64 = w at *
  have houter : calcChunkTranslation w p.strpObjTnbytes p.strpChunkNbytes = fold p w := by
    unfold fold at hfold ⊢
    rw [calcChunkTranslation, u64_of_lt (n := w / _ * _) (by omega), u64_of_lt (by omega)]
  rw [houter]

/-- … which is the block of the layout when nothing wraps -/
theorem calcStrpObjSlba_of_lt (h : StrpShape p) (htotal : p.strpObjTnbytes < 2 ^ 64)
    (hobj : 0 < p.faobjNlbs * p.devLbaNbytes) (hlt : chunkByte p x < 2 ^ 64) :
    calcStrpObjSlba p x = layout p x / p.devLbaNbytes := by
  rw [calcStrpObjSlba_eq h htotal hobj, Nat.mod_eq_of_lt hlt, fold_chunkByte h hobj]

end Chunks

/-! ## The commands of a stripe -/

/-- the bytes of the `r`-th command of stripe `j`, when the command begins in the request -/
def cmdNbytes (p : StrpParams) (j r : ℕ) : ℕ :=
  if r = 0 then min p.xferNbytes (width p j) else min p.strpChunkNbytes (p.xferNbytes - start p (j + r * p.strpNobjs))

section Commands

variable {p : StrpParams} {j r : ℕ}

theorem nlbs_succ {lb n : ℕ} (hlb : 0 < lb) (hdvd : lb ∣ n) (hpos : 0 < n) (hle : n ≤ 65536 * lb) :
    (u16 (sub64 (n / lb) 1) + 1) * lb = n := by
  obtain ⟨k, rfl⟩ := hdvd
  have hk : 0 < k := Nat.pos_of_mul_pos_left hpos
  have hmax : k ≤ 65536 := Nat.le_of_mul_le_mul_right (Nat.mul_comm lb k ▸ hle) hlb
  rw [Nat.mul_div_cancel_left _ hlb, sub64_of_le hk (by omega), u16, Nat.mod_eq_of_lt (by omega),
    Nat.sub_add_cancel hk, Nat.mul_comm]

theorem min_blocks {lb a b : ℕ} (ha : lb ∣ a) (hb : lb ∣ b) : lb ∣ min a b := by
  rcases min_choice a b with h | h
  · exact h.symm ▸ ha
  · exact h.symm ▸ hb

theorem start_blocks (h : StrpRequest p) (ha : p.devLbaNbytes ∣ p.xferSnbytes) (q : ℕ) : p.devLbaNbytes ∣ start p q :=
  Nat.dvd_sub (h.chunk_blocks.mul_left _) ha

theorem firstCmd_bytes (h : StrpShape p) {sbuf : ℕ} (hx : p.devLbaNbytes ∣ p.xferSnbytes + sbuf)
    (hL : p.devLbaNbytes ∣ p.xferNbytes) (hpos : 0 < p.xferNbytes) (hlt : p.xferSnbytes + sbuf < 2 ^ 64) :
    ((firstCmd p sbuf).nlbs + 1) * p.devLbaNbytes =
      min p.xferNbytes (p.strpChunkNbytes - (p.xferSnbytes + sbuf) % p.strpChunkNbytes) := by
  have hmod := Nat.mod_lt (p.xferSnbytes + sbuf) h.chunk_pos
  have hle := h.chunk_le
  rw [firstCmd, Nat.add_comm sbuf, u64_of_lt hlt, calcStrpObjFirstNlbs]
  exact nlbs_succ h.lb_pos (min_blocks hL (Nat.dvd_sub h.chunk_blocks ((Nat.dvd_mod_iff h.chunk_blocks).2 hx)))
    (by omega) (by omega)

theorem firstCmd_nbytes (h : StrpRequest p) (hs : p.devLbaNbytes ∣ p.xferSnbytes) (hL : p.devLbaNbytes ∣ p.xferNbytes)
    (hj : start p j < p.xferNbytes) :
    ((firstCmd p (start p j)).nlbs + 1) * p.devLbaNbytes = min p.xferNbytes (width p j) := by
  have hinside := h.inside
  have htotal := h.total_lt
  exact firstCmd_bytes h.shape (hs.add (start_blocks h hs j)) hL (by omega) (by omega)

theorem sbufAt_succ (h : StrpRequest p) (hs : p.devLbaNbytes ∣ p.xferSnbytes) (hL : p.devLbaNbytes ∣ p.xferNbytes)
    (hj : start p j < p.xferNbytes) (hat : sbufAt p j = start p j) :
    sbufAt p (j + 1) = u64 (start p j + min p.xferNbytes (width p j)) := by
  have hchunk := h.chunk_lt
  have hone := Nat.le_mul_of_pos_right p.strpChunkNbytes h.nobjs_pos
  have hwidth := width_le p j
  rw [sbufAt, hat, StrpCmd.after, firstCmd_nbytes h hs hL hj, u32_of_lt (by omega), firstCmd_sbufNbytes]

/-- the buffers of the stripes that are started begin with the chunks -/
theorem sbufAt_eq (h : StrpRequest p) (hs : p.devLbaNbytes ∣ p.xferSnbytes) (hL : p.devLbaNbytes ∣ p.xferNbytes)
    (hj : start p j < p.xferNbytes) : sbufAt p j = start p j := by
  induction j with
  | zero => exact start_zero.symm
  | succ j ih =>
    have hinside := h.inside
    have htotal := h.total_lt
    have hnext := start_succ h.chunk_pos j
    have hprev : start p j < p.xferNbytes := by omega
    rw [sbufAt_succ h hs hL hprev (ih hprev), min_eq_right (by omega), hnext, u64_of_lt (by omega)]

theorem nextSbuf_eq (h : StrpShape p) {c : StrpCmd} {sbuf n : ℕ} (hsbuf : c.sbufNbytes = sbuf)
    (hn : (c.nlbs + 1) * p.devLbaNbytes = n) (hle : n ≤ p.strpChunkNbytes) :
    c.nextSbuf p = u64 (sbuf + n + p.strpChunkNbytes * (p.strpNobjs - 1)) := by
  have hchunk := h.chunk_lt
  have hone := Nat.le_mul_of_pos_right p.strpChunkNbytes h.nobjs_pos
  have hrow := Nat.mul_le_mul_left p.strpChunkNbytes (Nat.sub_le p.strpNobjs 1)
  rw [StrpCmd.nextSbuf, calcStrpObjNextSbufNbytes, hsbuf, hn, u32_of_lt (n := n) (by omega),
    u32_of_lt (n := _ * _) (by omega)]

theorem cmdNbytes_le (p : StrpParams) (j r : ℕ) : cmdNbytes p j r ≤ p.strpChunkNbytes := by
  unfold cmdNbytes
  split_ifs
  · exact (min_le_right _ _).trans (width_le p j)
  · exact min_le_left _ _

/-- a command of a stripe that goes on is for all the rest of its chunk -/
theorem cmdNbytes_full (hc : 0 < p.strpChunkNbytes) (hn : 0 < p.strpNobjs)
    (hnext : start p (j + (r + 1) * p.strpNobjs) ≤ p.xferNbytes) :
    cmdNbytes p j r = width p (j + r * p.strpNobjs) := by
  have hbehind : start p (j + r * p.strpNobjs + 1) ≤ p.xferNbytes := by
    refine ((start_strictMono hc).monotone ?_).trans hnext
    rw [Nat.succ_mul]
    omega
  rw [start_succ hc] at hbehind
  unfold cmdNbytes
  split_ifs with hr
  · rw [hr, Nat.zero_mul, Nat.add_zero] at hbehind ⊢
    exact min_eq_right (by omega)
  · obtain ⟨q, hq⟩ : ∃ q, j + r * p.strpNobjs = q + 1 :=
      Nat.exists_eq_succ_of_ne_zero (by have := Nat.mul_pos (Nat.pos_of_ne_zero hr) hn; omega)
    rw [hq, width_succ hc] at hbehind ⊢
    exact min_eq_left (by omega)

/-- **The commands of a stripe** are for the chunks of the stripe, one row after the other, as long as these begin in the
request. -/
theorem chain_regular (h : StrpRequest p) (hs : p.devLbaNbytes ∣ p.xferSnbytes) (hL : p.devLbaNbytes ∣ p.xferNbytes)
    (hlt : start p (j + r * p.strpNobjs) < p.xferNbytes) :
    (chain p j r).sbufNbytes = start p (j + r * p.strpNobjs) ∧
      ((chain p j r).nlbs + 1) * p.devLbaNbytes = cmdNbytes p j r := by
  have hmono := (start_strictMono h.chunk_pos).monotone
  induction r with
  | zero =>
    rw [Nat.zero_mul, Nat.add_zero] at hlt ⊢
    rw [chain, sbufAt_eq h hs hL hlt]
    exact ⟨rfl, firstCmd_nbytes h hs hL hlt⟩
  | succ r ih =>
    have hprev : start p (j + r * p.strpNobjs) < p.xferNbytes := by
      refine (hmono ?_).trans_lt hlt
      rw [Nat.succ_mul]
      omega
    obtain ⟨hsbuf, hbytes⟩ := ih hprev
    have hinside := h.inside
    have htotal := h.total_lt
    have hrow := start_row h.shape (j + r * p.strpNobjs)
    rw [cmdNbytes_full h.chunk_pos h.nobjs_pos hlt.le] at hbytes
    rw [Nat.succ_mul, ← Nat.add_assoc] at hlt ⊢
    have hnext : (chain p j r).nextSbuf p = start p (j + r * p.strpNobjs + p.strpNobjs) := by
      rw [nextSbuf_eq h.shape hsbuf hbytes (width_le p _), ← hrow, u64_of_lt (by omega)]
    refine ⟨hnext, ?_⟩
    have hle := h.chunk_le
    have hpos := h.chunk_pos
    have hnlbs : (chain p j (r + 1)).nlbs =
        u16 (sub64 (min p.strpChunkNbytes (p.xferNbytes - start p (j + r * p.strpNobjs + p.strpNobjs)) /
          p.devLbaNbytes) 1) := by
      rw [chain, StrpCmd.next, hnext, calcStrpObjNextNbls, sub64_of_le hlt.le (by omega)]
    rw [hnlbs, cmdNbytes, if_neg (by omega), Nat.succ_mul r, ← Nat.add_assoc j]
    exact nlbs_succ h.lb_pos (min_blocks h.chunk_blocks (Nat.dvd_sub hL (start_blocks h hs _))) (by omega) (by omega)

end Commands

/-! ## The whole request -/

/-- the number of chunks the request meets -/
def pieces (p : StrpParams) : ℕ :=
  (p.xferSnbytes + p.xferNbytes + p.strpChunkNbytes - 1) / p.strpChunkNbytes - p.xferSnbytes / p.strpChunkNbytes

/-- the request ends inside a chunk, not the one it begins in, but one of the first `nobjs` that it meets: the first
command of the chunk's stripe is for more than is left -/
def Overruns (p : StrpParams) : Prop :=
  (p.xferSnbytes + p.xferNbytes) % p.strpChunkNbytes ≠ 0 ∧
    p.xferSnbytes / p.strpChunkNbytes < (p.xferSnbytes + p.xferNbytes) / p.strpChunkNbytes ∧
    (p.xferSnbytes + p.xferNbytes) / p.strpChunkNbytes < p.xferSnbytes / p.strpChunkNbytes + p.strpNobjs

instance decidableOverruns (p : StrpParams) : Decidable (Overruns p) := by unfold Overruns; infer_instance

section Request

variable {p : StrpParams} {j r q : ℕ}

theorem start_lt_iff (hc : 0 < p.strpChunkNbytes) (hL : 0 < p.xferNbytes) (q : ℕ) :
    start p q < p.xferNbytes ↔ q < pieces p := by
  have hceil : p.xferSnbytes / p.strpChunkNbytes + q <
      (p.xferSnbytes + p.xferNbytes + p.strpChunkNbytes - 1) / p.strpChunkNbytes ↔
        (p.xferSnbytes / p.strpChunkNbytes + q) * p.strpChunkNbytes < p.xferSnbytes + p.xferNbytes := by
    rw [← Nat.succ_le_iff, Nat.le_div_iff_mul_le hc, Nat.succ_mul]
    omega
  unfold start pieces
  omega

/-- the chunk that the request ends in, when it ends inside one -/
theorem start_end (hc : 0 < p.strpChunkNbytes) (hover : Overruns p) :
    ∃ j, j < p.strpNobjs ∧ start p j < p.xferNbytes ∧ p.xferNbytes - start p j < min p.xferNbytes (width p j) := by
  obtain ⟨hinside, hbehind, hrow⟩ := hover
  obtain ⟨k, hk⟩ := Nat.exists_eq_add_of_lt hbehind
  have hdiv := Nat.div_add_mod (p.xferSnbytes + p.xferNbytes) p.strpChunkNbytes
  have hmod := Nat.mod_lt (p.xferSnbytes + p.xferNbytes) hc
  have hstart := add_start_succ hc k
  have hpos := (start_strictMono hc).monotone (Nat.zero_le k)
  have hstep := start_succ hc k
  have hwide := width_pos hc k
  rw [Nat.mul_comm, hk, Nat.add_assoc] at hdiv
  rw [start_zero] at hpos
  refine ⟨k + 1, by omega, by omega, ?_⟩
  rw [width_succ hc]
  omega

/-- unless the request overruns, the first command of a stripe is for no more than is left -/
theorem first_le (hc : 0 < p.strpChunkNbytes) (hover : ¬ Overruns p) (hj : j < p.strpNobjs)
    (hlt : start p j < p.xferNbytes) : min p.xferNbytes (width p j) ≤ p.xferNbytes - start p j := by
  cases j with
  | zero => rw [start_zero]; omega
  | succ k =>
    rw [width_succ hc]
    by_contra hless
    have hstart := add_start_succ hc k
    have hend : (p.xferSnbytes + p.xferNbytes) / p.strpChunkNbytes = p.xferSnbytes / p.strpChunkNbytes + (k + 1) :=
      Nat.div_eq_of_lt_le (by omega) (by rw [Nat.succ_mul]; omega)
    have hdiv := Nat.div_add_mod (p.xferSnbytes + p.xferNbytes) p.strpChunkNbytes
    rw [Nat.mul_comm, hend] at hdiv
    exact hover ⟨by omega, by omega, by omega⟩

/-- a command's bytes are those of its chunk that are asked for -/
theorem cmdNbytes_piece (h : StrpRequest p) (hover : ¬ Overruns p) (hj : j < p.strpNobjs)
    (hlt : start p (j + r * p.strpNobjs) < p.xferNbytes) : cmdNbytes p j r =
      min (width p (j + r * p.strpNobjs)) (p.xferNbytes - start p (j + r * p.strpNobjs)) := by
  by_cases hr : r = 0
  · rw [hr, Nat.zero_mul, Nat.add_zero] at hlt ⊢
    have hle := first_le h.chunk_pos hover hj hlt
    rw [cmdNbytes, if_pos rfl]
    omega
  · obtain ⟨k, hk⟩ : ∃ k, j + r * p.strpNobjs = k + 1 :=
      Nat.exists_eq_succ_of_ne_zero (by have := Nat.mul_pos (Nat.pos_of_ne_zero hr) h.nobjs_pos; omega)
    rw [cmdNbytes, if_neg hr, hk, width_succ h.chunk_pos]

theorem u64_add_u64 (a b : ℕ) : u64 (u64 a + b) = u64 (a + b) := Nat.mod_add_mod _ _ _

/-- the addresses of a stripe are those of the layout when its first is -/
theorem chain_slba (h : StrpRequest p) (hs : p.devLbaNbytes ∣ p.xferSnbytes) (hL : p.devLbaNbytes ∣ p.xferNbytes)
    (hfirst : start p j < p.xferNbytes → (firstCmd p (start p j)).slba = layoutLba p (p.xferSnbytes + start p j))
    (hlt : start p (j + r * p.strpNobjs) < p.xferNbytes) :
    (chain p j r).slba = layoutLba p (p.xferSnbytes + start p (j + r * p.strpNobjs)) := by
  induction r with
  | zero =>
    rw [Nat.zero_mul, Nat.add_zero] at hlt ⊢
    rw [chain, sbufAt_eq h hs hL hlt, hfirst hlt]
  | succ r ih =>
    have hprev : start p (j + r * p.strpNobjs) < p.xferNbytes := by
      refine ((start_strictMono h.chunk_pos).monotone ?_).trans_lt hlt
      rw [Nat.succ_mul]
      omega
    obtain ⟨-, hbytes⟩ := chain_regular h hs hL hprev
    rw [cmdNbytes_full h.chunk_pos h.nobjs_pos hlt.le] at hbytes
    rw [Nat.succ_mul, ← Nat.add_assoc, layoutLba, layout_row h.shape, ← hbytes, Nat.add_mul_div_right _ _ h.lb_pos, chain,
      StrpCmd.next, ih hprev, layoutLba, u64_add_u64, Nat.add_assoc]

theorem layoutLba_add (h : StrpRequest p) {x t : ℕ} (hlt : x % p.strpChunkNbytes + t * p.devLbaNbytes < p.strpChunkNbytes) :
    layoutLba p (x + t * p.devLbaNbytes) = u64 (layoutLba p x + t) := by
  rw [layoutLba, layout_add hlt, Nat.add_mul_div_right _ _ h.lb_pos, layoutLba, u64_add_u64, Nat.add_assoc]

/-- the first block of the buffer that is not in front of the `q`-th chunk -/
def bound (p : StrpParams) (q : ℕ) : ℕ := min (start p q) p.xferNbytes / p.devLbaNbytes

theorem bound_zero (p : StrpParams) : bound p 0 = 0 := by rw [bound, start_zero, Nat.zero_min, Nat.zero_div]

theorem bound_mono (hc : 0 < p.strpChunkNbytes) (q : ℕ) : bound p q ≤ bound p (q + 1) :=
  Nat.div_le_div_right (min_le_min_right _ ((start_strictMono hc).monotone (Nat.le_succ q)))

theorem bound_pieces (hc : 0 < p.strpChunkNbytes) (hL : 0 < p.xferNbytes) :
    bound p (pieces p) = p.xferNbytes / p.devLbaNbytes := by
  have hend := (start_lt_iff hc hL (pieces p)).not.2 (lt_irrefl _)
  rw [bound, min_eq_right (Nat.not_lt.1 hend)]

theorem moves_piece (h : StrpRequest p) (hs : p.devLbaNbytes ∣ p.xferSnbytes) {c : StrpCmd}
    (hlt : start p q < p.xferNbytes) (hsbuf : c.sbufNbytes = start p q)
    (hbytes : (c.nlbs + 1) * p.devLbaNbytes = min (width p q) (p.xferNbytes - start p q))
    (hslba : c.slba = layoutLba p (p.xferSnbytes + start p q)) :
    c.moves p = (Multiset.range (bound p (q + 1) - bound p q)).map fun t => askedAt p (bound p q + t) := by
  have hstart := Nat.div_mul_cancel (start_blocks h hs q)
  have hbound : bound p q = start p q / p.devLbaNbytes := by rw [bound, min_eq_left hlt.le]
  have hnlbs : bound p (q + 1) - bound p q = c.nlbs + 1 := by
    have hnext : min (start p (q + 1)) p.xferNbytes = start p q + (c.nlbs + 1) * p.devLbaNbytes := by
      rw [hbytes, start_succ h.chunk_pos]
      omega
    rw [bound, hnext, Nat.add_mul_div_right _ _ h.lb_pos, hbound, Nat.add_sub_cancel_left]
  rw [hnlbs, StrpCmd.moves, hsbuf, hslba, hbound]
  refine Multiset.map_congr rfl fun t ht => ?_
  have hmul : (t + 1) * p.devLbaNbytes ≤ (c.nlbs + 1) * p.devLbaNbytes :=
    Nat.mul_le_mul_right _ (Multiset.mem_range.1 ht)
  have hmod := Nat.mod_lt (p.xferSnbytes + start p q) h.chunk_pos
  have hlb := h.lb_pos
  have hwidth : width p q = p.strpChunkNbytes - (p.xferSnbytes + start p q) % p.strpChunkNbytes := rfl
  rw [Nat.succ_mul] at hmul
  rw [askedAt, Nat.add_mul, hstart, ← Nat.add_assoc, layoutLba_add h (by omega)]

/-- **The request, stripe by stripe.** The commands of all stripes, one for each chunk met, transfer what is asked for. -/
theorem sum_pieces (h : StrpRequest p) (ha : BlockAligned p) (hover : ¬ Overruns p)
    (hfirst : ∀ j < p.strpNobjs, start p j < p.xferNbytes →
      (firstCmd p (start p j)).slba = layoutLba p (p.xferSnbytes + start p j)) :
    ∑ j ∈ Finset.range p.strpNobjs, ∑ r ∈ Finset.range (strideCount p.strpNobjs j (pieces p)), (chain p j r).moves p =
      asked p := by
  have hL : 0 < p.xferNbytes := h.lb_pos.trans_le ha.pos
  calc ∑ j ∈ Finset.range p.strpNobjs, ∑ r ∈ Finset.range (strideCount p.strpNobjs j (pieces p)), (chain p j r).moves p
      = ∑ j ∈ Finset.range p.strpNobjs, ∑ r ∈ Finset.range (strideCount p.strpNobjs j (pieces p)),
          (Multiset.range (bound p (j + r * p.strpNobjs + 1) - bound p (j + r * p.strpNobjs))).map
            fun t => askedAt p (bound p (j + r * p.strpNobjs) + t) := by
        refine Finset.sum_congr rfl fun j hj => Finset.sum_congr rfl fun r hr => ?_
        have hj := Finset.mem_range.1 hj
        have hlt := (start_lt_iff h.chunk_pos hL _).2 ((lt_strideCount hj).1 (Finset.mem_range.1 hr))
        obtain ⟨hsbuf, hbytes⟩ := chain_regular h ha.snbytes ha.nbytes hlt
        exact moves_piece h ha.snbytes hlt hsbuf (hbytes.trans (cmdNbytes_piece h hover hj hlt))
          (chain_slba h ha.snbytes ha.nbytes (hfirst j hj) hlt)
    _ = ∑ q ∈ Finset.range (pieces p), (Multiset.range (bound p (q + 1) - bound p q)).map
          fun t => askedAt p (bound p q + t) :=
        (sum_strides h.nobjs_pos (fun q => (Multiset.range (bound p (q + 1) - bound p q)).map
          fun t => askedAt p (bound p q + t)) (pieces p)).symm
    _ = (Multiset.range (bound p (pieces p))).map (askedAt p) :=
        (map_range_tiles (bound_zero p) (bound_mono h.chunk_pos) (askedAt p) (pieces p)).symm
    _ = asked p := by rw [bound_pieces h.chunk_pos hL]; rfl

end Request

/-! ## When a transfer is exact -/

/-- what a transfer needs to move what it is asked to: the first row holds no command for more than is left, no offset in
the buffer leaves 64 bits, and the first address of each stripe is that of the layout (which it is when `chunkByte` fits
64 bits, and may be by chance when it does not) -/
structure StrpFits (p : StrpParams) : Prop where
  ends : ¬ Overruns p
  buffer : p.xferNbytes + p.strpChunkNbytes * (p.strpNobjs - 1) < 2 ^ 64
  address : ∀ j < p.strpNobjs, start p j < p.xferNbytes →
    fold p (chunkByte p (p.xferSnbytes + start p j) % 2 ^ 64) / p.devLbaNbytes =
      layout p (p.xferSnbytes + start p j) / p.devLbaNbytes

section Fits

variable {p : StrpParams} {j r : ℕ}

/-- equal blocks of a device are equal addresses -/
theorem u64_add_inj {a b c : ℕ} (ha : a < 2 ^ 64) (hb : b < 2 ^ 64) (h : u64 (a + c) = u64 (b + c)) : a = b := by
  unfold u64 at h
  omega

theorem firstCmd_slba_iff (h : StrpRequest p) (hlt : start p j < p.xferNbytes) :
    (firstCmd p (start p j)).slba = layoutLba p (p.xferSnbytes + start p j) ↔
      fold p (chunkByte p (p.xferSnbytes + start p j) % 2 ^ 64) / p.devLbaNbytes =
        layout p (p.xferSnbytes + start p j) / p.devLbaNbytes := by
  have hinside := h.inside
  have htotal := h.total_lt
  have hobj : 0 < p.faobjNlbs * p.devLbaNbytes := by
    by_contra hzero
    have := h.total
    rw [Nat.eq_zero_of_not_pos hzero, Nat.mul_zero] at this
    omega
  have hrow : p.strpChunkNbytes ≤ p.strpObjTnbytes :=
    (Nat.le_of_dvd hobj h.chunk_obj).trans (h.total ▸ Nat.le_mul_of_pos_left _ h.nobjs_pos)
  rw [firstCmd, u64_of_lt (n := start p j + p.xferSnbytes) (by omega), Nat.add_comm (start p j), layoutLba,
    Nat.add_comm (p.strpObjStartNbytes / _), calcStrpObjSlba_eq h.shape h.total_lt hobj]
  have hfold := fold_le hrow (chunkByte p (p.xferSnbytes + start p j) % 2 ^ 64)
  have hmod := Nat.mod_lt (chunkByte p (p.xferSnbytes + start p j)) (show 0 < 2 ^ 64 by decide)
  have hlayout : layout p (p.xferSnbytes + start p j) < 2 ^ 64 :=
    (layout_lt h.shape (by omega)).trans h.total_lt
  have hcode := (Nat.div_le_self (fold p (chunkByte p (p.xferSnbytes + start p j) % 2 ^ 64)) p.devLbaNbytes).trans_lt
    (hfold.trans_lt hmod)
  exact ⟨u64_add_inj hcode ((Nat.div_le_self _ _).trans_lt hlayout), fun heq => by rw [heq]⟩

theorem nextSbuf_fits (h : StrpRequest p) (ha : BlockAligned p) (hover : ¬ Overruns p)
    (hbuf : p.xferNbytes + p.strpChunkNbytes * (p.strpNobjs - 1) < 2 ^ 64) (hj : j < p.strpNobjs)
    (hlt : start p (j + r * p.strpNobjs) < p.xferNbytes) : (chain p j r).nextSbuf p =
      start p (j + r * p.strpNobjs) + cmdNbytes p j r + p.strpChunkNbytes * (p.strpNobjs - 1) := by
  obtain ⟨hsbuf, hbytes⟩ := chain_regular h ha.snbytes ha.nbytes hlt
  have hpiece := cmdNbytes_piece h hover hj hlt
  rw [nextSbuf_eq h.shape hsbuf hbytes (cmdNbytes_le p j r), u64_of_lt (by omega)]

theorem cmdNbytes_pos (h : StrpRequest p) (hlt : start p (j + r * p.strpNobjs) < p.xferNbytes) : 0 < cmdNbytes p j r := by
  have hwidth := width_pos h.chunk_pos j
  have hchunk := h.chunk_pos
  unfold cmdNbytes
  split_ifs <;> omega

/-- a stripe goes on as long as its chunks begin in the request -/
theorem goes_iff (h : StrpRequest p) (ha : BlockAligned p) (hover : ¬ Overruns p)
    (hbuf : p.xferNbytes + p.strpChunkNbytes * (p.strpNobjs - 1) < 2 ^ 64) (hj : j < p.strpNobjs)
    (hlt : start p (j + r * p.strpNobjs) < p.xferNbytes) :
    (chain p j r).nextSbuf p < p.xferNbytes ↔ start p (j + (r + 1) * p.strpNobjs) < p.xferNbytes := by
  have hpiece := cmdNbytes_piece h hover hj hlt
  have hrow := start_row h.shape (j + r * p.strpNobjs)
  rw [nextSbuf_fits h ha hover hbuf hj hlt, Nat.succ_mul, ← Nat.add_assoc, hrow]
  omega

end Fits

end FlexAlloc
