/-
The messages between the daemon and its clients (`flexalloc_daemon_base.c`), from the client that packs a request to the
call the daemon makes for it.

A client has one buffer to send from and the daemon one to receive in. Neither is cleared between messages: a request
overwrites the bytes it packs and the header fields it sets, and receiving overwrites as many bytes as the header says.
`handlerCall` is what each `fla_daemon_*_rsp` reads out of the receive buffer and passes to the base function.

- `request_decodes_iff`: for every call, every buffer of the client and every buffer of the daemon, the handler makes the
  call the client asked for; for `pool_create`, which does not set the length, if and only if what the length left in the
  header does not cover, and what it covers past the name, is right by chance.
- `create_request_lost`: a client that has sent nothing but messages without data.
-/
import FlexAlloc.Sync
import FlexAlloc.Pool

namespace FlexAlloc

open FlexAlloc.Core Function

/-! ## Messages -/

/-- `FLA_MSG_CMD_*` -/
inductive MsgCmd where
  | identify
  | sync
  | poolOpen
  | poolCreate
  | poolDestroy
  | poolSetRootObject
  | poolGetRootObject
  | objectOpen
  | objectCreate
  | objectDestroy
  | syncNoRsps
  | initInfo
  | other
deriving DecidableEq, Repr

/-- `struct fla_msg_header` -/
structure MsgHeader where
  len : ℕ
  cmd : MsgCmd
  tag : ℕ
deriving DecidableEq, Repr

/-- `struct fla_msg`, with the header and the data it points to -/
structure MsgBuf where
  hdr : MsgHeader
  data : Bytes

def flaMsgDataMax : ℕ := 2048

/-- the operations a client sends a message for, with their arguments -/
inductive Call where
  | sync
  | poolOpen (name : List (BitVec 8))
  | poolCreate (arg : PoolCreateArg)
  | poolDestroy (handle : PoolHandle)
  | objectOpen (pool : PoolHandle) (obj : Obj)
  | objectCreate (pool : PoolHandle)
  | objectDestroy (pool : PoolHandle) (obj : Obj)
  | poolSetRootObject (pool : PoolHandle) (obj : Obj) (act : RootObjSetAction)
  | poolGetRootObject (pool : PoolHandle)
deriving DecidableEq, Repr

def PoolHandle.Fits (h : PoolHandle) : Prop := h.h2 < 2 ^ 64 ∧ h.ndx < 2 ^ 32

def Obj.Fits (o : Obj) : Prop := o.slabId < 2 ^ 32 ∧ o.entryNdx < 2 ^ 32

/-- a pool name: a C string shorter than `FLA_NAME_SIZE_POOL` -/
def NameFits (name : List (BitVec 8)) : Prop := name.length < flaNameSizePool ∧ 0 ∉ name

/-- numbers fit their fields, and the length given with a name is within the string and its terminator -/
structure PoolCreateArg.Fits (arg : PoolCreateArg) : Prop where
  name : NameFits arg.name
  nameLen_nonneg : 0 ≤ arg.nameLen
  nameLen_le : arg.nameLen ≤ arg.name.length + 1
  objNlb : arg.objNlb < 2 ^ 32
  strpNobjs : arg.strpNobjs < 2 ^ 32
  strpNbytes : arg.strpNbytes < 2 ^ 32

/-- arguments the base functions can be called with -/
def Call.Fits : Call → Prop
  | .sync => True
  | .poolOpen name => NameFits name
  | .poolCreate arg => arg.Fits
  | .poolDestroy handle => handle.Fits
  | .objectOpen pool obj => pool.Fits ∧ obj.Fits
  | .objectCreate pool => pool.Fits
  | .objectDestroy pool obj => pool.Fits ∧ obj.Fits
  | .poolSetRootObject pool obj _ => pool.Fits ∧ obj.Fits
  | .poolGetRootObject pool => pool.Fits

/-! ## Requests -/

def sizeofFlaPool : ℕ := 16

def sizeofFlaObject : ℕ := 8

def sizeofFlaPoolCreateArg : ℕ := 32

/-- a pool handle in memory; `mem` are its last four bytes, which hold nothing -/
def poolBytes (mem : Bytes) (h : PoolHandle) : Bytes :=
  image [(0, 12, record [(8, h.h2), (4, h.ndx)]), (12, 4, mem)]

def objBytes (o : Obj) : Bytes := record [(4, o.slabId), (4, o.entryNdx)]

def RootObjSetAction.value (act : RootObjSetAction) : ℕ := act.force.toNat + 2 * act.clear.toNat

def cint (n : ℤ) : BitVec 32 := BitVec.ofInt 32 n

/-- the arguments of a pool create; the second field is the address of the name -/
def createArgBytes (mem : Bytes) (arg : PoolCreateArg) : Bytes :=
  record [(8, arg.flags.toNat), (8, leNat mem 0 8), (4, (cint arg.nameLen).toNat), (4, arg.objNlb), (4, arg.strpNobjs),
    (4, arg.strpNbytes)]

/-- pack `len` bytes and set the header -/
def request (cmd : MsgCmd) (len : ℕ) (b : Bytes) (send : MsgBuf) : MsgBuf :=
  ⟨⟨len, cmd, send.hdr.tag⟩, copyBytes send.data 0 b 0 len⟩

/-- `fla_daemon_sync_rq`, up to the message it sends -/
def flaDaemonSyncRq (send : MsgBuf) : MsgBuf := request .sync 0 0 send

/-- `fla_daemon_pool_open_rq`, up to the message it sends: the bytes of the name without its terminator -/
def flaDaemonPoolOpenRq (name : List (BitVec 8)) (send : MsgBuf) : MsgBuf :=
  request .poolOpen name.length (nameBytes name) send

/-- `fla_daemon_pool_create_rq`, up to the message it sends: the length in the header is not set -/
def flaDaemonPoolCreateRq (mem : Bytes) (arg : PoolCreateArg) (send : MsgBuf) : MsgBuf where
  hdr := { send.hdr with cmd := .poolCreate }
  data := copyBytes (copyBytes send.data 0 (createArgBytes mem arg) 0 sizeofFlaPoolCreateArg) sizeofFlaPoolCreateArg
    (nameBytes (arg.name ++ [0])) 0 arg.nameLen.toNat

/-- `fla_daemon_pool_destroy_rq`, up to the message it sends -/
def flaDaemonPoolDestroyRq (mem : Bytes) (handle : PoolHandle) (send : MsgBuf) : MsgBuf :=
  request .poolDestroy sizeofFlaPool (poolBytes mem handle) send

/-- a pool handle and an object, as three of the requests pack them -/
def poolObjBytes (mem : Bytes) (pool : PoolHandle) (obj : Obj) (rest : List (ℕ × ℕ × Bytes)) : Bytes :=
  image ((0, sizeofFlaPool, poolBytes mem pool) :: (sizeofFlaPool, sizeofFlaObject, objBytes obj) :: rest)

/-- `fla_daemon_object_open_rq`, up to the message it sends -/
def flaDaemonObjectOpenRq (mem : Bytes) (pool : PoolHandle) (obj : Obj) (send : MsgBuf) : MsgBuf :=
  request .objectOpen (sizeofFlaPool + sizeofFlaObject) (poolObjBytes mem pool obj []) send

/-- `fla_daemon_object_create_rq`, up to the message it sends -/
def flaDaemonObjectCreateRq (mem : Bytes) (pool : PoolHandle) (send : MsgBuf) : MsgBuf :=
  request .objectCreate sizeofFlaPool (poolBytes mem pool) send

/-- `fla_daemon_object_destroy_rq`, up to the message it sends -/
def flaDaemonObjectDestroyRq (mem : Bytes) (pool : PoolHandle) (obj : Obj) (send : MsgBuf) : MsgBuf :=
  request .objectDestroy (sizeofFlaPool + sizeofFlaObject) (poolObjBytes mem pool obj []) send

/-- `fla_daemon_pool_set_root_object_rq`, up to the message it sends -/
def flaDaemonPoolSetRootObjectRq (mem : Bytes) (pool : PoolHandle) (obj : Obj) (act : RootObjSetAction)
    (send : MsgBuf) : MsgBuf :=
  request .poolSetRootObject (sizeofFlaPool + sizeofFlaObject + 4)
    (poolObjBytes mem pool obj [(sizeofFlaPool + sizeofFlaObject, 4, record [(4, act.value)])]) send

/-- `fla_daemon_pool_get_root_object_rq`, up to the message it sends -/
def flaDaemonPoolGetRootObjectRq (mem : Bytes) (pool : PoolHandle) (send : MsgBuf) : MsgBuf :=
  request .poolGetRootObject sizeofFlaPool (poolBytes mem pool) send

def clientRequest (mem : Bytes) (send : MsgBuf) : Call → MsgBuf
  | .sync => flaDaemonSyncRq send
  | .poolOpen name => flaDaemonPoolOpenRq name send
  | .poolCreate arg => flaDaemonPoolCreateRq mem arg send
  | .poolDestroy handle => flaDaemonPoolDestroyRq mem handle send
  | .objectOpen pool obj => flaDaemonObjectOpenRq mem pool obj send
  | .objectCreate pool => flaDaemonObjectCreateRq mem pool send
  | .objectDestroy pool obj => flaDaemonObjectDestroyRq mem pool obj send
  | .poolSetRootObject pool obj act => flaDaemonPoolSetRootObjectRq mem pool obj act send
  | .poolGetRootObject pool => flaDaemonPoolGetRootObjectRq mem pool send

/-! ## What the daemon makes of them -/

/-- `fla_daemon_loop` reads the header and then as many bytes of data as it says, over what its buffer held -/
def daemonReceive (old : Bytes) (msg : MsgBuf) : Ret MsgBuf :=
  if flaMsgDataMax < msg.hdr.len then .error .outOfBounds else .ok ⟨msg.hdr, copyBytes old 0 msg.data 0 msg.hdr.len⟩

def poolAt (b : Bytes) (off : ℕ) : PoolHandle := ⟨leNat b off 8, leNat b (off + 8) 4⟩

def objAt (b : Bytes) (off : ℕ) : Obj := ⟨leNat b off 4, leNat b (off + 4) 4⟩

def actionAt (b : Bytes) (off : ℕ) : RootObjSetAction := ⟨(leNat b off 4).testBit 0, (leNat b off 4).testBit 1⟩

/-- the C string at `off`, of which `room` bytes lie in the buffer -/
def cstrAt (b : Bytes) : ℕ → ℕ → Ret (List (BitVec 8))
  | 0, _ => .error .outOfBounds
  | room + 1, off => if b off = 0 then .ok [] else do
    let rest ← cstrAt b room (off + 1)
    .ok ((b off).toBitVec :: rest)

/-- the arguments of a pool create, with the name that follows them -/
def createArgAt (b : Bytes) : Ret PoolCreateArg := do
  let name ← cstrAt b (flaMsgDataMax - sizeofFlaPoolCreateArg) sizeofFlaPoolCreateArg
  .ok ⟨BitVec.ofNat 64 (leNat b 0 8), name, (BitVec.ofNat 32 (leNat b 16 4)).toInt, leNat b 20 4, leNat b 24 4,
    leNat b 28 4⟩

/-- the call that `msg_handler` has the handler of a message make, from the receive buffer; `none` when it makes none -/
def handlerCall (recv : MsgBuf) : Ret (Option Call) :=
  match recv.hdr.cmd with
  | .objectOpen => .ok (some (.objectOpen (poolAt recv.data 0) (objAt recv.data sizeofFlaPool)))
  | .objectCreate => .ok (some (.objectCreate (poolAt recv.data 0)))
  | .objectDestroy => .ok (some (.objectDestroy (poolAt recv.data 0) (objAt recv.data sizeofFlaPool)))
  | .poolOpen =>
    -- the byte after the data may lie past the buffer
    if flaMsgDataMax ≤ recv.hdr.len then .error .outOfBounds
    else do
      let name ← cstrAt (update recv.data recv.hdr.len 0) flaMsgDataMax 0
      .ok (some (.poolOpen name))
  | .poolCreate => do
    let arg ← createArgAt recv.data
    .ok (some (.poolCreate arg))
  | .poolDestroy => .ok (if recv.hdr.len ≠ sizeofFlaPool then none else some (.poolDestroy (poolAt recv.data 0)))
  | .sync => .ok (some .sync)
  | .syncNoRsps => .ok (some .sync)
  | .poolGetRootObject => .ok (some (.poolGetRootObject (poolAt recv.data 0)))
  | .poolSetRootObject =>
    .ok (some (.poolSetRootObject (poolAt recv.data 0) (objAt recv.data sizeofFlaPool)
      (actionAt recv.data (sizeofFlaPool + sizeofFlaObject))))
  | .identify => .ok none
  | .initInfo => .ok none
  | .other => .ok none

/-! ## Reading back -/

section Read

variable {b : Bytes} {off : ℕ}

theorem poolAt_of_bytes (mem : Bytes) {h : PoolHandle} (hfits : h.Fits)
    (hb : ∀ i < 12, b (off + i) = poolBytes mem h i) : poolAt b off = h := by
  have hrec : ∀ i < 12, b (off + i) = record [(8, h.h2), (4, h.ndx)] i := fun i hi => by
    rw [hb i hi, poolBytes, ← image_head (record [(8, h.h2), (4, h.ndx)]) [(12, 4, mem)] hi, Nat.zero_add]
  have hh2 : leNat b off 8 = h.h2 := by
    rw [← Nat.mod_eq_of_lt hfits.1]
    exact leNat_record [] [(4, h.ndx)] fun i hi => by simpa [recordSize] using hrec i (by omega)
  have hndx : leNat b (off + 8) 4 = h.ndx := by
    rw [← Nat.mod_eq_of_lt hfits.2]
    exact leNat_record [(8, h.h2)] [] fun i hi => by
      simpa [recordSize, Nat.add_assoc] using hrec (8 + i) (by omega)
  rw [poolAt, hh2, hndx]

theorem objAt_of_bytes {o : Obj} (hfits : o.Fits) (hb : ∀ i < 8, b (off + i) = objBytes o i) : objAt b off = o := by
  unfold objBytes at hb
  have hslab : leNat b off 4 = o.slabId := by
    rw [← Nat.mod_eq_of_lt hfits.1]
    exact leNat_record [] [(4, o.entryNdx)] fun i hi => by simpa [recordSize] using hb i (by omega)
  have hentry : leNat b (off + 4) 4 = o.entryNdx := by
    rw [← Nat.mod_eq_of_lt hfits.2]
    exact leNat_record [(4, o.slabId)] [] fun i hi => by
      simpa [recordSize, Nat.add_assoc] using hb (4 + i) (by omega)
  rw [objAt, hslab, hentry]

theorem actionAt_of_bytes {act : RootObjSetAction} (hb : ∀ i < 4, b (off + i) = record [(4, act.value)] i) :
    actionAt b off = act := by
  have hvalue : leNat b off 4 = act.value := by
    have hlt : act.value < 256 ^ 4 := by
      unfold RootObjSetAction.value
      have h1 := Bool.toNat_le act.force
      have h2 := Bool.toNat_le act.clear
      omega
    rw [← Nat.mod_eq_of_lt hlt]
    exact leNat_record [] [] fun i hi => by simpa [recordSize] using hb i hi
  rw [actionAt, hvalue]
  obtain ⟨force, clear⟩ := act
  cases force <;> cases clear <;> rfl

theorem cstrAt_eq_ok_iff {name : List (BitVec 8)} (h0 : 0 ∉ name) (room off : ℕ) :
    cstrAt b room off = .ok name ↔ name.length < room ∧ ∀ i ≤ name.length, b (off + i) = nameBytes name i := by
  induction name generalizing room off with
  | nil =>
    cases room with
    | zero => simp [cstrAt]
    | succ room =>
      rw [cstrAt]
      by_cases hb : b off = 0
      · rw [if_pos hb]
        simp [hb, nameBytes]
      · rw [if_neg hb]
        constructor
        · intro h
          obtain ⟨rest, -, hrest⟩ := bind_eq_ok h
          cases hrest
        · rintro ⟨-, h⟩
          exact absurd (h 0 le_rfl) hb
  | cons c name ih =>
    have hc : c ≠ 0 := fun h => h0 (h ▸ List.mem_cons_self)
    cases room with
    | zero => simp [cstrAt]
    | succ room =>
      have ih' := ih (fun h => h0 (List.mem_cons_of_mem _ h)) room (off + 1)
      rw [cstrAt]
      constructor
      · intro h
        split_ifs at h with hb
        · cases h
        obtain ⟨rest, hrest, hres⟩ := bind_eq_ok h
        obtain ⟨hfirst, rfl⟩ := List.cons.inj (Except.ok.inj hres)
        obtain ⟨hlen, hall⟩ := ih'.1 hrest
        refine ⟨by simpa using hlen, fun i hi => ?_⟩
        cases i with
        | zero => exact UInt8.toBitVec_inj.1 hfirst
        | succ i =>
          rw [show off + (i + 1) = off + 1 + i by omega, hall i (by simpa using hi)]
          rfl
      · rintro ⟨hlen, hall⟩
        have hfirst : b off = ⟨c⟩ := hall 0 (Nat.zero_le _)
        have hrest : cstrAt b room (off + 1) = .ok name := by
          refine ih'.2 ⟨by simpa using hlen, fun i hi => ?_⟩
          rw [show off + 1 + i = off + (i + 1) by omega, hall (i + 1) (by simpa using hi)]
          rfl
        have hne : b off ≠ 0 := fun h => hc (by rw [hfirst] at h; exact congrArg UInt8.toBitVec h)
        rw [if_neg hne, hrest, ok_bind, hfirst]

theorem cstrAt_terminated {c : Bytes} {n room : ℕ} (hn : n < room) (hzero : b (off + n) = 0)
    (hsame : ∀ i ≤ n, c (off + i) = b (off + i)) : ∃ name, cstrAt b room off = .ok name ∧ cstrAt c room off = .ok name := by
  induction room generalizing off n with
  | zero => omega
  | succ room ih =>
    have hfirst : c off = b off := hsame 0 (Nat.zero_le _)
    rw [cstrAt, cstrAt, hfirst]
    by_cases hb : b off = 0
    · exact ⟨[], if_pos hb, if_pos hb⟩
    rw [if_neg hb, if_neg hb]
    cases n with
    | zero => exact absurd hzero hb
    | succ n =>
      have hshift : ∀ i, off + (i + 1) = off + 1 + i := fun i => by omega
      obtain ⟨rest, hrest, hrest'⟩ := ih (n := n) (by omega) ((hshift n) ▸ hzero) fun i hi =>
        (hshift i) ▸ hsame (i + 1) (by omega)
      exact ⟨_, by rw [hrest, ok_bind], by rw [hrest', ok_bind]⟩

theorem cstrAt_unterminated {room : ℕ} (h : ∀ i < room, b (off + i) ≠ 0) : cstrAt b room off = .error .outOfBounds := by
  induction room generalizing off with
  | zero => rfl
  | succ room ih =>
    have hrest : cstrAt b room (off + 1) = .error .outOfBounds := ih fun i hi => by
      rw [Nat.add_assoc, Nat.add_comm 1 i]
      exact h (i + 1) (by omega)
    have hfirst : b off ≠ 0 := h 0 (by omega)
    rw [cstrAt, if_neg hfirst, hrest]
    rfl

end Read

/-! ## Requests with a length -/

section Request

variable {mem data : Bytes} {pool : PoolHandle} {obj : Obj}

theorem daemonReceive_request (cmd : MsgCmd) {len : ℕ} (hlen : len ≤ flaMsgDataMax) (b old : Bytes) (send : MsgBuf) :
    ∃ data, daemonReceive old (request cmd len b send) = .ok ⟨⟨len, cmd, send.hdr.tag⟩, data⟩ ∧
      ∀ i < len, data i = b i := by
  refine ⟨_, if_neg (not_lt.2 hlen), fun i hi => ?_⟩
  show copyBytes old 0 (copyBytes send.data 0 b 0 len) 0 len i = b i
  rw [copyBytes_of_mem (Nat.zero_le _) (by omega), Nat.zero_add, Nat.sub_zero, copyBytes_of_mem (Nat.zero_le _) (by omega),
    Nat.zero_add, Nat.sub_zero]

theorem pool_read (hp : pool.Fits) (hdata : ∀ i < sizeofFlaPool, data i = poolBytes mem pool i) :
    poolAt data 0 = pool := by
  refine poolAt_of_bytes mem hp fun i hi => ?_
  rw [Nat.zero_add]
  exact hdata i (by unfold sizeofFlaPool; omega)

theorem poolObj_read {rest : List (ℕ × ℕ × Bytes)} (hp : pool.Fits) (ho : obj.Fits)
    (hdata : ∀ i < 24, data i = poolObjBytes mem pool obj rest i) :
    poolAt data 0 = pool ∧ objAt data sizeofFlaPool = obj := by
  refine ⟨poolAt_of_bytes mem hp fun i hi => ?_, objAt_of_bytes ho fun i hi => ?_⟩
  · rw [Nat.zero_add, hdata i (by omega), poolObjBytes,
      ← image_head (poolBytes mem pool) _ (show i < sizeofFlaPool by unfold sizeofFlaPool; omega), Nat.zero_add]
  · rw [hdata _ (by unfold sizeofFlaPool; omega), poolObjBytes, image_tail _ _ (by omega),
      image_head _ _ (show i < sizeofFlaObject from hi)]

end Request

/-! ## Pool create -/

/-- the bytes a handler has to find for the arguments of a pool create and the name after them -/
def wantedBytes (arg : PoolCreateArg) : Bytes := fun i =>
  if i < sizeofFlaPoolCreateArg then createArgBytes 0 arg i else nameBytes arg.name (i - sizeofFlaPoolCreateArg)

/-- the bytes the handler reads: all but the address of the name, up to the terminator -/
def NeededByte (arg : PoolCreateArg) (i : ℕ) : Prop :=
  i < 8 ∨ (16 ≤ i ∧ i ≤ sizeofFlaPoolCreateArg + arg.name.length)

/-- what makes up for the length that `pool_create` does not set: with the length `len` left in the header, the bytes that
are not sent are in the receive buffer already, and those sent past the name are in the send buffer -/
def CreateWhole (arg : PoolCreateArg) (send : MsgBuf) (old : Bytes) : Prop :=
  send.hdr.len ≤ flaMsgDataMax ∧ ∀ i, NeededByte arg i →
    (send.hdr.len ≤ i → old i = wantedBytes arg i) ∧
    (i < send.hdr.len → sizeofFlaPoolCreateArg + arg.nameLen.toNat ≤ i → send.data i = wantedBytes arg i)

section Create

variable {arg : PoolCreateArg} {b mem : Bytes}

theorem cint_toInt {n : ℤ} (h0 : -2 ^ 31 ≤ n) (h : n < 2 ^ 31) : (BitVec.ofNat 32 (cint n).toNat).toInt = n := by
  rw [BitVec.ofNat_toNat, BitVec.setWidth_eq, cint, BitVec.toInt_ofInt]
  exact Int.bmod_eq_of_le (by omega) (by omega)

theorem createArg_field (off width : ℕ) {v : ℕ} (pre post : List (ℕ × ℕ)) (hoff : recordSize pre = off)
    (hrec : createArgBytes 0 arg = record (pre ++ (width, v) :: post)) (hv : v < 256 ^ width)
    (hend : off + width ≤ sizeofFlaPoolCreateArg) :
    leNat b off width = v ↔ ∀ i < width, b (off + i) = wantedBytes arg (off + i) := by
  rw [leNat_eq_iff hv]
  refine forall₂_congr fun i hi => ?_
  rw [wantedBytes, if_pos (by omega), hrec, ← hoff, record_append, record, if_pos hi]

theorem createArg_numbers (hfits : arg.Fits) :
    (BitVec.ofNat 64 (leNat b 0 8) = arg.flags ∧ (BitVec.ofNat 32 (leNat b 16 4)).toInt = arg.nameLen ∧
      leNat b 20 4 = arg.objNlb ∧ leNat b 24 4 = arg.strpNobjs ∧ leNat b 28 4 = arg.strpNbytes) ↔
    ∀ i, i < 8 ∨ (16 ≤ i ∧ i < sizeofFlaPoolCreateArg) → b i = wantedBytes arg i := by
  have hflags : BitVec.ofNat 64 (leNat b 0 8) = arg.flags ↔ ∀ i < 8, b (0 + i) = wantedBytes arg (0 + i) := by
    rw [← createArg_field 0 8 [] _ rfl rfl (arg.flags.isLt.trans_eq (by norm_num)) (by decide), ← BitVec.toNat_inj,
      BitVec.toNat_ofNat, Nat.mod_eq_of_lt ((leNat_lt b 0 8).trans_eq (by norm_num))]
  have hint : (BitVec.ofNat 32 (leNat b 16 4)).toInt = arg.nameLen ↔
      ∀ i < 4, b (16 + i) = wantedBytes arg (16 + i) := by
    have hlo := hfits.nameLen_nonneg
    have hle := hfits.nameLen_le
    have hname : (arg.name.length : ℤ) < 112 := by exact_mod_cast hfits.name.1
    rw [← createArg_field 16 4 [(8, arg.flags.toNat), (8, leNat 0 0 8)] _ rfl rfl
        ((cint arg.nameLen).isLt.trans_eq (by norm_num)) (by decide),
      ← cint_toInt (n := arg.nameLen) (by omega) (by omega), BitVec.toInt_inj, ← BitVec.toNat_inj, BitVec.toNat_ofNat,
      BitVec.toNat_ofNat, Nat.mod_eq_of_lt ((leNat_lt b 16 4).trans_eq (by norm_num)),
      Nat.mod_eq_of_lt (BitVec.isLt _), cint_toInt (by omega) (by omega)]
  have hobj := createArg_field (b := b) 20 4 [(8, arg.flags.toNat), (8, leNat 0 0 8), (4, (cint arg.nameLen).toNat)] _ rfl
    rfl (hfits.objNlb.trans_eq (by norm_num)) (by decide)
  have hnobjs := createArg_field (b := b) 24 4
    [(8, arg.flags.toNat), (8, leNat 0 0 8), (4, (cint arg.nameLen).toNat), (4, arg.objNlb)] _ rfl rfl
    (hfits.strpNobjs.trans_eq (by norm_num)) (by decide)
  have hnbytes := createArg_field (b := b) 28 4
    [(8, arg.flags.toNat), (8, leNat 0 0 8), (4, (cint arg.nameLen).toNat), (4, arg.objNlb), (4, arg.strpNobjs)] [] rfl
    rfl (hfits.strpNbytes.trans_eq (by norm_num)) (by decide)
  rw [hflags, hint, hobj, hnobjs, hnbytes]
  unfold sizeofFlaPoolCreateArg
  constructor
  · rintro ⟨h0, h16, h20, h24, h28⟩ i hi
    rcases hi with hi | ⟨hge, hlt⟩
    · simpa using h0 i hi
    -- the four fields after the address
    rcases lt_or_ge i 20 with h | h
    · simpa [Nat.add_sub_cancel' hge] using h16 (i - 16) (by omega)
    rcases lt_or_ge i 24 with h' | h'
    · simpa [Nat.add_sub_cancel' h] using h20 (i - 20) (by omega)
    rcases lt_or_ge i 28 with h'' | h''
    · simpa [Nat.add_sub_cancel' h'] using h24 (i - 24) (by omega)
    · simpa [Nat.add_sub_cancel' h''] using h28 (i - 28) (by omega)
  · intro h
    exact ⟨fun i hi => h _ (by omega), fun i hi => h _ (by omega), fun i hi => h _ (by omega), fun i hi => h _ (by omega),
      fun i hi => h _ (by omega)⟩

/-- **Arguments of a pool create** are read if and only if the bytes that are read are the wanted ones. -/
theorem createArgAt_eq_ok_iff (hfits : arg.Fits) :
    createArgAt b = .ok arg ↔ ∀ i, NeededByte arg i → b i = wantedBytes arg i := by
  have hname : cstrAt b (flaMsgDataMax - sizeofFlaPoolCreateArg) sizeofFlaPoolCreateArg = .ok arg.name ↔
      ∀ i ≤ arg.name.length, b (sizeofFlaPoolCreateArg + i) = wantedBytes arg (sizeofFlaPoolCreateArg + i) := by
    rw [cstrAt_eq_ok_iff hfits.name.2, and_iff_right (hfits.name.1.trans (by decide))]
    refine forall₂_congr fun i hi => ?_
    rw [wantedBytes, if_neg (by omega), Nat.add_sub_cancel_left]
  have hsplit : createArgAt b = .ok arg ↔
      cstrAt b (flaMsgDataMax - sizeofFlaPoolCreateArg) sizeofFlaPoolCreateArg = .ok arg.name ∧
      BitVec.ofNat 64 (leNat b 0 8) = arg.flags ∧ (BitVec.ofNat 32 (leNat b 16 4)).toInt = arg.nameLen ∧
      leNat b 20 4 = arg.objNlb ∧ leNat b 24 4 = arg.strpNobjs ∧ leNat b 28 4 = arg.strpNbytes := by
    constructor
    · intro h
      obtain ⟨name, hstr, hres⟩ := bind_eq_ok h
      cases hres
      exact ⟨hstr, rfl, rfl, rfl, rfl, rfl⟩
    · rintro ⟨hstr, h1, h2, h3, h4, h5⟩
      rw [createArgAt, hstr, ok_bind, h1, h2, h3, h4, h5]
  rw [hsplit, createArg_numbers hfits, hname]
  constructor
  · rintro ⟨hstr, hnum⟩ i hi
    rcases hi with hi | ⟨hge, hle⟩
    · exact hnum i (Or.inl hi)
    rcases lt_or_ge i sizeofFlaPoolCreateArg with h | h
    · exact hnum i (Or.inr ⟨hge, h⟩)
    · simpa [Nat.add_sub_cancel' h] using hstr (i - sizeofFlaPoolCreateArg) (by omega)
  · intro h
    have h32 : 16 ≤ sizeofFlaPoolCreateArg := by decide
    refine ⟨fun i hi => h _ (Or.inr ⟨by omega, by omega⟩), fun i hi => h i ?_⟩
    rcases hi with hi | ⟨hge, hlt⟩
    · exact Or.inl hi
    · exact Or.inr ⟨hge, by omega⟩

/-- the terminator is also what lies past the end of a name -/
theorem nameBytes_terminated (name : List (BitVec 8)) : nameBytes (name ++ [0]) = nameBytes name := by
  funext i
  unfold nameBytes
  congr 1
  rcases lt_or_ge i name.length with h | h
  · exact List.getD_append _ _ _ _ h
  · rw [List.getD_append_right _ _ _ _ h, List.getD_eq_default _ _ h]
    cases i - name.length <;> rfl

/-- what the daemon's buffer holds after a pool create: sent bytes as far as the old length goes, the name within its
length, and otherwise what was in the two buffers -/
theorem create_received {send : MsgBuf} {old : Bytes} {i : ℕ} (hi : NeededByte arg i) :
    copyBytes old 0 (flaDaemonPoolCreateRq mem arg send).data 0 send.hdr.len i =
      if send.hdr.len ≤ i then old i
      else if sizeofFlaPoolCreateArg + arg.nameLen.toNat ≤ i then send.data i
      else wantedBytes arg i := by
  by_cases hlen : send.hdr.len ≤ i
  · rw [if_pos hlen, copyBytes_of_not_mem (by omega)]
  rw [if_neg hlen, copyBytes_of_mem (Nat.zero_le _) (by omega), Nat.zero_add, Nat.sub_zero]
  show copyBytes (copyBytes send.data 0 (createArgBytes mem arg) 0 sizeofFlaPoolCreateArg) sizeofFlaPoolCreateArg
    (nameBytes (arg.name ++ [0])) 0 arg.nameLen.toNat i = _
  by_cases hpast : sizeofFlaPoolCreateArg + arg.nameLen.toNat ≤ i
  · rw [if_pos hpast, copyBytes_of_not_mem (by omega), copyBytes_of_not_mem (by omega)]
  rw [if_neg hpast]
  by_cases harg : i < sizeofFlaPoolCreateArg
  · rw [copyBytes_of_not_mem (by omega), copyBytes_of_mem (Nat.zero_le _) (by omega), wantedBytes, if_pos harg,
      Nat.zero_add, Nat.sub_zero]
    -- the two records differ in the address of the name only
    rcases hi with hi | ⟨hi, -⟩
    · rw [createArgBytes, createArgBytes, record, if_pos hi, record, if_pos hi]
    · obtain ⟨j, rfl⟩ := Nat.exists_eq_add_of_le hi
      have hpre : ∀ ptr, recordSize [(8, arg.flags.toNat), (8, ptr)] = 16 := fun ptr => rfl
      have hm := record_append [(8, arg.flags.toNat), (8, leNat mem 0 8)]
        [(4, (cint arg.nameLen).toNat), (4, arg.objNlb), (4, arg.strpNobjs), (4, arg.strpNbytes)] j
      have h0 := record_append [(8, arg.flags.toNat), (8, leNat 0 0 8)]
        [(4, (cint arg.nameLen).toNat), (4, arg.objNlb), (4, arg.strpNobjs), (4, arg.strpNbytes)] j
      rw [hpre] at hm h0
      exact hm.trans h0.symm
  · rw [copyBytes_of_mem (by omega) (by omega), Nat.zero_add, wantedBytes, if_neg harg, nameBytes_terminated]

end Create

/-! ## Requests decode to what the client passed -/

/-- nothing is missing from a request -/
def RequestWhole (send : MsgBuf) (old : Bytes) : Call → Prop
  | .poolCreate arg => CreateWhole arg send old
  | _ => True

theorem createRequest_iff {arg : PoolCreateArg} (hfits : arg.Fits) (mem : Bytes) (send : MsgBuf) (old : Bytes) :
    (daemonReceive old (flaDaemonPoolCreateRq mem arg send) >>= handlerCall) = .ok (some (.poolCreate arg)) ↔
      CreateWhole arg send old := by
  unfold daemonReceive CreateWhole
  have hhdr : (flaDaemonPoolCreateRq mem arg send).hdr = { send.hdr with cmd := .poolCreate } := rfl
  rw [hhdr]
  dsimp only
  by_cases hlen : flaMsgDataMax < send.hdr.len
  · rw [if_pos hlen]
    constructor
    · intro h
      cases h
    · rintro ⟨h, -⟩
      exact absurd hlen (not_lt.2 h)
  rw [if_neg hlen, ok_bind, and_iff_right (not_lt.1 hlen)]
  set data := copyBytes old 0 (flaDaemonPoolCreateRq mem arg send).data 0 send.hdr.len with hdata
  have hcall : handlerCall ⟨{ send.hdr with cmd := .poolCreate }, data⟩ = .ok (some (.poolCreate arg)) ↔
      createArgAt data = .ok arg := by
    show (createArgAt data >>= fun arg => Except.ok (some (Call.poolCreate arg))) = .ok (some (.poolCreate arg)) ↔ _
    constructor
    · intro h
      obtain ⟨arg', harg, hres⟩ := bind_eq_ok h
      cases hres
      exact harg
    · intro h
      rw [h, ok_bind]
  rw [hcall, createArgAt_eq_ok_iff hfits]
  refine forall₂_congr fun i hi => ?_
  rw [hdata, create_received hi]
  by_cases h : send.hdr.len ≤ i
  · rw [if_pos h]
    exact ⟨fun he => ⟨fun _ => he, fun hlt => absurd h (not_le.2 hlt)⟩, fun he => he.1 h⟩
  rw [if_neg h]
  by_cases hpast : sizeofFlaPoolCreateArg + arg.nameLen.toNat ≤ i
  · rw [if_pos hpast]
    exact ⟨fun he => ⟨fun hle => absurd hle h, fun _ _ => he⟩, fun he => he.2 (not_le.1 h) hpast⟩
  · rw [if_neg hpast]
    exact ⟨fun _ => ⟨fun hle => absurd hle h, fun _ hle => absurd hle hpast⟩, fun _ => rfl⟩

/-- every other request decodes, whatever the two buffers held -/
theorem request_decodes {call : Call} (hfits : call.Fits) (hother : ∀ arg, call ≠ .poolCreate arg) (mem : Bytes)
    (send : MsgBuf) (old : Bytes) :
    (daemonReceive old (clientRequest mem send call) >>= handlerCall) = .ok (some call) := by
  have hpool : sizeofFlaPool ≤ flaMsgDataMax := by decide
  have hobj : sizeofFlaPool + sizeofFlaObject ≤ flaMsgDataMax := by decide
  cases call with
  | sync =>
    obtain ⟨data, hrecv, -⟩ := daemonReceive_request .sync (Nat.zero_le _) 0 old send
    rw [clientRequest, flaDaemonSyncRq, hrecv, ok_bind]
    rfl
  | poolOpen name =>
    have hlt : name.length < flaMsgDataMax := hfits.1.trans (by decide)
    obtain ⟨data, hrecv, hdata⟩ := daemonReceive_request .poolOpen hlt.le (nameBytes name) old send
    rw [clientRequest, flaDaemonPoolOpenRq, hrecv, ok_bind]
    have hstr : cstrAt (update data name.length 0) flaMsgDataMax 0 = .ok name := by
      refine (cstrAt_eq_ok_iff hfits.2 _ _).2 ⟨hlt, fun i hi => ?_⟩
      rw [Nat.zero_add]
      rcases Nat.lt_or_eq_of_le hi with h | rfl
      · rw [update_of_ne h.ne, hdata i h]
      · rw [update_self, nameBytes, List.getD_eq_default _ _ le_rfl]
        rfl
    unfold handlerCall
    dsimp only
    rw [if_neg (not_le.2 hlt), hstr, ok_bind]
  | poolCreate arg => exact absurd rfl (hother arg)
  | poolDestroy handle =>
    obtain ⟨data, hrecv, hdata⟩ := daemonReceive_request .poolDestroy hpool (poolBytes mem handle) old send
    rw [clientRequest, flaDaemonPoolDestroyRq, hrecv, ok_bind]
    unfold handlerCall
    dsimp only
    rw [if_neg (by simp), pool_read hfits hdata]
  | objectOpen pool obj =>
    obtain ⟨data, hrecv, hdata⟩ := daemonReceive_request .objectOpen hobj (poolObjBytes mem pool obj []) old send
    obtain ⟨hp, ho⟩ := poolObj_read hfits.1 hfits.2 hdata
    rw [clientRequest, flaDaemonObjectOpenRq, hrecv, ok_bind]
    unfold handlerCall
    dsimp only
    rw [hp, ho]
  | objectCreate pool =>
    obtain ⟨data, hrecv, hdata⟩ := daemonReceive_request .objectCreate hpool (poolBytes mem pool) old send
    rw [clientRequest, flaDaemonObjectCreateRq, hrecv, ok_bind]
    unfold handlerCall
    dsimp only
    rw [pool_read hfits hdata]
  | objectDestroy pool obj =>
    obtain ⟨data, hrecv, hdata⟩ := daemonReceive_request .objectDestroy hobj (poolObjBytes mem pool obj []) old send
    obtain ⟨hp, ho⟩ := poolObj_read hfits.1 hfits.2 hdata
    rw [clientRequest, flaDaemonObjectDestroyRq, hrecv, ok_bind]
    unfold handlerCall
    dsimp only
    rw [hp, ho]
  | poolSetRootObject pool obj act =>
    obtain ⟨data, hrecv, hdata⟩ := daemonReceive_request .poolSetRootObject
      (show sizeofFlaPool + sizeofFlaObject + 4 ≤ flaMsgDataMax by decide)
      (poolObjBytes mem pool obj [(sizeofFlaPool + sizeofFlaObject, 4, record [(4, act.value)])]) old send
    obtain ⟨hp, ho⟩ := poolObj_read hfits.1 hfits.2 fun i hi => hdata i (by unfold sizeofFlaPool sizeofFlaObject; omega)
    have hact : actionAt data (sizeofFlaPool + sizeofFlaObject) = act := actionAt_of_bytes fun i hi => by
      rw [hdata _ (by omega), poolObjBytes, image_tail _ _ (by omega), image_tail _ _ (by omega), image_head _ _ hi]
    rw [clientRequest, flaDaemonPoolSetRootObjectRq, hrecv, ok_bind]
    unfold handlerCall
    dsimp only
    rw [hp, ho, hact]
  | poolGetRootObject pool =>
    obtain ⟨data, hrecv, hdata⟩ := daemonReceive_request .poolGetRootObject hpool (poolBytes mem pool) old send
    rw [clientRequest, flaDaemonPoolGetRootObjectRq, hrecv, ok_bind]
    unfold handlerCall
    dsimp only
    rw [pool_read hfits hdata]

/-- **Requests decode to what the client passed**, for every call with arguments that fit, every send buffer and header
of the client and every receive buffer of the daemon, if and only if the request is whole. -/
theorem request_decodes_iff {call : Call} (hfits : call.Fits) (mem : Bytes) (send : MsgBuf) (old : Bytes) :
    (daemonReceive old (clientRequest mem send call) >>= handlerCall) = .ok (some call) ↔ RequestWhole send old call := by
  by_cases hcreate : ∃ arg, call = .poolCreate arg
  · obtain ⟨arg, rfl⟩ := hcreate
    exact createRequest_iff hfits mem send old
  · have hother : ∀ arg, call ≠ .poolCreate arg := fun arg h => hcreate ⟨arg, h⟩
    have hwhole : RequestWhole send old call := by
      cases call with
      | poolCreate arg => exact absurd rfl (hother arg)
      | _ => trivial
    exact ⟨fun _ => hwhole, fun _ => request_decodes hfits hother mem send old⟩

/-- the arguments of a pool "hello" with objects of ten blocks -/
def helloArg : PoolCreateArg := ⟨0, [104, 101, 108, 108, 111], 6, 10, 0, 0⟩

theorem helloArg_fits : helloArg.Fits where
  name := ⟨by decide, by decide⟩
  nameLen_nonneg := by decide
  nameLen_le := by decide
  objNlb := by decide
  strpNobjs := by decide
  strpNbytes := by decide

/-- after a pool open with a name of 38 bytes, all of the pool create is sent -/
theorem request_decodes_after_open :
    (daemonReceive 0 (clientRequest 0 ⟨⟨38, .poolOpen, 0⟩, 0⟩ (.poolCreate helloArg)) >>= handlerCall) =
      .ok (some (.poolCreate helloArg)) := by
  refine (request_decodes_iff (show (Call.poolCreate helloArg).Fits from helloArg_fits) 0 ⟨⟨38, .poolOpen, 0⟩, 0⟩ 0).2
    ⟨by decide, fun i hi => ?_⟩
  have hlast : i < 38 := by
    rcases hi with hi | ⟨-, hi⟩
    · omega
    · exact Nat.lt_succ_of_le hi
  exact ⟨fun h => absurd hlast (not_lt.2 h), fun _ h => absurd hlast (not_lt.2 h)⟩

/-- **Lost pool create**: a client that has only just connected has the length 0 of its last request in the header, so
the daemon, with a buffer that holds nothing yet, is asked for a pool without a name and with objects of no blocks. -/
theorem create_request_lost :
    (daemonReceive 0 (clientRequest 0 ⟨⟨0, .initInfo, 0⟩, 0⟩ (.poolCreate helloArg)) >>= handlerCall) =
      .ok (some (.poolCreate ⟨0, [], 0, 0, 0, 0⟩)) ∧
    ¬ ∀ call : Call, call.Fits → ∀ (mem : Bytes) (send : MsgBuf) (old : Bytes),
      (daemonReceive old (clientRequest mem send call) >>= handlerCall) = .ok (some call) := by
  have hlost : (daemonReceive 0 (clientRequest 0 ⟨⟨0, .initInfo, 0⟩, 0⟩ (.poolCreate helloArg)) >>= handlerCall) =
      .ok (some (.poolCreate ⟨0, [], 0, 0, 0, 0⟩)) := rfl
  refine ⟨hlost, fun h => ?_⟩
  have hwhole := h (.poolCreate helloArg) helloArg_fits 0 ⟨⟨0, .initInfo, 0⟩, 0⟩ 0
  rw [hlost] at hwhole
  exact absurd hwhole (by decide)

end FlexAlloc
