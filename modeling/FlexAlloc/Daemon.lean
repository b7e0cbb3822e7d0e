/-
The daemon: one message of `fla_daemon_loop`, through `msg_handler` and the `fla_daemon_*_rsp` functions, to the value that
the `fla_daemon_*_rq` function returns at the client.

The daemon packs every reply into one send buffer that is never cleared, as it receives every request in one buffer. A
reply is faithful when it does not depend on what these held before, and when the client returns what the base function
returned in the daemon.

- `reply_faithful_iff`: for every request, when the reply is faithful. It always is for opening, creating and destroying
  objects and for setting a root object; getting the root object never is, because nobody writes its error word.
- `root_reply_stale`: a client that asks for a root object is given the error of somebody else's call.
-/
import FlexAlloc.Message
import FlexAlloc.System

namespace FlexAlloc

open FlexAlloc.Core Function

/-! ## Results -/

/-- what a base function gives back: an error that is not 0, or 0 and what the call was for -/
inductive Res where
  | fail (err : BitVec 32)
  | done
  | object (obj : Obj)
  | pool (handle : PoolHandle)
deriving DecidableEq, Repr

def Res.err : Res → BitVec 32
  | .fail err => err
  | _ => 0

/-- a returned `int`, with `good` given back along with a 0 -/
def Res.of (err : ℤ) (good : Res) : Res := if cint err = 0 then good else .fail (cint err)

/-- the fields of a `struct fla_object` have 32 bits -/
def Obj.stored (o : Obj) : Obj := ⟨u32 o.slabId, u32 o.entryNdx⟩

/-- the fields of a `struct fla_pool` have 64 and 32 bits -/
def PoolHandle.stored (h : PoolHandle) : PoolHandle := ⟨u64 h.h2, u32 h.ndx⟩

/-- the object that a 64-bit handle value is -/
def objOfHndl (v : ℕ) : Obj := ⟨v, v / 2 ^ 32⟩

theorem Obj.stored_fits (o : Obj) : o.stored.Fits :=
  ⟨Nat.mod_lt _ (by norm_num), Nat.mod_lt _ (by norm_num)⟩

theorem PoolHandle.stored_fits (h : PoolHandle) : h.stored.Fits :=
  ⟨Nat.mod_lt _ (by norm_num), Nat.mod_lt _ (by norm_num)⟩

def Res.ofObj (err : ℤ) (o : Option Obj) : Res := .of err (.object (o.getD ⟨0, 0⟩).stored)

def Res.ofPool (err : ℤ) (h : Option PoolHandle) : Res := .of err (.pool (h.getD ⟨0, 0⟩).stored)

def baseCall (env : Env) (fs : Flexalloc) : Call → Ret (Res × Flexalloc)
  | .sync => do
    let (err, fs) ← flaBaseSync env fs
    .ok (.of err .done, fs)
  | .poolOpen name => do
    let (err, handle) ← flaBasePoolOpen env fs name
    .ok (.ofPool err handle, fs)
  | .poolCreate arg => do
    let (err, handle, fs) ← flaBasePoolCreate env fs arg
    .ok (.ofPool err handle, fs)
  | .poolDestroy handle => do
    let (err, fs) ← flaBasePoolDestroy fs handle
    .ok (.of err .done, fs)
  | .objectOpen pool obj => do
    let (err, fs) ← flaBaseObjectOpen env fs pool.ndx obj
    .ok (.of err .done, fs)
  | .objectCreate pool => do
    let (err, obj, fs) ← flaBaseObjectCreate env fs pool.ndx
    .ok (.ofObj err obj, fs)
  | .objectDestroy pool obj => do
    let (err, fs) ← flaBaseObjectDestroy env fs pool.ndx obj
    .ok (.of err .done, fs)
  | .poolSetRootObject pool obj act => do
    let (err, fs) ← flaBasePoolSetRootObject fs pool.ndx obj act
    .ok (.of err .done, fs)
  | .poolGetRootObject pool => do
    let (err, hndl) ← flaBasePoolGetRootObject fs pool.ndx
    .ok (.ofObj err (hndl.map objOfHndl), fs)

/-! ## Replies -/

/-- `struct fla_sys_identity` -/
structure SysIdentity where
  type : ℕ
  version : ℕ
deriving DecidableEq, Repr

/-- `struct fla_daemon` with the buffers of `fla_daemon_loop` and the names of the devices -/
structure Daemon where
  fs : Flexalloc
  identity : SysIdentity
  devUri : List (BitVec 8)
  mdDevUri : Option (List (BitVec 8))
  recv : Bytes
  send : MsgBuf

/-- pack `len` bytes from the start of the data and set the length -/
def pack (len : ℕ) (b : Bytes) (send : MsgBuf) : MsgBuf := ⟨{ send.hdr with len := len }, copyBytes send.data 0 b 0 len⟩

def errBytes (err : BitVec 32) : Bytes := record [(4, err.toNat)]

def errRsp (res : Res) (send : MsgBuf) : MsgBuf := pack 4 (errBytes res.err) send

/-- `fla_daemon_sync_rsp`, from the base call on -/
def flaDaemonSyncRsp (res : Res) (send : MsgBuf) : MsgBuf := errRsp res send

/-- `fla_daemon_pool_destroy_rsp`, from the base call on -/
def flaDaemonPoolDestroyRsp (res : Res) (send : MsgBuf) : MsgBuf := errRsp res send

/-- `fla_daemon_object_open_rsp`, from the base call on -/
def flaDaemonObjectOpenRsp (res : Res) (send : MsgBuf) : MsgBuf := errRsp res send

/-- `fla_daemon_object_destroy_rsp`, from the base call on -/
def flaDaemonObjectDestroyRsp (res : Res) (send : MsgBuf) : MsgBuf := errRsp res send

/-- `fla_daemon_pool_set_root_object_rsp`, from the base call on -/
def flaDaemonPoolSetRootObjectRsp (res : Res) (send : MsgBuf) : MsgBuf := errRsp res send

/-- `fla_daemon_object_create_rsp`, from the base call on -/
def flaDaemonObjectCreateRsp (res : Res) (send : MsgBuf) : MsgBuf :=
  match res with
  | .object obj => pack (4 + sizeofFlaObject) (image [(0, 4, errBytes 0), (4, sizeofFlaObject, objBytes obj)]) send
  | res => errRsp res send

/-- the reply with a pool: its handle, whose last four bytes are those of `mem`, and its entry -/
def poolRsp (mem : Bytes) (fs : Flexalloc) (res : Res) (send : MsgBuf) : MsgBuf :=
  match res with
  | .pool handle => pack (4 + sizeofFlaPool + sizeofFlaPoolEntry) (image [(0, 4, errBytes 0),
      (4, sizeofFlaPool, poolBytes mem handle),
      (4 + sizeofFlaPool, sizeofFlaPoolEntry, poolEntryBytes (fs.pools.entries handle.ndx))]) send
  | res => errRsp res send

/-- `fla_daemon_pool_open_rsp`, from the base call on -/
def flaDaemonPoolOpenRsp (mem : Bytes) (fs : Flexalloc) (res : Res) (send : MsgBuf) : MsgBuf := poolRsp mem fs res send

/-- `fla_daemon_pool_create_rsp`, from the base call on -/
def flaDaemonPoolCreateRsp (mem : Bytes) (fs : Flexalloc) (res : Res) (send : MsgBuf) : MsgBuf := poolRsp mem fs res send

/-- `fla_daemon_pool_get_root_object_rsp`, from the base call on: the error word is not written -/
def flaDaemonPoolGetRootObjectRsp (res : Res) (send : MsgBuf) : MsgBuf :=
  match res with
  | .object obj =>
    ⟨{ send.hdr with len := 4 + sizeofFlaObject }, copyBytes send.data 4 (objBytes obj) 0 sizeofFlaObject⟩
  | _ => ⟨{ send.hdr with len := 4 }, send.data⟩

def flaDaemonIdentifyRsp (identity : SysIdentity) (send : MsgBuf) : MsgBuf :=
  pack 8 (record [(4, identity.type), (4, identity.version)]) send

def sizeofFlaGeo : ℕ := 48

def geoBytes (geo : Geo) : Bytes :=
  record [(8, geo.nlb), (4, geo.lbNbytes), (4, geo.slabNlb), (4, geo.npools), (4, geo.nslabs), (4, geo.mdNlb),
    (4, geo.poolSgmt.freelistNlb), (4, geo.poolSgmt.htblNlb), (4, geo.poolSgmt.htblTblSize),
    (4, geo.poolSgmt.entriesNlb), (4, geo.slabSgmtNlb)]

/-- `fla_daemon_fs_init_rsp`: all of the buffer is cleared first -/
def flaDaemonFsInitRsp (d : Daemon) : Ret MsgBuf :=
  let devLen := d.devUri.length + 1
  let mdLen := (d.mdDevUri.getD []).length
  let len := sizeofFlaGeo + 8 + devLen + 8 + mdLen
  let b := image [(0, sizeofFlaGeo, geoBytes d.fs.geo), (sizeofFlaGeo, 8, record [(8, devLen)]),
    (sizeofFlaGeo + 8, devLen, nameBytes d.devUri), (sizeofFlaGeo + 8 + devLen, 8, record [(8, mdLen)]),
    (sizeofFlaGeo + 8 + devLen + 8, mdLen, nameBytes (d.mdDevUri.getD []))]
  if flaMsgDataMax < len then .error .outOfBounds
  else .ok ⟨{ d.send.hdr with len := len }, copyBytes d.send.data 0 b 0 flaMsgDataMax⟩

/-! ## One message -/

/-- the base call as the handler makes it; `none` when it gives up before -/
def daemonCall (env : Env) (fs : Flexalloc) (call : Call) : Ret (Option (Res × Flexalloc)) :=
  match call with
  | .poolOpen name => do
    match ← htblLookup flaHashing fs.pools.htbl name with
    | none => .ok (some (.ofPool (-1) none, fs))
    -- there is no place for the handle: the pointer to it is null
    | some _ => .error .outOfBounds
  | .poolDestroy handle =>
    if ¬ env.malloc then .ok none
    else do
      let r ← baseCall env fs (.poolDestroy handle)
      .ok (some r)
  | call => do
    let r ← baseCall env fs call
    .ok (some r)

def callRsp (mem : Bytes) (fs : Flexalloc) (res : Res) (send : MsgBuf) : Call → MsgBuf
  | .sync => flaDaemonSyncRsp res send
  | .poolOpen _ => flaDaemonPoolOpenRsp mem fs res send
  | .poolCreate _ => flaDaemonPoolCreateRsp mem fs res send
  | .poolDestroy _ => flaDaemonPoolDestroyRsp res send
  | .objectOpen _ _ => flaDaemonObjectOpenRsp res send
  | .objectCreate _ => flaDaemonObjectCreateRsp res send
  | .objectDestroy _ _ => flaDaemonObjectDestroyRsp res send
  | .poolSetRootObject _ _ _ => flaDaemonPoolSetRootObjectRsp res send
  | .poolGetRootObject _ => flaDaemonPoolGetRootObjectRsp res send

/-- what the handlers leave in the receive buffer: a terminator after a name, and the address of one -/
def recvAfter (mem : Bytes) (recv : MsgBuf) : Bytes :=
  match recv.hdr.cmd with
  | .poolOpen => update recv.data recv.hdr.len 0
  | .poolCreate => copyBytes recv.data 8 mem 0 8
  | _ => recv.data

/-- `msg_handler`, for the message in the receive buffer: the reply it sends, if any. `mem` are bytes of memory that
nobody set. -/
def msgHandler (env : Env) (mem : Bytes) (d : Daemon) (recv : MsgBuf) : Ret (Option MsgBuf × Daemon) := do
  match ← handlerCall recv with
  | some call =>
    match ← daemonCall env d.fs call with
    | none => .ok (none, { d with recv := recvAfter mem recv })
    | some (res, fs) =>
      if recv.hdr.cmd = .syncNoRsps then .ok (none, { d with fs := fs, recv := recvAfter mem recv })
      else
        let send := callRsp mem fs res d.send call
        .ok (some send, { d with fs := fs, recv := recvAfter mem recv, send := send })
  | none =>
    match recv.hdr.cmd with
    | .identify =>
      let send := flaDaemonIdentifyRsp d.identity d.send
      .ok (some send, { d with recv := recv.data, send := send })
    | .initInfo =>
      let send ← flaDaemonFsInitRsp d
      .ok (some send, { d with recv := recv.data, send := send })
    | _ => .ok (none, { d with recv := recv.data })

/-- one message of `fla_daemon_loop` -/
def serve (env : Env) (mem : Bytes) (d : Daemon) (msg : MsgBuf) : Ret (Option MsgBuf × Daemon) := do
  let recv ← daemonReceive d.recv msg
  -- a reply has the command and the tag of its request
  let d := { d with send := { d.send with hdr := { d.send.hdr with cmd := recv.hdr.cmd, tag := recv.hdr.tag } } }
  msgHandler env mem d recv

/-! ## The client -/

/-- what `fla_sock_recv_msg` leaves in the client's buffer -/
def clientReceive (old : Bytes) (reply : MsgBuf) : Bytes := copyBytes old 0 reply.data 0 reply.hdr.len

def errAt (b : Bytes) : BitVec 32 := BitVec.ofNat 32 (leNat b 0 4)

/-- an error word that is read, with `good` when it is 0 -/
def resAt (b : Bytes) (good : Res) : Res := if errAt b = 0 then good else .fail (errAt b)

/-- what the `fla_daemon_*_rq` function of a call returns, from the receive buffer; for `sync` the error is not read -/
def clientReturn (b : Bytes) : Call → Res
  | .sync => .done
  | .poolOpen _ => resAt b (.pool (poolAt b 4))
  | .poolCreate _ => resAt b (.pool (poolAt b 4))
  | .objectCreate _ => resAt b (.object (objAt b 4))
  | .poolGetRootObject _ => resAt b (.object (objAt b 4))
  | .poolDestroy _ => resAt b .done
  | .objectOpen _ _ => resAt b .done
  | .objectDestroy _ _ => resAt b .done
  | .poolSetRootObject _ _ _ => resAt b .done

/-- the value returned at a client, from what its buffer held and the reply -/
def clientValue (call : Call) (old : Bytes) (reply : MsgBuf) : Res :=
  -- `fla_sock_recv_msg` refuses a message that is too long
  if flaMsgDataMax < reply.hdr.len then .fail 2 else clientReturn (clientReceive old reply) call

/-! ## Packing and reading back -/

/-- the bytes that are sent after the header -/
def payload (msg : MsgBuf) : List UInt8 := (List.range msg.hdr.len).map msg.data

theorem payload_eq {msg msg' : MsgBuf} (hlen : msg.hdr.len = msg'.hdr.len)
    (hdata : ∀ i < msg.hdr.len, msg.data i = msg'.data i) : payload msg = payload msg' := by
  unfold payload
  rw [← hlen]
  exact List.map_congr_left fun i hi => hdata i (List.mem_range.1 hi)

section Pack

variable {len : ℕ} {b old : Bytes} {send : MsgBuf}

theorem pack_data {i : ℕ} (hi : i < len) : (pack len b send).data i = b i := by
  show copyBytes send.data 0 b 0 len i = b i
  rw [copyBytes_of_mem (Nat.zero_le _) (by omega), Nat.zero_add, Nat.sub_zero]

theorem payload_pack (len : ℕ) (b : Bytes) (send send' : MsgBuf) :
    payload (pack len b send) = payload (pack len b send') :=
  payload_eq rfl fun _ hi => (pack_data hi).trans (pack_data hi).symm

theorem clientReceive_pack {i : ℕ} (hi : i < len) : clientReceive old (pack len b send) i = b i := by
  show copyBytes old 0 (pack len b send).data 0 len i = b i
  rw [copyBytes_of_mem (Nat.zero_le _) (by omega), Nat.zero_add, Nat.sub_zero, pack_data hi]

theorem errAt_of_bytes {err : BitVec 32} (hb : ∀ i < 4, b i = errBytes err i) : errAt b = err := by
  have hword : leNat b 0 4 = err.toNat := by
    rw [← Nat.mod_eq_of_lt (err.isLt.trans_eq (show 2 ^ 32 = 256 ^ 4 by norm_num))]
    exact leNat_record [] [] fun i hi => by simpa [recordSize, errBytes] using hb i hi
  rw [errAt, hword, BitVec.ofNat_toNat, BitVec.setWidth_eq]

end Pack

/-! ## The kinds of results -/

/-- what a call gives back besides its error -/
inductive ResKind where
  | plain
  | object
  | pool

def Call.kind : Call → ResKind
  | .sync => .plain
  | .poolOpen _ => .pool
  | .poolCreate _ => .pool
  | .poolDestroy _ => .plain
  | .objectOpen _ _ => .plain
  | .objectCreate _ => .object
  | .objectDestroy _ _ => .plain
  | .poolSetRootObject _ _ _ => .plain
  | .poolGetRootObject _ => .object

/-- a result of that kind, with numbers that fit their fields -/
def Res.For : ResKind → Res → Prop
  | _, .fail err => err ≠ 0
  | .plain, .done => True
  | .object, .object obj => obj.Fits
  | .pool, .pool handle => handle.Fits
  | _, _ => False

theorem Res.of_for {kind : ResKind} {good : Res} (err : ℤ) (hgood : good.For kind) : (Res.of err good).For kind := by
  unfold Res.of
  split_ifs with h
  · exact hgood
  · cases kind <;> exact h

theorem baseCall_for {env : Env} {fs fs' : Flexalloc} {call : Call} {res : Res}
    (h : baseCall env fs call = .ok (res, fs')) : res.For call.kind := by
  cases call
  all_goals
    obtain ⟨r, -, hr⟩ := bind_eq_ok h
    cases hr
    refine Res.of_for _ ?_
    first
    | exact trivial
    | exact PoolHandle.stored_fits _
    | exact Obj.stored_fits _

/-! ## Replies read back -/

section Reply

variable {mem old : Bytes} {fs : Flexalloc} {send : MsgBuf} {res : Res}

theorem errAt_pack {len : ℕ} {b : Bytes} {err : BitVec 32} (hlen : 4 ≤ len) (hb : ∀ i < 4, b i = errBytes err i) :
    errAt (clientReceive old (pack len b send)) = err :=
  errAt_of_bytes fun i hi => (clientReceive_pack (by omega)).trans (hb i hi)

theorem errBytes_image (pieces : List (ℕ × ℕ × Bytes)) {i : ℕ} (hi : i < 4) :
    image ((0, 4, errBytes 0) :: pieces) i = errBytes 0 i := by
  rw [← image_head (errBytes 0) pieces hi, Nat.zero_add]

theorem resAt_fail {err : BitVec 32} (herr : err ≠ 0) (good : Res) :
    resAt (clientReceive old (errRsp (.fail err) send)) good = .fail err := by
  have hword : errAt (clientReceive old (errRsp (.fail err) send)) = err := errAt_pack le_rfl fun _ _ => rfl
  rw [resAt, hword, if_neg herr]

theorem plain_value (hres : res.For .plain) : resAt (clientReceive old (errRsp res send)) .done = res := by
  cases res with
  | fail err => exact resAt_fail hres _
  | done =>
    have hword : errAt (clientReceive old (errRsp .done send)) = 0 := errAt_pack le_rfl fun _ _ => rfl
    rw [resAt, hword, if_pos rfl]
  | object obj => exact absurd hres id
  | pool handle => exact absurd hres id

theorem object_value (hres : res.For .object) :
    resAt (clientReceive old (flaDaemonObjectCreateRsp res send))
      (.object (objAt (clientReceive old (flaDaemonObjectCreateRsp res send)) 4)) = res := by
  cases res with
  | fail err => exact resAt_fail hres _
  | done => exact absurd hres id
  | pool handle => exact absurd hres id
  | object obj =>
    unfold flaDaemonObjectCreateRsp
    dsimp only
    rw [resAt, errAt_pack (by omega) fun i hi => errBytes_image _ hi, if_pos rfl, objAt_of_bytes hres fun i hi => ?_]
    rw [clientReceive_pack (by unfold sizeofFlaObject; omega), image_tail _ _ (by omega),
      image_head _ _ (show i < sizeofFlaObject from hi)]

theorem pool_value (hres : res.For .pool) :
    resAt (clientReceive old (poolRsp mem fs res send)) (.pool (poolAt (clientReceive old (poolRsp mem fs res send)) 4)) =
      res := by
  cases res with
  | fail err => exact resAt_fail hres _
  | done => exact absurd hres id
  | object obj => exact absurd hres id
  | pool handle =>
    unfold poolRsp
    dsimp only
    rw [resAt, errAt_pack (by omega) fun i hi => errBytes_image _ hi, if_pos rfl,
      poolAt_of_bytes mem hres fun i hi => ?_]
    have hi' : i < sizeofFlaPool := by unfold sizeofFlaPool; omega
    rw [clientReceive_pack (by omega), image_tail _ _ (by omega), image_head _ _ hi']

/-- every reply but that of a root object is packed from its start -/
theorem callRsp_pack (mem : Bytes) (fs : Flexalloc) (res : Res) {call : Call}
    (hroot : ∀ pool, call ≠ .poolGetRootObject pool) :
    ∃ len b, len ≤ flaMsgDataMax ∧ ∀ send, callRsp mem fs res send call = pack len b send := by
  have herr : ∃ len b, len ≤ flaMsgDataMax ∧ ∀ send, errRsp res send = pack len b send :=
    ⟨4, errBytes res.err, by decide, fun _ => rfl⟩
  have hpool : ∃ len b, len ≤ flaMsgDataMax ∧ ∀ send, poolRsp mem fs res send = pack len b send := by
    cases res with
    | pool handle => exact ⟨4 + sizeofFlaPool + sizeofFlaPoolEntry, _, by decide, fun _ => rfl⟩
    | _ => exact herr
  cases call with
  | poolGetRootObject pool => exact absurd rfl (hroot pool)
  | poolOpen name => exact hpool
  | poolCreate arg => exact hpool
  | objectCreate pool =>
    cases res with
    | object obj => exact ⟨4 + sizeofFlaObject, _, by decide, fun _ => rfl⟩
    | _ => exact herr
  | _ => exact herr

/-- **Replies are read back**: but for the two calls whose error is not written or not read. -/
theorem callRsp_value {call : Call} (hres : res.For call.kind) (hroot : ∀ pool, call ≠ .poolGetRootObject pool)
    (hsync : call = .sync → res = .done) (old : Bytes) (send : MsgBuf) :
    clientValue call old (callRsp mem fs res send call) = res := by
  obtain ⟨len, b, hlen, hpack⟩ := callRsp_pack mem fs res hroot
  have hshort : ¬ flaMsgDataMax < (callRsp mem fs res send call).hdr.len := by
    rw [hpack]
    exact not_lt.2 hlen
  rw [clientValue, if_neg hshort]
  cases call with
  | sync => exact (hsync rfl).symm
  | poolGetRootObject pool => exact absurd rfl (hroot pool)
  | poolOpen name => exact pool_value hres
  | poolCreate arg => exact pool_value hres
  | objectCreate pool => exact object_value hres
  | poolDestroy handle => exact plain_value hres
  | objectOpen pool obj => exact plain_value hres
  | objectDestroy pool obj => exact plain_value hres
  | poolSetRootObject pool obj act => exact plain_value hres

end Reply

/-! ## Serving a message -/

section Serve

variable {env : Env} {d : Daemon} {msg recv : MsgBuf} {call : Call}

/-- the daemon's send buffer when the handler is called -/
def Daemon.sendFor (d : Daemon) (msg : MsgBuf) : MsgBuf :=
  { d.send with hdr := { d.send.hdr with cmd := msg.hdr.cmd, tag := msg.hdr.tag } }

theorem daemonReceive_hdr {old : Bytes} (h : daemonReceive old msg = .ok recv) : recv.hdr = msg.hdr := by
  unfold daemonReceive at h
  split_ifs at h
  cases h
  rfl

theorem serve_answer (mem : Bytes) (hdec : (daemonReceive d.recv msg >>= handlerCall) = .ok (some call))
    (hcmd : msg.hdr.cmd ≠ .syncNoRsps) {res : Res} {fs : Flexalloc}
    (hcall : daemonCall env d.fs call = .ok (some (res, fs))) :
    ∃ recv', serve env mem d msg = .ok (some (callRsp mem fs res (d.sendFor msg) call),
      { d with fs := fs, recv := recv', send := callRsp mem fs res (d.sendFor msg) call }) := by
  obtain ⟨recv, hrecv, hhandler⟩ := bind_eq_ok hdec
  refine ⟨recvAfter mem recv, ?_⟩
  rw [← daemonReceive_hdr hrecv] at hcmd
  rw [serve, hrecv, ok_bind, msgHandler, hhandler, ok_bind]
  dsimp only
  rw [hcall, ok_bind]
  dsimp only
  rw [if_neg hcmd, Daemon.sendFor, daemonReceive_hdr hrecv]

theorem serve_fault (mem : Bytes) (hdec : (daemonReceive d.recv msg >>= handlerCall) = .ok (some call)) {f : Fault}
    (hcall : daemonCall env d.fs call = .error f) : serve env mem d msg = .error f := by
  obtain ⟨recv, hrecv, hhandler⟩ := bind_eq_ok hdec
  rw [serve, hrecv, ok_bind, msgHandler, hhandler, ok_bind]
  dsimp only
  rw [hcall]
  rfl

theorem serve_silent (mem : Bytes) (hdec : (daemonReceive d.recv msg >>= handlerCall) = .ok (some call))
    (hcall : daemonCall env d.fs call = .ok none) : ∃ d', serve env mem d msg = .ok (none, d') := by
  obtain ⟨recv, hrecv, hhandler⟩ := bind_eq_ok hdec
  refine ⟨{ d with recv := recvAfter mem recv, send := d.sendFor recv }, ?_⟩
  rw [serve, hrecv, ok_bind, msgHandler, hhandler, ok_bind]
  dsimp only
  rw [hcall, ok_bind]
  rfl

theorem serve_undecoded (mem : Bytes) {f : Fault} (hdec : (daemonReceive d.recv msg >>= handlerCall) = .error f) :
    serve env mem d msg = .error f := by
  unfold serve
  cases hrecv : daemonReceive d.recv msg with
  | error e =>
    rw [hrecv] at hdec
    exact congrArg Except.error (Except.error.inj hdec)
  | ok recv =>
    rw [hrecv, ok_bind] at hdec
    rw [ok_bind, msgHandler, hdec]
    rfl

end Serve

/-! ## Requests -/

/-- the messages a client sends: for a call, and when it connects and disconnects -/
inductive Request where
  | call (call : Call)
  | identify
  | initInfo
  | close

def Request.Fits : Request → Prop
  | .call c => c.Fits
  | _ => True

/-- the message of a request; `mem` are bytes that nobody set -/
def requestMsg (mem : Bytes) (send : MsgBuf) : Request → MsgBuf
  | .call call => clientRequest mem send call
  | .identify => request .identify 0 0 send
  -- `fla_daemon_fs_init_rq` clears the buffer
  | .initInfo => ⟨⟨0, .initInfo, send.hdr.tag⟩, copyBytes send.data 0 0 0 flaMsgDataMax⟩
  | .close => request .syncNoRsps 0 0 send

theorem clientRequest_cmd (mem : Bytes) (send : MsgBuf) (call : Call) :
    (clientRequest mem send call).hdr.cmd ≠ .syncNoRsps := by
  cases call <;> exact nofun

def Daemon.withBufs (d : Daemon) (recv : Bytes) (send : MsgBuf) : Daemon := { d with recv := recv, send := send }

/-- what is sent back, when the daemon does not stop at a fault -/
def outcome (env : Env) (mem : Bytes) (d : Daemon) (msg : MsgBuf) : Ret (Option (List UInt8)) := do
  let (reply, _) ← serve env mem d msg
  .ok (reply.map payload)

/-- **Faithful replies**: what is sent back does not depend on what the daemon's buffers held, and for a call it is
read at the client, whatever its buffer held, as what the base function returned in the daemon. -/
structure Faithful (env : Env) (mem : Bytes) (d : Daemon) (msg : MsgBuf) (req : Request) : Prop where
  same : ∀ recv send recv' send',
    outcome env mem (d.withBufs recv send) msg = outcome env mem (d.withBufs recv' send') msg
  value : ∀ call, req = .call call → ∃ made res fs, baseCall env d.fs made = .ok (res, fs) ∧ ∀ recv send,
    (daemonReceive recv msg >>= handlerCall) = .ok (some made) ∧
    ∃ reply d', serve env mem (d.withBufs recv send) msg = .ok (some reply, d') ∧ d'.fs = fs ∧
      ∀ old, clientValue call old reply = res

/-- a pool create whose message has all of the arguments and the terminator of the name -/
def CreateTerminated (msg : MsgBuf) : Prop :=
  msg.hdr.len ≤ flaMsgDataMax ∧ ∃ i, sizeofFlaPoolCreateArg ≤ i ∧ i < msg.hdr.len ∧ msg.data i = 0

/-- when a reply is faithful -/
def ReplyOwn (env : Env) (fs : Flexalloc) (msg : MsgBuf) : Request → Prop
  | .call (.poolGetRootObject _) => False
  | .call .sync => ∃ err fs', flaBaseSync env fs = .ok (err, fs') ∧ cint err = 0
  | .call (.poolOpen name) => htblLookup flaHashing fs.pools.htbl name = .ok none
  | .call (.poolCreate _) => CreateTerminated msg
  | .call (.poolDestroy _) => env.malloc
  | _ => True

/-! ## Connecting and disconnecting -/

section Connect

variable {env : Env} {mem : Bytes}

theorem identify_same (d : Daemon) (csend : MsgBuf) (recv recv' : Bytes) (send send' : MsgBuf) :
    outcome env mem (d.withBufs recv send) (request .identify 0 0 csend) =
      outcome env mem (d.withBufs recv' send') (request .identify 0 0 csend) := by
  have hout : ∀ d : Daemon, outcome env mem d (request .identify 0 0 csend) =
      .ok (some (payload (flaDaemonIdentifyRsp d.identity (d.sendFor (request .identify 0 0 csend))))) := fun _ => rfl
  rw [hout, hout]
  exact congrArg (fun p => Except.ok (some p)) (payload_pack _ _ _ _)

theorem initInfo_same (d : Daemon) (pad : Bytes) (csend : MsgBuf) (recv recv' : Bytes) (send send' : MsgBuf) :
    outcome env mem (d.withBufs recv send) (requestMsg pad csend .initInfo) =
      outcome env mem (d.withBufs recv' send') (requestMsg pad csend .initInfo) := by
  have hout : ∀ d : Daemon, outcome env mem d (requestMsg pad csend .initInfo) =
      (flaDaemonFsInitRsp { d with send := d.sendFor (requestMsg pad csend .initInfo) } >>= fun reply =>
        Except.ok (some (payload reply))) := fun d => by
    unfold outcome serve
    rw [show daemonReceive d.recv (requestMsg pad csend .initInfo) = .ok ⟨(requestMsg pad csend .initInfo).hdr,
      copyBytes d.recv 0 (requestMsg pad csend .initInfo).data 0 0⟩ from rfl, ok_bind]
    show (flaDaemonFsInitRsp _ >>= _) >>= _ = _
    rw [bind_assoc]
    rfl
  rw [hout, hout]
  unfold flaDaemonFsInitRsp Daemon.withBufs
  dsimp only
  split_ifs with hlen
  · rfl
  refine congrArg (fun p => Except.ok (some p)) (payload_eq rfl fun i hi => ?_)
  have hi' : i < flaMsgDataMax := lt_of_lt_of_le hi (not_lt.1 hlen)
  dsimp only
  rw [copyBytes_of_mem (Nat.zero_le _) (by omega), copyBytes_of_mem (Nat.zero_le _) (by omega)]

theorem close_same (d : Daemon) (csend : MsgBuf) (recv recv' : Bytes) (send send' : MsgBuf) :
    outcome env mem (d.withBufs recv send) (request .syncNoRsps 0 0 csend) =
      outcome env mem (d.withBufs recv' send') (request .syncNoRsps 0 0 csend) := by
  have hout : ∀ d : Daemon, outcome env mem d (request .syncNoRsps 0 0 csend) =
      (baseCall env d.fs .sync >>= fun _ => Except.ok none) := fun d => by
    obtain ⟨data, hrecv, -⟩ := daemonReceive_request .syncNoRsps (Nat.zero_le _) 0 d.recv csend
    unfold outcome serve
    rw [hrecv, ok_bind]
    show ((baseCall env d.fs .sync >>= _) >>= _) >>= _ = _
    cases baseCall env d.fs .sync with
    | error f => rfl
    | ok r => rfl
  rw [hout, hout]
  rfl

end Connect

/-! ## Calls -/

section Calls

variable {env : Env} {mem : Bytes} {d : Daemon} {msg : MsgBuf} {call made : Call}

/-- a call that is answered with what the base function returned, in a reply that is read back -/
theorem faithful_of_answer {res : Res} {fs : Flexalloc}
    (hdec : ∀ recv, (daemonReceive recv msg >>= handlerCall) = .ok (some made)) (hcmd : msg.hdr.cmd ≠ .syncNoRsps)
    (hbase : baseCall env d.fs made = .ok (res, fs)) (hcall : daemonCall env d.fs made = .ok (some (res, fs)))
    (hroot : ∀ pool, made ≠ .poolGetRootObject pool)
    (hvalue : ∀ old send, clientValue call old (callRsp mem fs res send made) = res) :
    Faithful env mem d msg (.call call) := by
  have hserve : ∀ recv send, ∃ recv', serve env mem (d.withBufs recv send) msg =
      .ok (some (callRsp mem fs res ((d.withBufs recv send).sendFor msg) made),
        { d with fs := fs, recv := recv', send := callRsp mem fs res ((d.withBufs recv send).sendFor msg) made }) :=
    fun recv send => serve_answer mem (hdec recv) hcmd hcall
  have hout : ∀ recv send, outcome env mem (d.withBufs recv send) msg =
      .ok (some (payload (callRsp mem fs res ((d.withBufs recv send).sendFor msg) made))) := fun recv send => by
    obtain ⟨recv', h⟩ := hserve recv send
    rw [outcome, h, ok_bind]
    rfl
  constructor
  · intro recv send recv' send'
    obtain ⟨len, b, -, hpack⟩ := callRsp_pack mem fs res hroot
    rw [hout, hout, hpack, hpack, payload_pack]
  · intro c hc
    cases hc
    refine ⟨made, res, fs, hbase, fun recv send => ⟨hdec recv, ?_⟩⟩
    obtain ⟨recv', h⟩ := hserve recv send
    exact ⟨_, _, h, rfl, fun old => hvalue old _⟩

theorem Faithful.answer (hf : Faithful env mem d msg (.call call)) {made : Call} {res : Res} {fs : Flexalloc}
    (hdec : ∀ recv, (daemonReceive recv msg >>= handlerCall) = .ok (some made))
    (hbase : baseCall env d.fs made = .ok (res, fs)) (recv : Bytes) (send : MsgBuf) :
    ∃ reply d', serve env mem (d.withBufs recv send) msg = .ok (some reply, d') ∧
      ∀ old, clientValue call old reply = res := by
  obtain ⟨made', res', fs', hbase', hall⟩ := hf.value call rfl
  obtain ⟨hdec', reply, d', hserve, -, hvalue⟩ := hall recv send
  rw [hdec recv] at hdec'
  cases hdec'
  rw [hbase] at hbase'
  cases hbase'
  exact ⟨reply, d', hserve, hvalue⟩

/-- nothing stands between these calls and their base functions -/
theorem daemonCall_base {fs : Flexalloc} {r : Res × Flexalloc} (hopen : ∀ name, call ≠ .poolOpen name)
    (hdestroy : ∀ handle, call = .poolDestroy handle → env.malloc) (h : baseCall env fs call = .ok r) :
    daemonCall env fs call = .ok (some r) := by
  cases call with
  | poolOpen name => exact absurd rfl (hopen name)
  | poolDestroy handle =>
    rw [daemonCall, if_neg (not_not.2 (hdestroy handle rfl)), h, ok_bind]
  | _ =>
    unfold daemonCall
    dsimp only
    rw [h, ok_bind]

end Calls

/-! ## Pool create -/

theorem createArgAt_terminated {b c : Bytes} {n : ℕ} (hn : sizeofFlaPoolCreateArg + n < flaMsgDataMax)
    (hzero : b (sizeofFlaPoolCreateArg + n) = 0) (hsame : ∀ i ≤ sizeofFlaPoolCreateArg + n, c i = b i) :
    ∃ arg, createArgAt b = .ok arg ∧ createArgAt c = .ok arg := by
  have hroom : n < flaMsgDataMax - sizeofFlaPoolCreateArg := by omega
  obtain ⟨name, hname, hname'⟩ := cstrAt_terminated hroom hzero fun i hi =>
    hsame (sizeofFlaPoolCreateArg + i) (by omega)
  have hnum : ∀ off width, off + width ≤ sizeofFlaPoolCreateArg → leNat c off width = leNat b off width :=
    fun off width h => leNat_congr fun i hi => hsame _ (by omega)
  rw [createArgAt, hname, ok_bind, createArgAt, hname', ok_bind, hnum 0 8 (by decide), hnum 16 4 (by decide),
    hnum 20 4 (by decide), hnum 24 4 (by decide), hnum 28 4 (by decide)]
  exact ⟨_, rfl, rfl⟩

theorem handlerCall_create {hdr : MsgHeader} (hcmd : hdr.cmd = .poolCreate) (data : Bytes) : handlerCall ⟨hdr, data⟩ =
    (createArgAt data >>= fun arg => Except.ok (some (Call.poolCreate arg))) := by
  unfold handlerCall
  rw [hcmd]

theorem create_decoded {msg : MsgBuf} (hcmd : msg.hdr.cmd = .poolCreate) (h : CreateTerminated msg) :
    ∃ arg, ∀ recv, (daemonReceive recv msg >>= handlerCall) = .ok (some (.poolCreate arg)) := by
  obtain ⟨hlen, i, hi, hilt, hzero⟩ := h
  obtain ⟨n, rfl⟩ := Nat.exists_eq_add_of_le hi
  obtain ⟨arg, harg, -⟩ := createArgAt_terminated (by omega) hzero (fun _ _ => rfl)
  refine ⟨arg, fun recv => ?_⟩
  have hsame : ∀ j ≤ sizeofFlaPoolCreateArg + n, copyBytes recv 0 msg.data 0 msg.hdr.len j = msg.data j := fun j hj => by
    rw [copyBytes_of_mem (Nat.zero_le _) (by omega), Nat.zero_add, Nat.sub_zero]
  obtain ⟨arg', harg', hrecv⟩ := createArgAt_terminated (by omega) hzero hsame
  rw [harg] at harg'
  cases harg'
  rw [daemonReceive, if_neg (not_lt.2 hlen), ok_bind, handlerCall_create hcmd, hrecv, ok_bind]

/-- a message without one is read on into what the buffer held, and past its end -/
theorem create_undecoded {msg : MsgBuf} (hcmd : msg.hdr.cmd = .poolCreate) (h : ¬ CreateTerminated msg) :
    (daemonReceive 1 msg >>= handlerCall) = .error .outOfBounds := by
  by_cases hlen : flaMsgDataMax < msg.hdr.len
  · rw [daemonReceive, if_pos hlen]
    rfl
  have hstr : ∀ i < flaMsgDataMax - sizeofFlaPoolCreateArg,
      copyBytes 1 0 msg.data 0 msg.hdr.len (sizeofFlaPoolCreateArg + i) ≠ 0 := fun i _ hzero => by
    by_cases hi : sizeofFlaPoolCreateArg + i < msg.hdr.len
    · rw [copyBytes_of_mem (Nat.zero_le _) (by omega), Nat.zero_add, Nat.sub_zero] at hzero
      exact h ⟨not_lt.1 hlen, _, Nat.le_add_right _ _, hi, hzero⟩
    · rw [copyBytes_of_not_mem (by omega)] at hzero
      exact absurd hzero (show (1 : UInt8) ≠ 0 by decide)
  rw [daemonReceive, if_neg hlen, ok_bind, handlerCall_create hcmd, createArgAt, cstrAt_unterminated hstr]
  rfl

/-! ## When replies are faithful -/

section Main

variable {env : Env} {mem : Bytes} {d : Daemon} (pad : Bytes) (csend : MsgBuf)

theorem call_faithful (call : Call) (hfits : call.Fits) (hopen : ∀ name, call ≠ .poolOpen name)
    (hcreate : ∀ arg, call ≠ .poolCreate arg) (hroot : ∀ pool, call ≠ .poolGetRootObject pool)
    (hdestroy : ∀ handle, call = .poolDestroy handle → env.malloc) {res : Res} {fs : Flexalloc}
    (hbase : baseCall env d.fs call = .ok (res, fs)) (hsync : call = .sync → res = .done) :
    Faithful env mem d (clientRequest pad csend call) (.call call) :=
  faithful_of_answer (request_decodes hfits hcreate pad csend) (clientRequest_cmd _ _ _) hbase
    (daemonCall_base hopen hdestroy hbase) hroot (callRsp_value (baseCall_for hbase) hroot hsync)

/-- the error word of a reply with a root object is what the send buffer held -/
theorem root_unfaithful {pool : PoolHandle} (hfits : pool.Fits) {r : Res × Flexalloc}
    (hbase : baseCall env d.fs (.poolGetRootObject pool) = .ok r) :
    ¬ Faithful env mem d (clientRequest pad csend (.poolGetRootObject pool)) (.call (.poolGetRootObject pool)) := by
  intro hf
  obtain ⟨res, fs⟩ := r
  have hcall : daemonCall env d.fs (.poolGetRootObject pool) = .ok (some (res, fs)) := daemonCall_base nofun nofun hbase
  have hdec := request_decodes (show (Call.poolGetRootObject pool).Fits from hfits) nofun pad csend
  have hhead : ∀ send, ∃ rest, outcome env mem (d.withBufs 0 send) (clientRequest pad csend (.poolGetRootObject pool)) =
      .ok (some (send.data 0 :: rest)) := fun send => by
    obtain ⟨recv', h⟩ := serve_answer (d := d.withBufs 0 send) mem (hdec 0) (clientRequest_cmd _ _ _) hcall
    rw [outcome, h, ok_bind]
    cases res with
    | object obj => exact ⟨_, rfl⟩
    | _ => exact ⟨_, rfl⟩
  obtain ⟨rest, h0⟩ := hhead ⟨⟨0, .identify, 0⟩, 0⟩
  obtain ⟨rest', h1⟩ := hhead ⟨⟨0, .identify, 0⟩, 1⟩
  have hsame := hf.same 0 ⟨⟨0, .identify, 0⟩, 0⟩ 0 ⟨⟨0, .identify, 0⟩, 1⟩
  rw [h0, h1] at hsame
  have hbyte := (List.cons.inj (Option.some.inj (Except.ok.inj hsame))).1
  exact absurd hbyte (show (0 : UInt8) ≠ 1 by decide)

/-- the client of a sync returns 0 -/
theorem sync_faithful_iff {r : Res × Flexalloc} (hbase : baseCall env d.fs .sync = .ok r) :
    Faithful env mem d (clientRequest pad csend .sync) (.call .sync) ↔
      ∃ err fs, flaBaseSync env d.fs = .ok (err, fs) ∧ cint err = 0 := by
  obtain ⟨⟨err, fs⟩, hsync, hr⟩ := bind_eq_ok hbase
  cases hr
  constructor
  · intro hf
    refine ⟨err, fs, hsync, by_contra fun herr => ?_⟩
    have hdec := request_decodes (show Call.sync.Fits from trivial) nofun pad csend
    obtain ⟨recv', hserve⟩ := serve_answer (d := d.withBufs 0 ⟨⟨0, .sync, 0⟩, 0⟩) mem (hdec 0) (clientRequest_cmd _ _ _)
      (daemonCall_base nofun nofun hbase)
    obtain ⟨reply, d', hserve', hvalue⟩ := hf.answer hdec hbase 0 ⟨⟨0, .sync, 0⟩, 0⟩
    rw [hserve] at hserve'
    cases hserve'
    have hdone : Res.done = Res.of err .done := hvalue 0
    rw [Res.of, if_neg herr] at hdone
    cases hdone
  · rintro ⟨err', fs', hsync', herr⟩
    rw [hsync] at hsync'
    cases hsync'
    exact call_faithful pad csend .sync trivial nofun nofun nofun nofun hbase fun _ => if_pos herr

/-- the handler of a pool open has no place for the handle -/
theorem poolOpen_faithful_iff {name : List (BitVec 8)} (hfits : NameFits name) {r : Res × Flexalloc}
    (hbase : baseCall env d.fs (.poolOpen name) = .ok r) :
    Faithful env mem d (clientRequest pad csend (.poolOpen name)) (.call (.poolOpen name)) ↔
      htblLookup flaHashing d.fs.pools.htbl name = .ok none := by
  have hdec := request_decodes (show (Call.poolOpen name).Fits from hfits) nofun pad csend
  constructor
  · intro hf
    obtain ⟨reply, d', hserve, -⟩ := hf.answer hdec hbase 0 ⟨⟨0, .poolOpen, 0⟩, 0⟩
    cases hlook : htblLookup flaHashing d.fs.pools.htbl name with
    | error f =>
      rw [baseCall, flaBasePoolOpen, hlook] at hbase
      cases hbase
    | ok found =>
      cases found with
      | none => rfl
      | some i =>
        have hcall : daemonCall env d.fs (.poolOpen name) = .error .outOfBounds := by
          rw [daemonCall, hlook, ok_bind]
        rw [serve_fault (d := d.withBufs 0 _) mem (hdec 0) hcall] at hserve
        cases hserve
  · intro hlook
    have hbase' : baseCall env d.fs (.poolOpen name) = .ok (.ofPool (-1) none, d.fs) := by
      rw [baseCall, flaBasePoolOpen, hlook]
      rfl
    have hcall : daemonCall env d.fs (.poolOpen name) = .ok (some (.ofPool (-1) none, d.fs)) := by
      rw [daemonCall, hlook, ok_bind]
    exact faithful_of_answer hdec (clientRequest_cmd _ _ _) hbase' hcall nofun
      (callRsp_value (baseCall_for hbase') nofun nofun)

/-- without memory for the handle, the pool is not destroyed and nothing is answered -/
theorem poolDestroy_faithful_iff {handle : PoolHandle} (hfits : handle.Fits) {r : Res × Flexalloc}
    (hbase : baseCall env d.fs (.poolDestroy handle) = .ok r) :
    Faithful env mem d (clientRequest pad csend (.poolDestroy handle)) (.call (.poolDestroy handle)) ↔ env.malloc := by
  constructor
  · intro hf
    by_contra hmalloc
    have hdec := request_decodes (show (Call.poolDestroy handle).Fits from hfits) nofun pad csend
    have hcall : daemonCall env d.fs (.poolDestroy handle) = .ok none := if_pos hmalloc
    obtain ⟨reply, d', hserve, -⟩ := hf.answer hdec hbase 0 ⟨⟨0, .poolDestroy, 0⟩, 0⟩
    obtain ⟨d'', hsilent⟩ := serve_silent (d := d.withBufs 0 ⟨⟨0, .poolDestroy, 0⟩, 0⟩) mem (hdec 0) hcall
    rw [hserve] at hsilent
    cases hsilent
  · intro hmalloc
    exact call_faithful pad csend (.poolDestroy handle) hfits nofun nofun nofun (fun _ _ => hmalloc) hbase nofun

/-- **Faithful replies.** For every request with arguments that fit, from any client buffer, to a daemon with any file
system: when the base function of the call that the message determines returns, the reply is faithful if and only if the
request is one of those that `ReplyOwn` allows. -/
theorem reply_faithful_iff (env : Env) (mem pad : Bytes) (d : Daemon) (csend : MsgBuf) (req : Request) (hfits : req.Fits)
    (hret : ∀ made, (∀ recv, (daemonReceive recv (requestMsg pad csend req) >>= handlerCall) = .ok (some made)) →
      ∃ r, baseCall env d.fs made = .ok r) :
    Faithful env mem d (requestMsg pad csend req) req ↔ ReplyOwn env d.fs (requestMsg pad csend req) req := by
  cases req with
  | identify => exact iff_of_true ⟨fun _ _ _ _ => identify_same d csend _ _ _ _, nofun⟩ trivial
  | initInfo => exact iff_of_true ⟨fun _ _ _ _ => initInfo_same d pad csend _ _ _ _, nofun⟩ trivial
  | close => exact iff_of_true ⟨fun _ _ _ _ => close_same d csend _ _ _ _, nofun⟩ trivial
  | call call =>
    have hret' : (∀ arg, call ≠ .poolCreate arg) → ∃ r, baseCall env d.fs call = .ok r := fun hother =>
      hret call (request_decodes hfits hother pad csend)
    cases call with
    | sync =>
      obtain ⟨r, hbase⟩ := hret' nofun
      exact sync_faithful_iff pad csend hbase
    | poolOpen name =>
      obtain ⟨r, hbase⟩ := hret' nofun
      exact poolOpen_faithful_iff pad csend hfits hbase
    | poolCreate arg =>
      constructor
      · intro hf
        by_contra hterm
        obtain ⟨made, res, fs, -, hall⟩ := hf.value _ rfl
        have hdec := (hall 1 ⟨⟨0, .poolCreate, 0⟩, 0⟩).1
        rw [create_undecoded rfl hterm] at hdec
        cases hdec
      · intro hterm
        obtain ⟨made, hdec⟩ := create_decoded rfl hterm
        obtain ⟨⟨res, fs⟩, hbase⟩ := hret _ hdec
        have hvalue : ∀ old send, clientValue (.poolCreate made) old (callRsp mem fs res send (.poolCreate made)) = res :=
          callRsp_value (baseCall_for hbase) nofun nofun
        exact faithful_of_answer hdec (clientRequest_cmd _ _ _) hbase (daemonCall_base nofun nofun hbase) nofun hvalue
    | poolDestroy handle =>
      obtain ⟨r, hbase⟩ := hret' nofun
      exact poolDestroy_faithful_iff pad csend hfits hbase
    | poolGetRootObject pool =>
      obtain ⟨r, hbase⟩ := hret' nofun
      exact iff_of_false (root_unfaithful pad csend hfits hbase) id
    | objectOpen pool obj =>
      obtain ⟨⟨res, fs⟩, hbase⟩ := hret' nofun
      exact iff_of_true (call_faithful pad csend (.objectOpen pool obj) hfits nofun nofun nofun nofun hbase nofun) trivial
    | objectCreate pool =>
      obtain ⟨⟨res, fs⟩, hbase⟩ := hret' nofun
      exact iff_of_true (call_faithful pad csend (.objectCreate pool) hfits nofun nofun nofun nofun hbase nofun) trivial
    | objectDestroy pool obj =>
      obtain ⟨⟨res, fs⟩, hbase⟩ := hret' nofun
      exact iff_of_true (call_faithful pad csend (.objectDestroy pool obj) hfits nofun nofun nofun nofun hbase nofun) trivial
    | poolSetRootObject pool obj act =>
      obtain ⟨⟨res, fs⟩, hbase⟩ := hret' nofun
      exact iff_of_true (call_faithful pad csend (.poolSetRootObject pool obj act) hfits nofun nofun nofun nofun hbase nofun) trivial

end Main

/-- the daemon on a small device, with one pool and no object -/
def smallDaemon (recv : Bytes) (send : MsgBuf) : Option Daemon :=
  (baseCall .reliable (flaMkfs smallDev smallGeo 0) (.poolCreate (smallArg 97 1))).toOption.map fun r =>
    ⟨r.2, ⟨1000, 1⟩, [47], none, recv, send⟩

/-- creating an object is answered faithfully -/
theorem objectCreate_reply_faithful : ∃ d res, smallDaemon 0 ⟨⟨0, .identify, 0⟩, 0⟩ = some d ∧
    baseCall .reliable d.fs (.objectCreate ⟨97, 0⟩) = .ok res ∧ res.1 = .object ⟨0, 0⟩ ∧
    Faithful .reliable 0 d (requestMsg 0 ⟨⟨0, .initInfo, 0⟩, 0⟩ (.call (.objectCreate ⟨97, 0⟩)))
      (.call (.objectCreate ⟨97, 0⟩)) := by
  obtain ⟨d, hd, hval⟩ := Option.map_eq_some_iff.1 (show (smallDaemon 0 ⟨⟨0, .identify, 0⟩, 0⟩).map
    (fun d => (baseCall .reliable d.fs (.objectCreate ⟨97, 0⟩)).toOption.map (·.1)) = some (some (.object ⟨0, 0⟩)) by
    decide +kernel)
  obtain ⟨r, hr, hres⟩ := Option.map_eq_some_iff.1 hval
  have hbase : baseCall .reliable d.fs (.objectCreate ⟨97, 0⟩) = .ok r := toOption_eq_some hr
  have hfits : (Request.call (.objectCreate ⟨97, 0⟩)).Fits := ⟨by decide, by decide⟩
  refine ⟨d, r, hd, hbase, hres, (reply_faithful_iff .reliable 0 0 d _ (.call (.objectCreate ⟨97, 0⟩)) hfits
    fun made hmade => ?_).2 trivial⟩
  have hmade0 := hmade 0
  rw [requestMsg, request_decodes (show (Call.objectCreate ⟨97, 0⟩).Fits from hfits) nofun] at hmade0
  cases hmade0
  exact ⟨r, hbase⟩

/-- **A stale reply**: the pool has no root object, which the base function reports with `EINVAL`. The client is told
that there is one when the daemon's last reply was a success, and is given what its own buffer held. -/
theorem root_reply_stale : ∃ d reply d', smallDaemon 0 ⟨⟨0, .identify, 0⟩, 0⟩ = some d ∧
    baseCall .reliable d.fs (.poolGetRootObject ⟨97, 0⟩) = .ok (.fail 22, d.fs) ∧
    serve .reliable 0 d (requestMsg 0 ⟨⟨0, .initInfo, 0⟩, 0⟩ (.call (.poolGetRootObject ⟨97, 0⟩))) =
      .ok (some reply, d') ∧
    clientValue (.poolGetRootObject ⟨97, 0⟩) 0 reply = .object ⟨0, 0⟩ ∧
    ¬ Faithful .reliable 0 d (requestMsg 0 ⟨⟨0, .initInfo, 0⟩, 0⟩ (.call (.poolGetRootObject ⟨97, 0⟩)))
      (.call (.poolGetRootObject ⟨97, 0⟩)) := by
  obtain ⟨d, hd, hval⟩ := Option.map_eq_some_iff.1 (show (smallDaemon 0 ⟨⟨0, .identify, 0⟩, 0⟩).map
    (fun d => decide ((d.fs.pools.entries 0).rootObjHndl = flaRootObjNone ∧ 0 < d.fs.npools)) = some true by
    decide +kernel)
  obtain ⟨hnone, hnpools⟩ := of_decide_eq_true hval
  have hbase : baseCall .reliable d.fs (.poolGetRootObject ⟨97, 0⟩) = .ok (.fail 22, d.fs) := by
    rw [baseCall, flaBasePoolGetRootObject, Flexalloc.entryAt, if_pos hnpools, ok_bind, if_pos hnone]
    rfl
  have hfits : (Call.poolGetRootObject ⟨97, 0⟩).Fits := ⟨by decide, by decide⟩
  have hsend : d.send.data = 0 := by
    obtain ⟨r, -, rfl⟩ := Option.map_eq_some_iff.1 hd
    rfl
  obtain ⟨recv', hserve⟩ := serve_answer (d := d) 0 (request_decodes hfits nofun 0 ⟨⟨0, .initInfo, 0⟩, 0⟩ d.recv)
    (clientRequest_cmd _ _ _) (daemonCall_base nofun nofun hbase)
  refine ⟨d, _, _, hd, hbase, hserve, ?_, root_unfaithful 0 _ hfits hbase⟩
  show (let b := copyBytes 0 0 d.send.data 0 4; resAt b (.object (objAt b 4))) = _
  rw [hsend]
  rfl

end FlexAlloc
