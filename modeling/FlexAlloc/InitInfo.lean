/-
The reply to INIT_INFO: the geometry and the names of the devices, as the daemon packs them (`fla_daemon_fs_init_rsp`) and
the client unpacks them (`fla_daemon_fs_init_rq`).

Each name follows its length. The length of the first name counts the terminator, that of the second does not and is 0
when there is no metadata device; `fla_strndup` adds a terminator to both, so the client's copy of the first ends in two.

- `geoAt_of_held`: the geometry is read back from where it is held.
- `dup_of_held`: a name that is held is duplicated with a terminator.
- `init_info_round_trip`: what is packed is unpacked, whatever the buffers held before.
-/
import FlexAlloc.Daemon
import FlexAlloc.Hash

namespace FlexAlloc

open FlexAlloc.Core

/-! ## The client's side -/

/-- a geometry in memory -/
def geoAt (b : Bytes) (off : ℕ) : Geo where
  nlb := leNat b off 8
  lbNbytes := leNat b (off + 8) 4
  slabNlb := leNat b (off + 12) 4
  npools := leNat b (off + 16) 4
  nslabs := leNat b (off + 20) 4
  mdNlb := leNat b (off + 24) 4
  poolSgmt := ⟨leNat b (off + 28) 4, leNat b (off + 32) 4, leNat b (off + 36) 4, leNat b (off + 40) 4⟩
  slabSgmtNlb := leNat b (off + 44) 4

/-- `fla_strndup` of `len` bytes at `off` in the data of a message: the bytes of the copy -/
def flaStrndup (b : Bytes) (off len : ℕ) : Ret (List (BitVec 8)) :=
  if flaMsgDataMax < off + len then .error .outOfBounds
  else .ok ((List.range len).map (fun i => (b (off + i)).toBitVec) ++ [0])

/-- what `fla_daemon_fs_init_rq` sets: the geometry and the copies of the names -/
structure InitInfo where
  geo : Geo
  devUri : List (BitVec 8)
  mdDevUri : Option (List (BitVec 8))

/-- `fla_daemon_fs_init_rq` from the reply in the receive buffer to where it opens the devices -/
def flaDaemonFsInitRq (env : Env) (b : Bytes) : Ret (ℤ × Option InitInfo) := do
  let geo := geoAt b 0
  let devUriLen := leNat b sizeofFlaGeo 8
  if ¬ env.malloc then .ok (-eNOMEM, none)
  else
    let devUri ← flaStrndup b (sizeofFlaGeo + 8) devUriLen
    if flaMsgDataMax < sizeofFlaGeo + 8 + devUriLen + 8 then .error .outOfBounds
    else
      let mdDevUriLen := leNat b (sizeofFlaGeo + 8 + devUriLen) 8
      if mdDevUriLen = 0 then .ok (0, some ⟨geo, devUri, none⟩)
      else
        let mdDevUri ← flaStrndup b (sizeofFlaGeo + 8 + devUriLen + 8) mdDevUriLen
        .ok (0, some ⟨geo, devUri, some mdDevUri⟩)

/-- the data of the receive buffer once the reply is there: it was cleared before the request was sent -/
def initReceive (old : Bytes) (reply : MsgBuf) : Bytes :=
  clientReceive (copyBytes old 0 (fun _ => 0) 0 flaMsgDataMax) reply

/-! ## Reading back -/

/-- numbers that fit the fields of `struct fla_geo` -/
structure Geo.Sized (geo : Geo) : Prop where
  nlb : geo.nlb < 2 ^ 64
  lbNbytes : geo.lbNbytes < 2 ^ 32
  slabNlb : geo.slabNlb < 2 ^ 32
  npools : geo.npools < 2 ^ 32
  nslabs : geo.nslabs < 2 ^ 32
  mdNlb : geo.mdNlb < 2 ^ 32
  freelistNlb : geo.poolSgmt.freelistNlb < 2 ^ 32
  htblNlb : geo.poolSgmt.htblNlb < 2 ^ 32
  htblTblSize : geo.poolSgmt.htblTblSize < 2 ^ 32
  entriesNlb : geo.poolSgmt.entriesNlb < 2 ^ 32
  slabSgmtNlb : geo.slabSgmtNlb < 2 ^ 32

section Read

variable {b : Bytes} {off : ℕ}

theorem geoAt_of_held {geo : Geo} (hg : geo.Sized) (h : Held b off sizeofFlaGeo (geoBytes geo)) : geoAt b off = geo := by
  unfold geoBytes at h
  have hword : ∀ (j : ℕ) {v o : ℕ}, _ → _ → o + 4 ≤ sizeofFlaGeo → v < 2 ^ 32 → leNat b (off + o) 4 = v :=
    fun j v o hj ho hsize hv => (h.field j hj ho hsize).trans (Nat.mod_eq_of_lt (hv.trans_eq (by norm_num)))
  have hread : leNat b (off + 0) 8 = geo.nlb % 256 ^ 8 := h.field 0 rfl rfl (Nat.le_of_lt (by decide : 8 < 48))
  have hnlb : leNat b off 8 = geo.nlb := hread.trans (Nat.mod_eq_of_lt (hg.nlb.trans_eq (by norm_num)))
  obtain ⟨nlb, lbNbytes, slabNlb, npools, nslabs, mdNlb, ⟨freelistNlb, htblNlb, htblTblSize, entriesNlb⟩, slabSgmtNlb⟩ := geo
  simp only [geoAt, Geo.mk.injEq, GeoPoolSgmt.mk.injEq]
  exact ⟨hnlb, hword 1 rfl rfl (by decide) hg.lbNbytes, hword 2 rfl rfl (by decide) hg.slabNlb,
    hword 3 rfl rfl (by decide) hg.npools, hword 4 rfl rfl (by decide) hg.nslabs, hword 5 rfl rfl (by decide) hg.mdNlb,
    ⟨hword 6 rfl rfl (by decide) hg.freelistNlb, hword 7 rfl rfl (by decide) hg.htblNlb,
      hword 8 rfl rfl (by decide) hg.htblTblSize, hword 9 rfl rfl (by decide) hg.entriesNlb⟩,
    hword 10 rfl rfl (by decide) hg.slabSgmtNlb⟩

theorem size_of_held {v : ℕ} (hv : v ≤ flaMsgDataMax) (h : Held b off 8 (record [(8, v)])) : leNat b off 8 = v := by
  have hread : leNat b (off + 0) 8 = v % 256 ^ 8 := h.field 0 rfl rfl le_rfl
  exact hread.trans (Nat.mod_eq_of_lt (hv.trans_lt (by decide)))

/-- **Copying a name** that is held: its bytes, up to the length given, and a terminator. -/
theorem dup_of_held {name : List (BitVec 8)} {len : ℕ} (hlen : name.length ≤ len) (hroom : off + len ≤ flaMsgDataMax)
    (h : Held b off len (nameBytes name)) :
    flaStrndup b off len = .ok (name ++ List.replicate (len - name.length) 0 ++ [0]) := by
  have hbytes : (List.range len).map (fun i => (b (off + i)).toBitVec) = name ++ List.replicate (len - name.length) 0 := by
    refine List.ext_getElem (by simp; omega) fun i hi _ => ?_
    have hi' : i < len := by simpa using hi
    simp only [List.getElem_map, List.getElem_range]
    rw [h i hi', nameBytes]
    by_cases hin : i < name.length
    · simp [hin]
    · rw [List.getElem_append_right (not_lt.1 hin)]
      simp [hin]
  rw [flaStrndup, if_neg (by omega), hbytes]

theorem cstr_dup (name : List (BitVec 8)) (n : ℕ) : cstr (name ++ List.replicate n 0 ++ [0]) = cstr name := by
  have hzeros : List.replicate n (0 : BitVec 8) ++ [0] = List.replicate (n + 1) 0 := List.replicate_succ'.symm
  rw [List.append_assoc, hzeros, cstr, cstr, List.takeWhile_append]
  split_ifs with hall
  · have hname : name.takeWhile (· ≠ 0) = name := (List.takeWhile_prefix _).eq_of_length hall
    rw [hname]
    simp [List.replicate_succ]
  · rfl

end Read

/-! ## The round trip -/

/-- what the client finds out is what the daemon has: the geometry, and the names as C strings -/
structure SameInfo (d : Daemon) (info : InitInfo) : Prop where
  geo : info.geo = d.fs.geo
  devUri : cstr info.devUri = cstr d.devUri
  absent : info.mdDevUri = none ↔ d.mdDevUri = none
  mdDevUri : info.mdDevUri.map cstr = d.mdDevUri.map cstr

/-- the bytes that the data of a message describes: the geometry, and two names with their lengths -/
def describedBytes (b : Bytes) : ℕ :=
  let devUriLen := leNat b sizeofFlaGeo 8
  sizeofFlaGeo + 8 + devUriLen + 8 + leNat b (sizeofFlaGeo + 8 + devUriLen) 8

section RoundTrip

variable {d : Daemon} {b : Bytes}

def initPieces (d : Daemon) : List (ℕ × ℕ × Bytes) :=
  let devLen := d.devUri.length + 1
  let mdLen := (d.mdDevUri.getD []).length
  [(0, sizeofFlaGeo, geoBytes d.fs.geo), (sizeofFlaGeo, 8, record [(8, devLen)]),
    (sizeofFlaGeo + 8, devLen, nameBytes d.devUri), (sizeofFlaGeo + 8 + devLen, 8, record [(8, mdLen)]),
    (sizeofFlaGeo + 8 + devLen + 8, mdLen, nameBytes (d.mdDevUri.getD []))]

theorem initPieces_held (j : ℕ) {start size : ℕ} {c : Bytes} (hj : (initPieces d)[j]? = some (start, size, c))
    (hb : ∀ i < start + size, b i = image (initPieces d) i) : Held b start size c := by
  have hheld : Held (image (initPieces d)) start size c := by
    refine held_image ?_ (List.mem_of_getElem? hj)
    simp [initPieces, List.pairwise_cons]
    omega
  exact hheld.of_eq fun i hi => hb _ (by omega)

theorem initRsp_eq (hsize : sizeofFlaGeo + 8 + (d.devUri.length + 1) + 8 + (d.mdDevUri.getD []).length ≤ flaMsgDataMax) :
    flaDaemonFsInitRsp d = .ok ⟨{ d.send.hdr with
        len := sizeofFlaGeo + 8 + (d.devUri.length + 1) + 8 + (d.mdDevUri.getD []).length },
      copyBytes d.send.data 0 (image (initPieces d)) 0 flaMsgDataMax⟩ := if_neg (not_lt.2 hsize)

/-- **Unpacking.** From data that hold the reply the client gets what the daemon has. -/
theorem initRq_of_bytes (env : Env) (hgeo : d.fs.geo.Sized) (hmd : d.mdDevUri ≠ some [])
    (hsize : sizeofFlaGeo + 8 + (d.devUri.length + 1) + 8 + (d.mdDevUri.getD []).length ≤ flaMsgDataMax)
    (hb : ∀ i < sizeofFlaGeo + 8 + (d.devUri.length + 1) + 8 + (d.mdDevUri.getD []).length, b i = image (initPieces d) i) :
    describedBytes b = sizeofFlaGeo + 8 + (d.devUri.length + 1) + 8 + (d.mdDevUri.getD []).length ∧
      (env.malloc → ∃ info, flaDaemonFsInitRq env b = .ok (0, some info) ∧ SameInfo d info) ∧
      (¬ env.malloc → flaDaemonFsInitRq env b = .ok (-eNOMEM, none)) := by
  set devLen := d.devUri.length + 1 with hdev
  set mdLen := (d.mdDevUri.getD []).length with hmdLen
  have hmdBound : mdLen ≤ flaMsgDataMax := by omega
  have hdevBound : devLen ≤ flaMsgDataMax := by omega
  -- the five pieces
  have hgeoAt : geoAt b 0 = d.fs.geo := geoAt_of_held hgeo (initPieces_held 0 rfl fun i hi => hb i (by omega))
  have hdevAt : leNat b sizeofFlaGeo 8 = devLen :=
    size_of_held hdevBound (initPieces_held 1 rfl fun i hi => hb i (by omega))
  have hdup : flaStrndup b (sizeofFlaGeo + 8) devLen = .ok (d.devUri ++ List.replicate (devLen - d.devUri.length) 0 ++ [0]) :=
    dup_of_held (by omega) (by omega) (initPieces_held 2 rfl fun i hi => hb i (by omega))
  have hmdAt : leNat b (sizeofFlaGeo + 8 + devLen) 8 = mdLen :=
    size_of_held hmdBound (initPieces_held 3 rfl fun i hi => hb i (by omega))
  have hmdDup : flaStrndup b (sizeofFlaGeo + 8 + devLen + 8) mdLen =
      .ok (d.mdDevUri.getD [] ++ List.replicate (mdLen - (d.mdDevUri.getD []).length) 0 ++ [0]) :=
    dup_of_held (by omega) (by omega) (initPieces_held 4 rfl fun i hi => hb i (by omega))
  refine ⟨?_, fun hm => ?_, fun hm => ?_⟩
  · rw [describedBytes, hdevAt, hmdAt]
  · rw [flaDaemonFsInitRq, hgeoAt, hdevAt, if_neg (by simp [hm]), hdup, ok_bind, if_neg (by omega), hmdAt]
    cases hname : d.mdDevUri with
    | none =>
      have hzero : mdLen = 0 := by simp [hmdLen, hname]
      rw [if_pos hzero]
      refine ⟨_, rfl, rfl, cstr_dup _ _, ?_, ?_⟩
      · simp [hname]
      · simp [hname]
    | some name =>
      have hne : mdLen ≠ 0 := fun hzero => by
        simp only [hmdLen, hname, Option.getD_some, List.length_eq_zero_iff] at hzero
        exact hmd (hname.trans (congrArg some hzero))
      rw [if_neg hne, hmdDup, ok_bind]
      refine ⟨_, rfl, rfl, cstr_dup _ _, ?_, ?_⟩
      · simp [hname]
      · simp only [hname, Option.getD_some, Option.map_some]
        exact congrArg some (cstr_dup name _)
  · rw [flaDaemonFsInitRq, if_pos hm]

/-- **INIT_INFO.** A reply that fits a message says how long it is, and the client unpacks from it, whatever the buffers of
the two held before, what the daemon packed; only an allocation that fails makes the client return an error. -/
theorem init_info_round_trip (d : Daemon) (hgeo : d.fs.geo.Sized) (hmd : d.mdDevUri ≠ some [])
    (hsize : sizeofFlaGeo + 2 * 8 + (d.devUri.length + 1) + (d.mdDevUri.getD []).length ≤ flaMsgDataMax) :
    ∃ reply, flaDaemonFsInitRsp d = .ok reply ∧ reply.hdr.len = describedBytes reply.data ∧ ∀ (env : Env) (old : Bytes),
      (env.malloc → ∃ info, flaDaemonFsInitRq env (initReceive old reply) = .ok (0, some info) ∧ SameInfo d info) ∧
      (¬ env.malloc → flaDaemonFsInitRq env (initReceive old reply) = .ok (-eNOMEM, none)) := by
  have hfits : sizeofFlaGeo + 8 + (d.devUri.length + 1) + 8 + (d.mdDevUri.getD []).length ≤ flaMsgDataMax := by omega
  refine ⟨_, initRsp_eq hfits, ?_, fun env old => ?_⟩
  · refine ((initRq_of_bytes .reliable hgeo hmd hfits fun i hi => ?_).1).symm
    dsimp only
    rw [copyBytes_of_mem (Nat.zero_le _) (by omega), Nat.zero_add, Nat.sub_zero]
  · refine (initRq_of_bytes env hgeo hmd hfits fun i hi => ?_).2
    unfold initReceive clientReceive
    dsimp only
    rw [copyBytes_of_mem (Nat.zero_le _) (by omega), copyBytes_of_mem (Nat.zero_le _) (by omega)]
    simp

/-- a daemon on one device, `/dev/a`, with a metadata device `/dev/b` -/
def initDaemon : Daemon where
  fs := flaMkfs smallDev smallGeo 0
  identity := ⟨1000, 1⟩
  devUri := [47, 100, 101, 118, 47, 97]
  mdDevUri := some [47, 100, 101, 118, 47, 98]
  recv := 0
  send := ⟨⟨0, .initInfo, 0⟩, 0⟩

theorem init_info_round_trip_two : ∃ reply, flaDaemonFsInitRsp initDaemon = .ok reply ∧
    reply.hdr.len = describedBytes reply.data ∧ ∀ (env : Env) (old : Bytes),
      (env.malloc → ∃ info, flaDaemonFsInitRq env (initReceive old reply) = .ok (0, some info) ∧
        SameInfo initDaemon info) ∧
      (¬ env.malloc → flaDaemonFsInitRq env (initReceive old reply) = .ok (-eNOMEM, none)) :=
  init_info_round_trip initDaemon (by constructor <;> decide +kernel) (by decide) (by decide)

end RoundTrip

end FlexAlloc
