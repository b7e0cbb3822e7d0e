/-
Reading and writing objects: `fla_object_read` and `fla_object_write` (`flexalloc_mm.c`).

Both compute where the object starts and ends from the pool's entry and dispatch functions, check the request against the
end of the slab and of the object, and choose between a sequential and a striped transfer. `objectXfer` is that common
part; the striped transfer itself (`fla_xne_async_strp_seq_xneio`) is a parameter.

- `objectXfer_seq`: the transfer is sequential, whatever the flags of the pool.
- `object_io`: an aligned write to an object is read back, and changes nothing that an aligned read outside of it, the
  metadata or a slab freelist consists of.
-/
import FlexAlloc.System

namespace FlexAlloc

open FlexAlloc.Core

/-! ## Where an object lies -/

/-- `get_slab_elba_default`, `get_slab_elba_strp` -/
def EntryFnc.getSlabElba : EntryFnc → PoolEntry → ℕ → ℕ
  | .dflt, e, objNdx => getSlabElbaDefault e.objNlb objNdx
  | .strp, e, objNdx => getSlabElbaStrp e.objNlb e.strpNobjs objNdx

/-- `fla_object_slba`, of the pool at `ndx` -/
def Flexalloc.objectSlba (fs : Flexalloc) (ndx : ℕ) (obj : Obj) : Ret ℕ := do
  let e ← fs.entryAt ndx
  .ok (flaObjectSlba fs.vol e.objNlb obj)

/-- `fla_object_elba`, through the dispatch table -/
def Flexalloc.objectElba (fs : Flexalloc) (ndx : ℕ) (obj : Obj) : Ret ℕ := do
  let e ← fs.entryAt ndx
  let fnc ← fs.fncAt ndx
  .ok (flaGeoSlabLbOff fs.vol obj.slabId + fnc.getSlabElba e obj.entryNdx)

/-! ## Transfers -/

/-- `struct fla_strp_params` -/
structure StrpParams where
  strpNobjs : ℕ
  strpChunkNbytes : ℕ
  faobjNlbs : ℕ
  xferSnbytes : ℕ
  xferNbytes : ℕ
  strpObjTnbytes : ℕ
  strpObjStartNbytes : ℕ
  devLbaNbytes : ℕ
  write : Bool
deriving DecidableEq, Repr

/-- the transfer that a read or a write asks of the device layer -/
inductive Xfer where
  | seq (offset nbytes : ℕ)
  | strp (params : StrpParams)
deriving DecidableEq, Repr

/-- the checks of `fla_object_read` and `fla_object_write` and their choice of transfer; `none` when a check fails -/
def objectXfer (fs : Flexalloc) (write : Bool) (ndx : ℕ) (obj : Obj) (offset len : ℕ) : Ret (Option Xfer) := do
  let e ← fs.entryAt ndx
  let elba ← fs.objectElba ndx obj
  let slba ← fs.objectSlba ndx obj
  let objEoffset := u64 (elba * fs.dev.lbNbytes)
  let objSoffset := u64 (slba * fs.dev.lbNbytes)
  let soffset := u64 (objSoffset + offset)
  let eoffset := u64 (soffset + len)
  let slabEoffset := u64 ((flaGeoSlabLbOff fs.vol obj.slabId + fs.geo.slabNlb) * fs.geo.lbNbytes)
  if slabEoffset < objEoffset then .ok none
  else if objEoffset < eoffset then .ok none
  -- the flags and the constant are each tested for zero: `flags && FLA_POOL_ENTRY_STRP`
  else if ¬ (e.flags ≠ 0 ∧ flaPoolEntryStrp ≠ 0) then .ok (some (.seq soffset len))
  else .ok (some (.strp
    { strpNobjs := e.strpNobjs
      strpChunkNbytes := e.strpNbytes
      faobjNlbs := e.objNlb
      xferSnbytes := offset
      xferNbytes := len
      strpObjTnbytes := u64 (e.strpNobjs * e.objNlb * fs.geo.lbNbytes)
      strpObjStartNbytes := objSoffset
      devLbaNbytes := fs.geo.lbNbytes
      write := write }))

/-- `fla_xne_async_strp_seq_xneio`: from the parameters, the device and the buffer, the return value and what was
written to (the buffer of a read, the device of a write) -/
abbrev StrpXfer := StrpParams → Bytes → Bytes → Ret (ℤ × Bytes)

/-- `fla_object_read`: the return value and the buffer -/
def flaObjectRead (env : Env) (async : StrpXfer) (fs : Flexalloc) (ndx : ℕ) (obj : Obj) (buf : Bytes)
    (offset len : ℕ) : Ret (ℤ × Bytes) := do
  match ← objectXfer fs false ndx obj offset len with
  | none => .ok (1, buf)
  | some (.seq soffset n) =>
    let range := env.rangeFromOffsetNbytes fs.dev soffset n
    if ¬ range.isValid then .ok (1, buf) else flaXneSyncSeqRXneio env fs.dev range fs.disk buf
  | some (.strp params) => async params fs.disk buf

/-- `fla_object_write`: the return value and the device -/
def flaObjectWrite (env : Env) (async : StrpXfer) (fs : Flexalloc) (ndx : ℕ) (obj : Obj) (buf : Bytes)
    (offset len : ℕ) : Ret (ℤ × Bytes) := do
  match ← objectXfer fs true ndx obj offset len with
  | none => .ok (1, fs.disk)
  | some (.seq soffset n) =>
    let range := env.rangeFromOffsetNbytes fs.dev soffset n
    if ¬ range.isValid then .ok (1, fs.disk) else flaXneSyncSeqWXneio env fs.dev true range buf fs.disk
  | some (.strp params) => async params fs.disk buf

/-- **The transfer is sequential**, whatever the flags of the pool. -/
theorem objectXfer_seq {fs : Flexalloc} {write : Bool} {ndx : ℕ} {obj : Obj} {offset len : ℕ} {x : Xfer}
    (h : objectXfer fs write ndx obj offset len = .ok (some x)) : ∃ soffset, x = .seq soffset len := by
  obtain ⟨e, -, h⟩ := bind_eq_ok h
  obtain ⟨elba, -, h⟩ := bind_eq_ok h
  obtain ⟨slba, -, h⟩ := bind_eq_ok h
  dsimp only at h
  have hflag : ¬ (e.flags ≠ 0 ∧ flaPoolEntryStrp ≠ 0) := fun hf => hf.2 rfl
  rw [if_pos hflag] at h
  split_ifs at h
  · cases h
  · cases h
  · cases h
    exact ⟨_, rfl⟩

/-! ## Objects on the device -/

/-- a single conventional device whose segments and slabs fit, and for each slab the pool it serves: a pool that is not
striped, with as many objects in a slab as `fla_calc_objs_in_slab` says -/
structure Served (geo : Geo) (fs : Flexalloc) (poolOf : ℕ → ℕ) : Prop where
  vol : fs.vol = .single geo
  lb : fs.dev.lbNbytes = geo.lbNbytes
  lb_pos : 0 < geo.lbNbytes
  lb_lt : geo.lbNbytes < 2 ^ 32
  nlb : geo.nlb = fs.dev.tbytes / geo.lbNbytes
  nlb_lt : geo.nlb < 2 ^ 32
  fits : geo.Fits
  entry : ∀ s < geo.nslabs, poolOf s < fs.npools
  fnc : ∀ s < geo.nslabs, fs.pools.entrieFuncs (poolOf s) = some .dflt
  nobj : ∀ s < geo.nslabs, flaCalcObjsInSlab (.single geo) (fs.pools.entries (poolOf s)).objNlb =
    .ok (fs.pools.entries (poolOf s)).slabNobj ∧ 0 < (fs.pools.entries (poolOf s)).slabNobj

section Served

variable {geo : Geo} {fs : Flexalloc} {poolOf : ℕ → ℕ}

/-- blocks of an object of slab `s` -/
def Flexalloc.objNlbOf (fs : Flexalloc) (poolOf : ℕ → ℕ) (s : ℕ) : ℕ := (fs.pools.entries (poolOf s)).objNlb

/-- a handle of an object that a slab has room for -/
def ValidObj (geo : Geo) (fs : Flexalloc) (poolOf : ℕ → ℕ) (obj : Obj) : Prop :=
  obj.slabId < geo.nslabs ∧ obj.entryNdx < (fs.pools.entries (poolOf obj.slabId)).slabNobj

/-- an aligned part of an object, of at least one block -/
structure Aligned (geo : Geo) (objNlb offset len : ℕ) : Prop where
  offset_dvd : geo.lbNbytes ∣ offset
  len_dvd : geo.lbNbytes ∣ len
  pos : 0 < len
  inside : offset + len ≤ objNlb * geo.lbNbytes

def objStart (geo : Geo) (fs : Flexalloc) (poolOf : ℕ → ℕ) (obj : Obj) : ℕ :=
  flaObjectSlba (.single geo) (fs.objNlbOf poolOf obj.slabId) obj * geo.lbNbytes

theorem Served.bounds (h : Served geo fs poolOf) {obj : Obj} (hv : ValidObj geo fs poolOf obj) :
    flaObjectElba (.single geo) (fs.objNlbOf poolOf obj.slabId) obj =
        flaObjectSlba (.single geo) (fs.objNlbOf poolOf obj.slabId) obj + fs.objNlbOf poolOf obj.slabId ∧
      flaObjectElba (.single geo) (fs.objNlbOf poolOf obj.slabId) obj ≤
        flaGeoSlabLbOff (.single geo) obj.slabId + geo.slabNlb ∧
      flaGeoSlabLbOff (.single geo) obj.slabId + geo.slabNlb ≤ geo.nlb := by
  obtain ⟨hslba, helba, hroom⟩ := obj_place h.fits h.nlb_lt (h.nobj _ hv.1).1 hv.1 hv.2
  obtain ⟨hoff, hend⟩ := slab_fits h.fits h.nlb_lt hv.1
  unfold Flexalloc.objNlbOf
  rw [hoff]
  exact ⟨by rw [hslba, helba], by rw [helba]; omega, hend⟩

theorem Served.addresses (h : Served geo fs poolOf) {obj : Obj} (hv : ValidObj geo fs poolOf obj) :
    fs.objectSlba (poolOf obj.slabId) obj = .ok (flaObjectSlba (.single geo) (fs.objNlbOf poolOf obj.slabId) obj) ∧
      fs.objectElba (poolOf obj.slabId) obj =
        .ok (flaObjectElba (.single geo) (fs.objNlbOf poolOf obj.slabId) obj) := by
  have hentry : fs.entryAt (poolOf obj.slabId) = .ok (fs.pools.entries (poolOf obj.slabId)) := if_pos (h.entry _ hv.1)
  have hfnc : fs.fncAt (poolOf obj.slabId) = .ok .dflt := by
    rw [Flexalloc.fncAt, if_pos (h.entry _ hv.1), h.fnc _ hv.1]
  constructor
  · rw [Flexalloc.objectSlba, hentry, ok_bind, h.vol]
    rfl
  · rw [Flexalloc.objectElba, hentry, ok_bind, hfnc, ok_bind, h.vol]
    rfl

theorem Served.objNlb_pos (h : Served geo fs poolOf) {obj : Obj} (hv : ValidObj geo fs poolOf obj) :
    0 < fs.objNlbOf poolOf obj.slabId := by
  refine Nat.pos_of_ne_zero fun h0 => ?_
  have hcalc := (h.nobj _ hv.1).1
  rw [Flexalloc.objNlbOf] at h0
  rw [flaCalcObjsInSlab, if_pos h0] at hcalc
  cases hcalc

/-- **The transfer of an aligned request**: the bytes asked for, at their place. -/
theorem Served.xfer (h : Served geo fs poolOf) {obj : Obj} (hv : ValidObj geo fs poolOf obj) {offset len : ℕ}
    (ha : Aligned geo (fs.objNlbOf poolOf obj.slabId) offset len) (write : Bool) :
    objectXfer fs write (poolOf obj.slabId) obj offset len = .ok (some (.seq (objStart geo fs poolOf obj + offset) len)) ∧
      objStart geo fs poolOf obj + offset + len ≤ geo.nlb * geo.lbNbytes := by
  obtain ⟨hsize, hslab, hdev⟩ := h.bounds hv
  have hin := ha.inside
  have hentry : fs.entryAt (poolOf obj.slabId) = .ok (fs.pools.entries (poolOf obj.slabId)) := if_pos (h.entry _ hv.1)
  obtain ⟨hslba, helba⟩ := h.addresses hv
  -- every offset is below the size of the device, so nothing wraps
  have hbytes : ∀ b, b ≤ geo.nlb → b * geo.lbNbytes ≤ geo.nlb * geo.lbNbytes := fun b hb => Nat.mul_le_mul_right _ hb
  have htotal : geo.nlb * geo.lbNbytes < 2 ^ 64 := by
    calc geo.nlb * geo.lbNbytes < 2 ^ 32 * 2 ^ 32 := Nat.mul_lt_mul'' h.nlb_lt h.lb_lt
      _ = 2 ^ 64 := by norm_num
  have hend : flaObjectElba (.single geo) (fs.objNlbOf poolOf obj.slabId) obj * geo.lbNbytes =
      objStart geo fs poolOf obj + fs.objNlbOf poolOf obj.slabId * geo.lbNbytes := by
    rw [hsize, Nat.add_mul, objStart]
  have h1 := hbytes _ (hslab.trans hdev)
  have h2 := hbytes _ hdev
  have h3 : flaObjectElba (.single geo) (fs.objNlbOf poolOf obj.slabId) obj * geo.lbNbytes ≤
      (flaGeoSlabLbOff (.single geo) obj.slabId + geo.slabNlb) * geo.lbNbytes := Nat.mul_le_mul_right _ hslab
  rw [hend] at h1 h3
  have hgeo : fs.geo = geo := by rw [Flexalloc.geo, h.vol]; rfl
  refine ⟨?_, by omega⟩
  rw [objectXfer, hentry, ok_bind, helba, ok_bind, hslba, ok_bind]
  dsimp only
  rw [h.lb, hgeo, h.vol, hend, ← objStart, u64_of_lt (n := objStart geo fs poolOf obj) (by omega),
    u64_of_lt (n := objStart geo fs poolOf obj + offset) (by omega), u64_of_lt (n := _ + offset + len) (by omega),
    u64_of_lt (n := _ + fs.objNlbOf poolOf obj.slabId * geo.lbNbytes) (by omega), u64_of_lt (by omega),
    if_neg (by omega), if_neg (by omega), if_pos fun hf => hf.2 rfl]

theorem Served.range (h : Served geo fs poolOf) {env : Env} (hr : env.RangesOk fs.dev) {start len : ℕ}
    (hs : geo.lbNbytes ∣ start) (hl : geo.lbNbytes ∣ len) (hpos : 0 < len) (hend : start + len ≤ geo.nlb * geo.lbNbytes) :
    ∃ range, env.rangeFromOffsetNbytes fs.dev start len = range ∧ range.isValid = true ∧ range.slba ≤ range.elba ∧
      range.elba < 2 ^ 63 ∧ range.slba * fs.dev.lbNbytes = start ∧ (range.elba + 1) * fs.dev.lbNbytes = start + len ∧
      (range.elba + 1 - range.slba) * fs.dev.lbNbytes = len := by
  obtain ⟨a, rfl⟩ := hs
  obtain ⟨b, rfl⟩ := hl
  have hlb := h.lb_pos
  have hb : 0 < b := Nat.pos_of_mul_pos_left hpos
  have htotal : geo.nlb * geo.lbNbytes ≤ fs.dev.tbytes := by
    rw [h.nlb]
    exact Nat.div_mul_le_self _ _
  have hsum : geo.lbNbytes * a + geo.lbNbytes * b = geo.lbNbytes * (a + b) := by ring
  have hab : a + b ≤ geo.nlb := by
    rw [hsum, Nat.mul_comm geo.nlb] at hend
    exact Nat.le_of_mul_le_mul_left hend hlb
  have hnlb := h.nlb_lt
  refine ⟨_, hr.offset _ _ (h.lb ▸ Dvd.intro _ rfl) (h.lb ▸ Dvd.intro _ rfl) hpos (hend.trans htotal), rfl, ?_⟩
  simp only [h.lb, hsum, Nat.mul_div_cancel_left _ hlb]
  rw [show a + b - 1 + 1 = a + b by omega, show a + b - a = b by omega]
  exact ⟨by omega, by omega, Nat.mul_comm _ _, Nat.mul_comm _ _, Nat.mul_comm _ _⟩

variable {env : Env} {async : StrpXfer} {obj : Obj} {offset len : ℕ}

theorem Served.start_dvd (_ : Served geo fs poolOf) (ha : Aligned geo (fs.objNlbOf poolOf obj.slabId) offset len) :
    geo.lbNbytes ∣ objStart geo fs poolOf obj + offset := dvd_add (Dvd.intro_left _ rfl) ha.offset_dvd

/-- **An aligned write** that returns 0 has copied the buffer to its place in the object. -/
theorem Served.write (h : Served geo fs poolOf) (hr : env.RangesOk fs.dev) (hv : ValidObj geo fs poolOf obj)
    (ha : Aligned geo (fs.objNlbOf poolOf obj.slabId) offset len) {buf disk' : Bytes}
    (hw : flaObjectWrite env async fs (poolOf obj.slabId) obj buf offset len = .ok (0, disk')) :
    disk' = copyBytes fs.disk (objStart geo fs poolOf obj + offset) buf 0 len ∧ 0 < flaXneCalcMdtsNaddrs fs.dev := by
  obtain ⟨hx, hend⟩ := h.xfer hv ha true
  obtain ⟨range, hrange, hvalid, hle, h63, hstart, -, hlen⟩ := h.range hr (h.start_dvd ha) ha.len_dvd ha.pos hend
  rw [flaObjectWrite, hx, ok_bind] at hw
  dsimp only at hw
  rw [hrange, if_neg (by simp [hvalid])] at hw
  have hmdts := seqW_mdts hle h63 hw
  have hcopy := seqW_spec hmdts h63 hw
  rw [hstart, hlen] at hcopy
  exact ⟨hcopy, hmdts⟩

/-- **An aligned read** is a read of the blocks of its place in the object, whatever the device holds. -/
theorem Served.read (h : Served geo fs poolOf) (hr : env.RangesOk fs.dev) (hv : ValidObj geo fs poolOf obj)
    (ha : Aligned geo (fs.objNlbOf poolOf obj.slabId) offset len) (async : StrpXfer) :
    ∃ range, range.slba ≤ range.elba ∧ range.elba < 2 ^ 63 ∧
      range.slba * fs.dev.lbNbytes = objStart geo fs poolOf obj + offset ∧
      (range.elba + 1) * fs.dev.lbNbytes = objStart geo fs poolOf obj + offset + len ∧
      (range.elba + 1 - range.slba) * fs.dev.lbNbytes = len ∧
      ∀ disk buf, flaObjectRead env async { fs with disk := disk } (poolOf obj.slabId) obj buf offset len =
        flaXneSyncSeqRXneio env fs.dev range disk buf := by
  obtain ⟨hx, hend⟩ := h.xfer hv ha false
  obtain ⟨range, hrange, hvalid, hle, h63, hstart, hstop, hlen⟩ := h.range hr (h.start_dvd ha) ha.len_dvd ha.pos hend
  refine ⟨range, hle, h63, hstart, hstop, hlen, fun disk buf => ?_⟩
  -- the checks do not look at the device
  have hx' : objectXfer { fs with disk := disk } false (poolOf obj.slabId) obj offset len = _ := hx
  rw [flaObjectRead, hx', ok_bind]
  dsimp only
  rw [hrange, if_neg (by simp [hvalid])]

theorem Served.read_congr (h : Served geo fs poolOf) (hr : env.RangesOk fs.dev) (hv : ValidObj geo fs poolOf obj)
    (ha : Aligned geo (fs.objNlbOf poolOf obj.slabId) offset len) (async : StrpXfer) {disk : Bytes}
    (hsame : ∀ i, objStart geo fs poolOf obj + offset ≤ i → i < objStart geo fs poolOf obj + offset + len →
      disk i = fs.disk i) (buf : Bytes) :
    flaObjectRead env async { fs with disk := disk } (poolOf obj.slabId) obj buf offset len =
      flaObjectRead env async fs (poolOf obj.slabId) obj buf offset len := by
  obtain ⟨range, -, h63, hstart, hstop, -, hread⟩ := h.read hr hv ha async
  have hold : flaObjectRead env async fs (poolOf obj.slabId) obj buf offset len = _ := hread fs.disk buf
  rw [hread disk buf, hold]
  refine seqR_congr h63 (fun i h1 h2 => ?_) buf
  rw [hstart] at h1
  rw [hstop] at h2
  exact hsame i h1 h2

theorem Served.mem_objRange (h : Served geo fs poolOf) (hv : ValidObj geo fs poolOf obj)
    (ha : Aligned geo (fs.objNlbOf poolOf obj.slabId) offset len) {i : ℕ}
    (h1 : objStart geo fs poolOf obj + offset ≤ i) (h2 : i < objStart geo fs poolOf obj + offset + len) :
    i / geo.lbNbytes ∈ objRange (.single geo) (fs.objNlbOf poolOf obj.slabId) obj := by
  obtain ⟨hsize, -, -⟩ := h.bounds hv
  have hin := ha.inside
  unfold objStart at h1 h2
  constructor
  · rw [Nat.le_div_iff_mul_le h.lb_pos]
    omega
  · rw [Nat.div_lt_iff_lt_mul h.lb_pos, hsize, Nat.add_mul]
    omega

/-! ## Reading back and not leaking -/

/-- what an aligned write of `len` bytes of `buf` at `offset` of object `a` leaves on the device -/
structure WriteExact (geo : Geo) (fs : Flexalloc) (poolOf : ℕ → ℕ) (async : StrpXfer) (a : Obj) (buf : Bytes)
    (offset len : ℕ) (disk : Bytes) : Prop where
  /-- the part written is read back, and the read succeeds when its commands do -/
  back : ∀ env : Env, env.RangesOk fs.dev → ∀ out,
    (∀ out', flaObjectRead env async { fs with disk := disk } (poolOf a.slabId) a out offset len = .ok (0, out') →
      ∀ i < len, out' i = buf i) ∧
    ((∀ b, env.nvmRead b = 0) →
      ∃ out', flaObjectRead env async { fs with disk := disk } (poolOf a.slabId) a out offset len = .ok (0, out'))
  /-- a read of the rest of the object is as before -/
  rest : ∀ env : Env, env.RangesOk fs.dev → ∀ out o l, Aligned geo (fs.objNlbOf poolOf a.slabId) o l →
    o + l ≤ offset ∨ offset + len ≤ o → flaObjectRead env async { fs with disk := disk } (poolOf a.slabId) a out o l =
      flaObjectRead env async fs (poolOf a.slabId) a out o l
  /-- a read of another object is as before -/
  other : ∀ b, ValidObj geo fs poolOf b → b ≠ a → ∀ env : Env, env.RangesOk fs.dev → ∀ out o l,
    Aligned geo (fs.objNlbOf poolOf b.slabId) o l →
      flaObjectRead env async { fs with disk := disk } (poolOf b.slabId) b out o l =
        flaObjectRead env async fs (poolOf b.slabId) b out o l
  metadata : ∀ i, i / geo.lbNbytes < flaGeoNblocks geo → disk i = fs.disk i
  flists : ∀ s < geo.nslabs, ∀ i, i / geo.lbNbytes ∈ flistRange (.single geo) s (fs.pools.entries (poolOf s)).slabNobj →
    disk i = fs.disk i

/-- **Object I/O.** An aligned write that returns 0 is read back; reads of the rest of the object and of other objects,
the metadata and the freelists of the slabs are as before. -/
theorem object_io (h : Served geo fs poolOf) (hr : env.RangesOk fs.dev) (hv : ValidObj geo fs poolOf obj)
    (ha : Aligned geo (fs.objNlbOf poolOf obj.slabId) offset len) {buf disk : Bytes}
    (hw : flaObjectWrite env async fs (poolOf obj.slabId) obj buf offset len = .ok (0, disk)) :
    WriteExact geo fs poolOf async obj buf offset len disk := by
  obtain ⟨hdisk, hmdts⟩ := h.write hr hv ha hw
  -- a byte outside the blocks of the object is not written
  have hframe : ∀ i, i / geo.lbNbytes ∉ objRange (.single geo) (fs.objNlbOf poolOf obj.slabId) obj → disk i = fs.disk i :=
    fun i hi => by
      rw [hdisk]
      refine copyBytes_of_not_mem ?_
      by_contra hcon
      push Not at hcon
      exact hi (h.mem_objRange hv ha hcon.1 hcon.2)
  refine ⟨fun env' hr' out => ?_, fun env' hr' out o l hol hapart => ?_, fun b hb hne env' hr' out o l hol => ?_,
    fun i hi => hframe i fun hmem => ?_, fun s hs i hi => hframe i fun hmem => ?_⟩
  · obtain ⟨range, hle, h63, hstart, -, hlen, hread⟩ := h.read hr' hv ha async
    refine ⟨fun out' hout i hi => ?_, fun hok => ?_⟩
    · rw [hread] at hout
      rw [seqR_spec hmdts h63 hout, hstart, hlen, copyBytes_of_mem (Nat.zero_le _) (by omega), hdisk,
        copyBytes_of_mem (by omega) (by omega)]
      congr 1
      omega
    · obtain ⟨out', hout⟩ := seqR_ok hmdts h63 hle hok disk out
      exact ⟨out', (hread disk out).trans hout⟩
  · refine h.read_congr hr' hv hol async (fun i h1 h2 => ?_) out
    rw [hdisk]
    exact copyBytes_of_not_mem (by omega)
  · refine h.read_congr hr' hb hol async (fun i h1 h2 => hframe i fun hmem => ?_) out
    have hpair : (obj.slabId, obj.entryNdx) ≠ (b.slabId, b.entryNdx) := fun heq => hne (by
      cases b
      cases obj
      simp_all)
    exact Set.disjoint_left.1 (obj_obj_disjoint h.nobj h.fits h.nlb_lt hv.1 hv.2 hb.1 hb.2 hpair) hmem
      (h.mem_objRange hb hol h1 h2)
  · exact Set.disjoint_left.1 (obj_metadata_disjoint h.nobj h.fits h.nlb_lt hv.1 hv.2) hmem ⟨Nat.zero_le _, hi⟩
  · exact Set.disjoint_left.1 (obj_flist_disjoint h.nobj h.fits h.nlb_lt hv.1 hv.2 hs) hmem hi

end Served

theorem small_served : ∃ h fs, flaBasePoolCreate .reliable (flaMkfs smallDev smallGeo 0) (smallArg 97 1) =
      .ok (0, h, fs) ∧ Served smallGeo fs (fun _ => 0) ∧ fs.dev = smallDev ∧ fs.npools = 2 ∧
      (fs.pools.entries 0).objNlb = 1 ∧ (fs.pools.entries 0).slabNobj = 7 := by
  obtain ⟨⟨err, h, fs⟩, hrun, hval⟩ := Option.map_eq_some_iff.1 (show (flaBasePoolCreate .reliable
    (flaMkfs smallDev smallGeo 0) (smallArg 97 1)).toOption.map (fun r => decide (r.1 = 0 ∧
      r.2.2.vol = .single smallGeo ∧ r.2.2.dev = smallDev ∧ (r.2.2.pools.entries 0).objNlb = 1 ∧
      (r.2.2.pools.entries 0).slabNobj = 7 ∧ r.2.2.pools.entrieFuncs 0 = some .dflt)) = some true by decide +kernel)
  rw [decide_eq_true_eq] at hval
  obtain ⟨rfl, hvol, hdev, hobj, hnobj, hfnc⟩ := hval
  have hnp : fs.npools = 2 := by rw [Flexalloc.npools, hvol]; rfl
  refine ⟨h, fs, toOption_eq_some hrun, ⟨hvol, by rw [hdev]; rfl, by decide +kernel, by decide +kernel, by rw [hdev]; rfl,
    by decide +kernel, by decide +kernel, fun _ _ => by omega, fun _ _ => hfnc, fun _ _ => ?_⟩, hdev, hnp, hobj, hnobj⟩
  rw [hobj, hnobj]
  exact ⟨by decide +kernel, by decide⟩

/-- one block written to the first object of the first slab -/
theorem object_io_small : ∃ h fs disk, flaBasePoolCreate .reliable (flaMkfs smallDev smallGeo 0) (smallArg 97 1) =
      .ok (0, h, fs) ∧ flaObjectWrite .reliable (fun _ _ b => .ok (0, b)) fs 0 ⟨0, 0⟩ (fun _ => 1) 0 512 = .ok (0, disk) ∧
    WriteExact smallGeo fs (fun _ => 0) (fun _ _ b => .ok (0, b)) ⟨0, 0⟩ (fun _ => 1) 0 512 disk := by
  obtain ⟨h, fs, hrun, hserved, hdev, hnp, hobj, hnobj⟩ := small_served
  have hr : Env.reliable.RangesOk fs.dev := reliable_rangesOk _
  have hv : ValidObj smallGeo fs (fun _ => 0) ⟨0, 0⟩ := ⟨by decide +kernel, by rw [hnobj]; decide⟩
  have ha : Aligned smallGeo (fs.objNlbOf (fun _ => 0) 0) 0 512 := by
    rw [Flexalloc.objNlbOf, hobj]
    exact ⟨dvd_zero _, by decide +kernel, by decide, by decide +kernel⟩
  obtain ⟨hx, hend⟩ := hserved.xfer hv ha true
  obtain ⟨range, hrange, hvalid, hle, h63, -⟩ := hserved.range hr (hserved.start_dvd ha) ha.len_dvd ha.pos hend
  have hmdts : 0 < flaXneCalcMdtsNaddrs fs.dev := by rw [hdev]; decide
  obtain ⟨disk, hdisk⟩ : ∃ disk, flaXneSyncSeqWXneio .reliable fs.dev true range (fun _ => 1) fs.disk = .ok (0, disk) :=
    seqW_ok hmdts h63 hle rfl (fun _ => rfl) _ _
  have hw : flaObjectWrite .reliable (fun _ _ b => .ok (0, b)) fs 0 ⟨0, 0⟩ (fun _ => 1) 0 512 = .ok (0, disk) := by
    rw [flaObjectWrite, hx, ok_bind]
    dsimp only
    rw [hrange, if_neg (by simp [hvalid]), hdisk]
  exact ⟨h, fs, disk, hrun, hw, object_io hserved hr hv ha hw⟩

end FlexAlloc
