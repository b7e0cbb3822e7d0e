/-
Formatting: `fla_mkfs` (`flexalloc_mm.c`) with `fla_xne_dev_mkfs_prepare` (`flexalloc_xnvme_env.c`).

A format lays out an empty system in a buffer of zeros and writes it from the first block of the metadata device, or of
the device itself when there is none. With a metadata device a zoned data device is reset first.

- `mkfs_inv`: all that a format that returns 0 can have done.
- `Reopened.fresh`: what is read back of an empty system is an empty system.
- `mkfs_round_trip`: every open after a format that returned 0 finds the volume just formatted, and on working devices it
  does open; the rest of the devices is as it was.
-/
import FlexAlloc.Reopen

namespace FlexAlloc

open FlexAlloc.Core Function

/-! ## The call -/

/-- `fla_xne_dev_mkfs_prepare`, with what it does to the data device; `wiped` is what that reads as after a reset -/
def flaXneDevMkfsPrepare (env : Env) (wiped : Bytes) (dev : Dev) (hasMd : Bool) (disk : Bytes) : ℤ × Bytes :=
  match hasMd, dev.cs with
  | true, .zns _ => if env.zndMgmtSend 0 ≠ 0 then (env.zndMgmtSend 0, disk) else (0, wiped)
  | _, _ => (0, disk)

/-- the system that `fla_mkfs` has laid out when it writes its buffer -/
def mkfsSystem (dev mdDev : Dev) (hasMd : Bool) (geo : Geo) (disk mdDisk : Bytes) : Flexalloc where
  vol := .formatted dev hasMd geo
  dev := dev
  mdDev := mdDev
  pools := flaMkfsPoolSgmtInit geo
  slabs := flaMkfsSlabSgmtInit geo
  cache := fun _ => ⟨.stale, none⟩
  disk := disk
  mdDisk := mdDisk

/-- the end of `fla_mkfs`, once the geometry is known; `initErr` is what `fla_init_dp` and `fla_init_cs` return -/
def mkfsWrite (env : Env) (initErr : ℤ) (dev mdDev : Dev) (hasMd : Bool) (geo : Geo) (disk mdDisk : Bytes) :
    Ret (ℤ × Bytes × Bytes) :=
  if ¬ env.malloc ∨ ¬ env.bufAlloc then .ok (-eNOMEM, disk, mdDisk)
  -- `fla_init`, on a buffer of zeros
  else if (flaPoolInit env geo 0).1 ≠ 0 then .ok ((flaPoolInit env geo 0).1, disk, mdDisk)
  else if initErr ≠ 0 then .ok (initErr, disk, mdDisk)
  else
    let fs := mkfsSystem dev mdDev hasMd geo disk mdDisk
    let range := env.rangeFromOffsetNbytes fs.mdHome 0 (flaGeoNbytes geo)
    if ¬ range.isValid then .ok (1, disk, mdDisk)
    else do
      let (err, bytes) ← flaXneSyncSeqWXneio env fs.mdHome true range (mdBuffer fs) fs.mdBytes
      .ok (err, (fs.setMdBytes bytes).disk, (fs.setMdBytes bytes).mdDisk)

/-- `fla_mkfs`, of devices that xNVMe opens: the return value and the two devices -/
def flaMkfsDevs (env : Env) (initErr : ℤ) (wiped : Bytes) (dev mdDev : Dev) (hasMd : Bool) (npools slabNlb : ℕ)
    (disk mdDisk : Bytes) : Ret (ℤ × Bytes × Bytes) :=
  let home := if hasMd then mdDev else dev
  let (err, disk) := flaXneDevMkfsPrepare env wiped dev hasMd disk
  if err ≠ 0 then .ok (err, disk, mdDisk)
  else if flaDevSanityCheck dev home ≠ 0 then .ok (flaDevSanityCheck dev home, disk, mdDisk)
  else if home.lbNbytes ≠ dev.lbNbytes then .ok (1, disk, mdDisk)
  else do
    let (err, geo) ← flaMkfsGeoCalc dev hasMd npools slabNlb
    if err ≠ 0 then .ok (err, disk, mdDisk) else mkfsWrite env initErr dev mdDev hasMd geo disk mdDisk

section Mkfs

variable {env : Env} {initErr : ℤ} {wiped disk mdDisk disk' mdDisk' : Bytes} {dev mdDev : Dev} {hasMd : Bool}
  {npools slabNlb : ℕ} {geo : Geo}

theorem mkfsWrite_inv (h : mkfsWrite env initErr dev mdDev hasMd geo disk mdDisk = .ok (0, disk', mdDisk')) :
    ∃ bytes, (env.rangeFromOffsetNbytes (if hasMd then mdDev else dev) 0 (flaGeoNbytes geo)).isValid ∧
      flaXneSyncSeqWXneio env (if hasMd then mdDev else dev) true
        (env.rangeFromOffsetNbytes (if hasMd then mdDev else dev) 0 (flaGeoNbytes geo))
        (mdBuffer (mkfsSystem dev mdDev hasMd geo disk mdDisk)) (if hasMd then mdDisk else disk) = .ok (0, bytes) ∧
      disk' = (if hasMd then disk else bytes) ∧ mdDisk' = if hasMd then bytes else mdDisk := by
  unfold mkfsWrite at h
  dsimp only at h
  split_ifs at h with halloc hpools hinit hvalid
  · cases h
  · exact absurd (Prod.mk.inj (Except.ok.inj h)).1 hpools
  · exact absurd (Prod.mk.inj (Except.ok.inj h)).1 hinit
  · obtain ⟨⟨err, bytes⟩, hwrite, h⟩ := bind_eq_ok h
    obtain ⟨rfl, hdisks⟩ := Prod.mk.inj (Except.ok.inj h)
    obtain ⟨rfl, rfl⟩ := Prod.mk.inj hdisks
    refine ⟨bytes, hvalid, hwrite, ?_, ?_⟩
    · cases hasMd <;> rfl
    · cases hasMd <;> rfl
  · cases h

/-- **A format** that returns 0: the geometry was accepted, the devices passed the checks, and the buffer was written. -/
theorem mkfs_inv
    (h : flaMkfsDevs env initErr wiped dev mdDev hasMd npools slabNlb disk mdDisk = .ok (0, disk', mdDisk')) :
    ∃ disk₁ geo, flaXneDevMkfsPrepare env wiped dev hasMd disk = (0, disk₁) ∧
      flaDevSanityCheck dev (if hasMd then mdDev else dev) = 0 ∧
      (if hasMd then mdDev else dev).lbNbytes = dev.lbNbytes ∧
      flaMkfsGeoCalc dev hasMd npools slabNlb = .ok (0, geo) ∧
      mkfsWrite env initErr dev mdDev hasMd geo disk₁ mdDisk = .ok (0, disk', mdDisk') := by
  unfold flaMkfsDevs at h
  generalize flaXneDevMkfsPrepare env wiped dev hasMd disk = r at h ⊢
  obtain ⟨err, disk₁⟩ := r
  dsimp only at h
  by_cases hprep : err ≠ 0
  · rw [if_pos hprep] at h
    exact absurd (Prod.mk.inj (Except.ok.inj h)).1 hprep
  rw [if_neg hprep] at h
  by_cases hsane : flaDevSanityCheck dev (if hasMd then mdDev else dev) ≠ 0
  · rw [if_pos hsane] at h
    exact absurd (Prod.mk.inj (Except.ok.inj h)).1 hsane
  rw [if_neg hsane] at h
  by_cases hlb : (if hasMd then mdDev else dev).lbNbytes ≠ dev.lbNbytes
  · rw [if_pos hlb] at h
    cases h
  rw [if_neg hlb] at h
  obtain ⟨⟨err₁, geo⟩, hgeo, h⟩ := bind_eq_ok h
  dsimp only at h
  by_cases herr : err₁ ≠ 0
  · rw [if_pos herr] at h
    exact absurd (Prod.mk.inj (Except.ok.inj h)).1 herr
  rw [if_neg herr] at h
  rw [not_not.1 herr] at hgeo
  exact ⟨disk₁, geo, by rw [not_not.1 hprep], not_not.1 hsane, not_not.1 hlb, hgeo, h⟩

/-- a zoned data device is reset when its metadata is elsewhere -/
theorem mkfsPrepare_inv {disk₁ : Bytes} (h : flaXneDevMkfsPrepare env wiped dev hasMd disk = (0, disk₁)) :
    (hasMd = false → disk₁ = disk) ∧ (hasMd = true → disk₁ = match dev.cs with
      | .cns => disk
      | .zns _ => wiped) := by
  unfold flaXneDevMkfsPrepare at h
  cases hasMd with
  | false => exact ⟨fun _ => (Prod.mk.inj h).2.symm, fun hmd => absurd hmd (by decide)⟩
  | true =>
    refine ⟨fun hmd => absurd hmd (by decide), fun _ => ?_⟩
    cases hcs : dev.cs with
    | cns =>
      rw [hcs] at h
      exact (Prod.mk.inj h).2.symm
    | zns nzsect =>
      rw [hcs] at h
      dsimp only at h
      by_cases hreset : env.zndMgmtSend 0 ≠ 0
      · rw [if_pos hreset] at h
        exact absurd (Prod.mk.inj h).1 hreset
      · rw [if_neg hreset] at h
        exact (Prod.mk.inj h).2.symm

end Mkfs

/-! ## What is read back -/

theorem open_table {env : Env} {dev mdDev : Dev} {hasMd : Bool} {disk mdDisk : Bytes} {err : ℤ} {fs : Flexalloc}
    (h : flaOpen env dev mdDev hasMd disk mdDisk = .ok (err, some fs)) :
    fs.pools.hdrLen = fs.pools.htbl.len ∧
      ∀ i, fs.pools.htbl.tblSize ≤ i → fs.pools.htbl.tbl i = ⟨flaHtblEntryUnset, 0, 0⟩ := by
  obtain ⟨super, b, -, -, hinit⟩ := open_inv h
  rw [poolInit_eq (init_inv hinit).2.1]
  exact ⟨rfl, fun i hi => if_neg (Nat.not_lt.2 hi)⟩

theorem init_visited (n : ℕ) : (flaFlistInit n).visited = [] := by
  have hres : (flaFlistInit n).reserved = [] := by
    refine List.filter_eq_nil_iff.2 fun i hi => ?_
    have hlt : i < n := List.mem_range.1 hi
    rw [init_isFree, decide_eq_true hlt]
    simp
  rw [Freelist.visited, hres, List.filter_nil]

theorem mkfsHeaders_stored {n : ℕ} (hn : n < 2 ^ 32) {s : ℕ} (hs : s < n) :
    (mkfsHeaders n s).stored = mkfsHeaders n s := by
  have hlast : sub32 n 1 < 2 ^ 32 := u32_lt _
  have hprev : sub32 (sub32 n 1) 1 < 2 ^ 32 := u32_lt _
  unfold mkfsHeaders SlabHeader.stored
  split_ifs with hmid
  · rw [Nat.mod_eq_of_lt (a := s - 1) (by omega), Nat.mod_eq_of_lt (a := s + 1) (by omega)]
    rfl
  · rw [Nat.mod_eq_of_lt hprev]
    rfl
  · rfl
  · rfl

theorem mkfsHeaders_past {n s : ℕ} (hpos : 0 < n) (hn : n < 2 ^ 32) (hs : n ≤ s) : mkfsHeaders n s = ⟨0, 0, 0, 0⟩ := by
  have hlast : sub32 n 1 = n - 1 := sub32_of_le hpos hn
  unfold mkfsHeaders
  rw [hlast, if_neg (by omega), if_neg (by omega), if_neg (by omega)]

section Fresh

variable {dev mdDev : Dev} {hasMd : Bool} {npools slabNlb : ℕ} {geo : Geo} {fs fs' : Flexalloc} {disk mdDisk : Bytes}

theorem mkfsSystem_onVol : OnVol dev mdDev hasMd geo (mkfsSystem dev mdDev hasMd geo disk mdDisk) :=
  ⟨rfl, ⟨rfl, rfl⟩, rfl, rfl, rfl⟩

/-- **An empty system** is read back as an empty system. -/
theorem Reopened.fresh (hl : Laid dev mdDev hasMd npools slabNlb geo)
    (hr : Reopened (mkfsSystem dev mdDev hasMd geo disk mdDisk) fs') (hcount : fs'.pools.hdrLen = fs'.pools.htbl.len)
    (hpast : ∀ i, fs'.pools.htbl.tblSize ≤ i → fs'.pools.htbl.tbl i = ⟨flaHtblEntryUnset, 0, 0⟩) :
    Fresh (.formatted dev hasMd geo) fs' := by
  obtain ⟨-, h32, -⟩ := hl.bounds
  have hpos : 0 < geo.nslabs := (accepted_bounds hl.accepted).1.trans_le (accepted_bounds hl.accepted).2.1
  have hflist : fs'.pools.freelist = flaFlistInit geo.npools := hr.flist
  have hsize : fs'.pools.htbl.tblSize = geo.poolSgmt.htblTblSize := hr.tblSize
  have hlen : fs'.pools.htbl.len = 0 := hr.len
  have htbl : fs'.pools.htbl.tbl = flaHtblEntriesInit := by
    funext i
    by_cases hi : i < geo.poolSgmt.htblTblSize
    · exact hr.slot i hi
    · exact hpast i (hsize ▸ Nat.not_lt.1 hi)
  have hentries : fs'.pools.entries = fun _ => .zero := by
    have hzero : PoolEntry.zero.stored = .zero := by decide
    funext i
    by_cases hi : i < geo.npools
    · exact (hr.entry i hi).trans hzero
    · exact hr.entry_past i (Nat.not_lt.1 hi)
  have hfuncs : fs'.pools.entrieFuncs = fun _ => none := by
    funext i
    rw [hr.funcs i]
    show (if i ∈ (flaFlistInit geo.npools).visited then some EntryFnc.dflt else none) = none
    rw [init_visited]
    exact if_neg List.not_mem_nil
  have hheaders : fs'.slabs.headers = mkfsHeaders geo.nslabs := by
    funext s
    by_cases hs : s < geo.nslabs
    · exact (hr.header s hs).trans (mkfsHeaders_stored h32 hs)
    · exact (hr.header_past s (Nat.not_lt.1 hs)).trans (mkfsHeaders_past hpos h32 (Nat.not_lt.1 hs)).symm
  have hhdr : fs'.pools.hdrSize = geo.poolSgmt.htblTblSize := hr.hdr
  have hhead : fs'.slabs.fslabHead = 0 := hr.head
  have hnum : fs'.slabs.fslabNum = geo.nslabs := hr.num.trans (Nat.mod_eq_of_lt h32)
  have htail : fs'.slabs.fslabTail = sub32 geo.nslabs 1 := hr.tail.trans (Nat.mod_eq_of_lt (u32_lt _))
  refine ⟨hr.vol, ?_, ?_, hr.cache⟩
  · calc fs'.pools = ⟨fs'.pools.freelist, ⟨fs'.pools.htbl.tbl, fs'.pools.htbl.tblSize, fs'.pools.htbl.len⟩,
          fs'.pools.hdrSize, fs'.pools.hdrLen, fs'.pools.entries, fs'.pools.entrieFuncs⟩ := rfl
      _ = flaMkfsPoolSgmtInit geo := by
          rw [hflist, htbl, hsize, hhdr, hcount, hlen, hentries, hfuncs]
          rfl
  · calc fs'.slabs = ⟨fs'.slabs.headers, fs'.slabs.fslabNum, fs'.slabs.fslabHead, fs'.slabs.fslabTail⟩ := rfl
      _ = flaMkfsSlabSgmtInit geo := by
          rw [hheaders, hnum, hhead, htail]
          rfl

/-! ## Formatting, then opening -/

variable {env : Env} {initErr : ℤ} {wiped disk' mdDisk' : Bytes}

/-- what a format that returns 0 leaves in the metadata blocks, and outside of them -/
theorem Laid.formatted (hl : Laid dev mdDev hasMd npools slabNlb geo)
    (hr : env.OffsetsExact (if hasMd then mdDev else dev))
    (h : mkfsWrite env initErr dev mdDev hasMd geo disk mdDisk = .ok (0, disk', mdDisk')) :
    0 < flaXneCalcMdtsNaddrs (if hasMd then mdDev else dev) ∧
      (∀ i < flaGeoNbytes geo,
        (if hasMd then mdDisk' else disk') i = mdBuffer (mkfsSystem dev mdDev hasMd geo disk mdDisk) i) ∧
      (∀ i, flaGeoNbytes geo ≤ i → (if hasMd then mdDisk' else disk') i = (if hasMd then mdDisk else disk) i) ∧
      (hasMd = true → disk' = disk) := by
  obtain ⟨bytes, hvalid, hwrite, rfl, rfl⟩ := mkfsWrite_inv h
  obtain ⟨hpos, hlt, -⟩ := hl.nblocks
  have hlb := hl.lb
  have hhomelb := hl.home_lb
  have hbytes : flaGeoNbytes geo = flaGeoNblocks geo * (if hasMd then mdDev else dev).lbNbytes := by
    rw [flaGeoNbytes, hhomelb, hl.bounds.1]
  -- the range is that of the metadata blocks
  have hrange : env.rangeFromOffsetNbytes (if hasMd then mdDev else dev) 0 (flaGeoNbytes geo) =
      ⟨0, flaGeoNblocks geo - 1, true⟩ := by
    rw [hbytes] at hvalid ⊢
    have hlbpos : 0 < (if hasMd then mdDev else dev).lbNbytes := by omega
    rw [hr 0 _ (dvd_zero _) (Dvd.intro_left _ rfl) (Nat.mul_pos hpos hlbpos) hvalid, Nat.zero_div, Nat.zero_add,
      Nat.mul_div_cancel _ hlbpos]
  rw [hrange] at hwrite
  have hlast : (⟨0, flaGeoNblocks geo - 1, true⟩ : LbaRange).elba < 2 ^ 63 := by
    dsimp only
    omega
  have hmdts := seqW_mdts (Nat.zero_le _) hlast hwrite
  have hcopy := seqW_spec hmdts hlast hwrite
  dsimp only at hcopy
  rw [Nat.zero_mul, show flaGeoNblocks geo - 1 + 1 - 0 = flaGeoNblocks geo by omega, ← hbytes] at hcopy
  have hhome : (if hasMd then (if hasMd then bytes else mdDisk) else (if hasMd then disk else bytes)) = bytes := by
    cases hasMd <;> rfl
  refine ⟨hmdts, fun i hi => ?_, fun i hi => ?_, fun hmd => ?_⟩
  · rw [hhome, hcopy, copyBytes_of_mem (Nat.zero_le i) (by omega), Nat.zero_add, Nat.sub_zero]
  · rw [hhome, hcopy, copyBytes_of_not_mem (by omega)]
  · rw [hmd]
    rfl

end Fresh

/-- what a format of any two devices has done: `disk` and `mdDisk` are what they held before -/
structure MkfsDone (dev mdDev : Dev) (hasMd : Bool) (npools slabNlb : ℕ) (geo : Geo)
    (wiped disk mdDisk disk' mdDisk' : Bytes) : Prop where
  /-- a system that opens is empty, and on the volume asked for -/
  opens : ∀ env err fs, env.OffsetsExact (if hasMd then mdDev else dev) →
    flaOpen env dev mdDev hasMd disk' mdDisk' = .ok (err, some fs) → Mounted dev mdDev hasMd npools slabNlb geo fs
  /-- devices that do all they are asked can be opened -/
  works : ∃ fs, flaOpen .reliable dev mdDev hasMd disk' mdDisk' = .ok (0, some fs)
  /-- nothing is written behind the metadata -/
  rest : ∀ i, flaGeoNbytes geo ≤ i →
    (if hasMd then mdDisk' else disk') i = (if hasMd then mdDisk else disk) i
  /-- nothing is written to a data device whose metadata is elsewhere, but a zoned one is reset -/
  data : hasMd = true → disk' = match dev.cs with
    | .cns => disk
    | .zns _ => wiped

/-- **Formatting, then opening.** Whatever the devices held, a format that returns 0 leaves an empty file system that every
open finds, and writes nothing but its metadata. -/
theorem mkfs_round_trip {env : Env} {initErr : ℤ} {wiped disk mdDisk disk' mdDisk' : Bytes} {dev mdDev : Dev} {hasMd : Bool}
    {npools slabNlb : ℕ} (hslab : slabNlb < 2 ^ 32) (hlb : 512 ≤ dev.lbNbytes) (hsingle : hasMd = false → mdDev = dev)
    (hbytes : ∀ geo, flaMkfsGeoCalc dev hasMd npools slabNlb = .ok (0, geo) → flaGeoNbytes geo < 2 ^ 32)
    (hr : env.OffsetsExact (if hasMd then mdDev else dev))
    (h : flaMkfsDevs env initErr wiped dev mdDev hasMd npools slabNlb disk mdDisk = .ok (0, disk', mdDisk')) :
    ∃ geo, MkfsDone dev mdDev hasMd npools slabNlb geo wiped disk mdDisk disk' mdDisk' := by
  obtain ⟨disk₁, geo, hprep, hsane, hhomelb, hgeo, hwrite⟩ := mkfs_inv h
  obtain ⟨hsame₁, hreset⟩ := mkfsPrepare_inv hprep
  have hsame : mdDev.lbNbytes = dev.lbNbytes := by
    cases hasMd with
    | false => rw [hsingle rfl]
    | true => exact hhomelb
  have hl : Laid dev mdDev hasMd npools slabNlb geo := ⟨hgeo, hslab, hsame, hlb, hbytes geo hgeo⟩
  obtain ⟨hmdts, hheld, hrest, hdata⟩ := hl.formatted hr hwrite
  refine ⟨geo, fun env' err fs hr' hopen => ?_, open_ok hl mkfsSystem_onVol hsane hmdts hheld, fun i hi => ?_,
    fun hmd => (hdata hmd).trans (hreset hmd)⟩
  · obtain ⟨hre, -⟩ := open_reopened hl mkfsSystem_onVol rfl hr' hheld hopen
    obtain ⟨hcount, hpast⟩ := open_table hopen
    exact ⟨hgeo, hslab, hsame, hre.fresh hl hcount hpast, hre.devs⟩
  · rw [hrest i hi]
    cases hasMd with
    | false => rw [hsame₁ rfl]
    | true => rfl

/-- two pools and slabs of eight blocks, on a device full of ones -/
theorem mkfs_round_trip_small : ∃ disk' mdDisk' geo,
    flaMkfsDevs .reliable 0 0 smallDev smallDev false 2 8 (fun _ => 1) 0 = .ok (0, disk', mdDisk') ∧
      MkfsDone smallDev smallDev false 2 8 geo 0 (fun _ => 1) 0 disk' mdDisk' := by
  obtain ⟨⟨err, disk', mdDisk'⟩, hrun, herr⟩ := Option.map_eq_some_iff.1 (show (flaMkfsDevs .reliable 0 0 smallDev smallDev
    false 2 8 (fun _ => 1) 0).toOption.map (·.1) = some 0 by decide +kernel)
  obtain rfl : err = 0 := herr
  have hbytes : ∀ geo, flaMkfsGeoCalc smallDev false 2 8 = .ok (0, geo) → flaGeoNbytes geo < 2 ^ 32 := by
    intro geo hgeo
    obtain rfl : geo = smallGeo := (Prod.mk.inj (Except.ok.inj (hgeo.symm.trans smallGeo_formatted.accepted))).2
    decide +kernel
  obtain ⟨geo, hdone⟩ := mkfs_round_trip (by decide) (by decide) (fun _ => rfl) hbytes (reliable_offsetsExact _)
    (toOption_eq_some hrun)
  exact ⟨disk', mdDisk', geo, toOption_eq_some hrun, hdone⟩

end FlexAlloc
