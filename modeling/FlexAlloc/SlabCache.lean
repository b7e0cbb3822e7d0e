/-
`flexalloc_slabcache.c`: the cache of slab freelists.

Each slab has a cache element that is stale, dirty or clean. On disk a freelist is the words of its buffer, length word
first, each least significant byte first; `flistBytes` and `flistOfBytes` are the two directions.

- `flistOfBytes_flistBytes`, `flistBytes_len`: a freelist that is written and read back is the same freelist.
- `elemLoad_not_stale`: loading an element that is not stale is refused and changes nothing.
- `elemLoad_inv`: all that loading an element can do.
- `objAlloc_spec`, `objFree_spec`: taking and giving back one entry.
-/
import FlexAlloc.State

namespace FlexAlloc

open FlexAlloc.Core

/-! ## Freelists as bytes -/

/-- the words of a freelist, length first -/
def flistWords (fl : Freelist) : List (BitVec 32) := BitVec.ofNat 32 fl.len :: fl.words

/-- the bytes of an I/O buffer that holds a freelist -/
def flistBytes (buf : FlistBuf) : Bytes := fun i =>
  match (flistWords buf.flist)[i / 4]? with
  | some w => byteOf w.toNat (i % 4)
  | none => buf.pad i

/-- the freelist of `len` entries at the start of a buffer -/
def flistOfBytes (b : Bytes) (len : ℕ) : Freelist :=
  ⟨len, (List.range (flaFreelistU32Elems len)).map fun j => BitVec.ofNat 32 (leNat b (4 * (j + 1)) 4), by simp⟩

theorem flistBytes_word {buf : FlistBuf} {b : Bytes} {j : ℕ} {w : BitVec 32}
    (hw : (flistWords buf.flist)[j]? = some w) (hb : ∀ i, i < flaFlistSize buf.flist.len → b i = flistBytes buf i) :
    leNat b (4 * j) 4 = w.toNat := by
  have hj : j < (flistWords buf.flist).length := (List.getElem?_eq_some_iff.1 hw).1
  rw [flistWords, List.length_cons, buf.flist.size] at hj
  rw [leNat_of_bytes (v := w.toNat), Nat.mod_eq_of_lt (w.isLt.trans_eq (by norm_num))]
  intro i hi
  rw [hb _ (by unfold flaFlistSize; omega), flistBytes, show (4 * j + i) / 4 = j by omega,
    show (4 * j + i) % 4 = i by omega, hw]

theorem flistBytes_len {buf : FlistBuf} {b : Bytes} (hlen : buf.flist.len < 2 ^ 32)
    (hb : ∀ i, i < flaFlistSize buf.flist.len → b i = flistBytes buf i) : leNat b 0 4 = buf.flist.len := by
  have := flistBytes_word (j := 0) (w := BitVec.ofNat 32 buf.flist.len) rfl hb
  rw [Nat.mul_zero, BitVec.toNat_ofNat, Nat.mod_eq_of_lt hlen] at this
  exact this

/-- **Freelists round trip.** -/
theorem flistOfBytes_flistBytes {buf : FlistBuf} {b : Bytes}
    (hb : ∀ i, i < flaFlistSize buf.flist.len → b i = flistBytes buf i) :
    flistOfBytes b buf.flist.len = buf.flist := by
  have hwords : (flistOfBytes b buf.flist.len).words = buf.flist.words := by
    refine List.ext_getElem? fun j => ?_
    simp only [flistOfBytes, List.getElem?_map]
    by_cases hj : j < flaFreelistU32Elems buf.flist.len
    · rw [List.getElem?_range hj, Option.map_some]
      have hj' : j < buf.flist.words.length := by rw [buf.flist.size]; exact hj
      rw [flistBytes_word (j := j + 1) (w := buf.flist.words[j]) (by simp [flistWords, hj']) hb, BitVec.ofNat_toNat,
        BitVec.setWidth_eq, List.getElem?_eq_getElem hj']
    · rw [List.getElem?_eq_none (by simpa using hj), List.getElem?_eq_none (by rw [buf.flist.size]; omega)]
      rfl
  cases hfl : buf.flist with
  | mk len words size =>
    rw [hfl] at hwords
    simp only [flistOfBytes, Freelist.mk.injEq, true_and] at hwords ⊢
    exact hwords

/-- the bytes of a freelist that was just read are the bytes it was read from -/
theorem flistBytes_flistOfBytes {b : Bytes} {len : ℕ} (hlen : leNat b 0 4 = len) :
    flistBytes ⟨flistOfBytes b len, b⟩ = b := by
  funext i
  have hword : ∀ j < flaFreelistU32Elems len + 1, ∀ k < 4, (flistWords (flistOfBytes b len))[j]? =
      some (BitVec.ofNat 32 (leNat b (4 * j) 4)) := fun j hj k _ => by
    cases j with
    | zero => simp only [flistWords, flistOfBytes, List.getElem?_cons_zero, Nat.mul_zero, hlen]
    | succ j => simp [flistWords, flistOfBytes, List.getElem?_range (show j < flaFreelistU32Elems len by omega)]
  unfold flistBytes
  by_cases hi : i / 4 < flaFreelistU32Elems len + 1
  · have hlt := leNat_lt b (4 * (i / 4)) 4
    rw [hword _ hi _ (Nat.mod_lt i (by decide))]
    simp only
    rw [BitVec.toNat_ofNat, Nat.mod_eq_of_lt (hlt.trans_eq (by norm_num)), byteOf_leNat b (Nat.mod_lt i (by decide)),
      Nat.div_add_mod]
  · have hnone : (flistWords (flistOfBytes b len))[i / 4]? = none := by
      refine List.getElem?_eq_none ?_
      rw [flistWords, List.length_cons, (flistOfBytes b len).size]
      show flaFreelistU32Elems len + 1 ≤ i / 4
      omega
    rw [hnone]

/-! ## Elements -/

def flaSlabCacheElemInit (env : Env) (fs : Flexalloc) (slabId flistLen : ℕ) : ℤ × Flexalloc :=
  if (fs.cache slabId).state ≠ .stale then (flaSlabCacheInvalidState, fs)
  else if ¬ env.bufAlloc then (-eNOMEM, fs)
  else (0, fs.setElem slabId ⟨.dirty, some ⟨flaFlistInit flistLen, env.junk⟩⟩)

/-- `fla_slab_cache_elem_load`. With a metadata device and a freelist of more than one block it prints an error, loads
nothing and returns 0. -/
def flaSlabCacheElemLoad (env : Env) (fs : Flexalloc) (slabId flistLen : ℕ) : Ret (ℤ × Flexalloc) :=
  if (fs.cache slabId).state ≠ .stale then .ok (flaSlabCacheInvalidState, fs)
  else if ¬ env.bufAlloc then .ok (-eNOMEM, fs)
  else
    let flistNlb := flaSlabCacheFlistNlb fs.vol flistLen
    if fs.vol.hasMd ∧ 1 < flistNlb then .ok (0, fs)
    else
      let slba := cacheEntryLbSlba fs.vol slabId flistNlb
      let range := env.rangeFromSlbaNaddrs fs.mdHome slba flistNlb
      if ¬ range.isValid then .ok (1, fs)
      else
        match flaXneSyncSeqRXneio env fs.mdHome range fs.mdBytes env.junk with
        | .error f => .error f
        | .ok (err, buf) =>
          if err ≠ 0 then .ok (err, fs)
          -- sanity check: the caller should know the freelist length
          else if leNat buf 0 4 ≠ flistLen then .ok (1, fs)
          else .ok (0, fs.setElem slabId ⟨.clean, some ⟨flistOfBytes buf flistLen, buf⟩⟩)

def flaSlabCacheElemFlush (env : Env) (fs : Flexalloc) (slabId : ℕ) : Ret (ℤ × Flexalloc) :=
  if (fs.cache slabId).state ≠ .dirty then .ok (0, fs)
  else
    match (fs.cache slabId).freelist with
    | none => .error .uninitialised
    | some buf =>
      let flistNlb := flaSlabCacheFlistNlb fs.vol (flaFlistLen buf.flist)
      let slba := cacheEntryLbSlba fs.vol slabId flistNlb
      let range := env.rangeFromSlbaNaddrs fs.mdHome slba flistNlb
      if ¬ range.isValid then .ok (1, fs)
      else
        match flaXneSyncSeqWXneio env fs.mdHome false range (flistBytes buf) fs.mdBytes with
        | .error f => .error f
        | .ok (err, disk) =>
          let fs := fs.setMdBytes disk
          if err ≠ 0 then .ok (err, fs) else .ok (0, fs.setElem slabId ⟨.clean, some buf⟩)

def flaSlabCacheElemDrop (fs : Flexalloc) (slabId : ℕ) : Flexalloc := fs.setElem slabId ⟨.stale, none⟩

/-- `fla_slab_cache_obj_alloc`: the return value, the object, and the system. Entries that were taken before an error
stay taken. -/
def flaSlabCacheObjAlloc (fs : Flexalloc) (slabId numObjs : ℕ) : Ret (ℤ × Option Obj × Flexalloc) :=
  let e := fs.cache slabId
  if e.state = .stale then .ok (flaSlabCacheInvalidState, none, fs)
  else
    match e.freelist with
    | none => .error .uninitialised
    | some buf =>
      let r := flaFlistEntriesAlloc buf.flist numObjs
      if r.1 < 0 then .ok (1, none, fs.setElem slabId ⟨e.state, some { buf with flist := r.2 }⟩)
      else .ok (0, some ⟨slabId, r.1.toNat⟩, fs.setElem slabId ⟨.dirty, some { buf with flist := r.2 }⟩)

def flaSlabCacheObjFree (fs : Flexalloc) (obj : Obj) (numObjs : ℕ) : Ret (ℤ × Flexalloc) :=
  let e := fs.cache obj.slabId
  if e.state = .stale then .ok (flaSlabCacheInvalidState, fs)
  else
    match e.freelist with
    | none => .error .uninitialised
    | some buf =>
      match flaFlistEntriesFree buf.flist obj.entryNdx numObjs with
      | .error f => .error f
      | .ok (err, flist) =>
        if err ≠ 0 then .ok (err, fs.setElem obj.slabId ⟨e.state, some { buf with flist := flist }⟩)
        else .ok (0, fs.setElem obj.slabId ⟨.dirty, some { buf with flist := flist }⟩)

theorem elemLoad_not_stale {env : Env} {fs : Flexalloc} {slabId : ℕ} (h : (fs.cache slabId).state ≠ .stale)
    (flistLen : ℕ) : flaSlabCacheElemLoad env fs slabId flistLen = .ok (flaSlabCacheInvalidState, fs) := if_pos h

/-- the blocks the freelist of a slab is read from and written to -/
def flistLbas (env : Env) (fs : Flexalloc) (slabId flistLen : ℕ) : LbaRange :=
  env.rangeFromSlbaNaddrs fs.mdHome (cacheEntryLbSlba fs.vol slabId (flaSlabCacheFlistNlb fs.vol flistLen))
    (flaSlabCacheFlistNlb fs.vol flistLen)

/-- **What a load can do.** Nothing, and then it returns 0 only for the freelist of more than one block of a metadata
device; or it reads the blocks of the freelist of a stale element, which start with the length asked for. -/
theorem elemLoad_inv {env : Env} {fs fs' : Flexalloc} {slabId flistLen : ℕ} {err : ℤ}
    (h : flaSlabCacheElemLoad env fs slabId flistLen = .ok (err, fs')) :
    (fs' = fs ∧ (err = 0 → fs.vol.hasMd ∧ 1 < flaSlabCacheFlistNlb fs.vol flistLen)) ∨
      (err = 0 ∧ (fs.cache slabId).state = .stale ∧ ¬ (fs.vol.hasMd ∧ 1 < flaSlabCacheFlistNlb fs.vol flistLen) ∧
        (flistLbas env fs slabId flistLen).isValid ∧
        ∃ buf, flaXneSyncSeqRXneio env fs.mdHome (flistLbas env fs slabId flistLen) fs.mdBytes env.junk = .ok (0, buf) ∧
          leNat buf 0 4 = flistLen ∧ fs' = fs.setElem slabId ⟨.clean, some ⟨flistOfBytes buf flistLen, buf⟩⟩) := by
  by_cases hst : (fs.cache slabId).state ≠ .stale
  · rw [elemLoad_not_stale hst] at h
    cases h
    exact Or.inl ⟨rfl, fun h => by cases h⟩
  rw [flaSlabCacheElemLoad, if_neg hst] at h
  by_cases hbuf : ¬ env.bufAlloc
  · rw [if_pos hbuf] at h
    cases h
    exact Or.inl ⟨rfl, fun h => by cases h⟩
  rw [if_neg hbuf] at h
  dsimp only at h
  by_cases hmd : fs.vol.hasMd ∧ 1 < flaSlabCacheFlistNlb fs.vol flistLen
  · rw [if_pos hmd] at h
    cases h
    exact Or.inl ⟨rfl, fun _ => hmd⟩
  rw [if_neg hmd, ← flistLbas] at h
  by_cases hvalid : (flistLbas env fs slabId flistLen).isValid
  swap
  · rw [if_pos hvalid] at h
    cases h
    exact Or.inl ⟨rfl, fun h => by cases h⟩
  rw [if_neg (not_not.2 hvalid)] at h
  cases hread : flaXneSyncSeqRXneio env fs.mdHome (flistLbas env fs slabId flistLen) fs.mdBytes env.junk with
  | error f =>
    rw [hread] at h
    cases h
  | ok r =>
    obtain ⟨err₁, buf⟩ := r
    rw [hread] at h
    dsimp only at h
    by_cases herr : err₁ ≠ 0
    · rw [if_pos herr] at h
      cases h
      exact Or.inl ⟨rfl, fun h => absurd h herr⟩
    rw [if_neg herr] at h
    obtain rfl := not_ne_iff.1 herr
    by_cases hlen : leNat buf 0 4 ≠ flistLen
    · rw [if_pos hlen] at h
      cases h
      exact Or.inl ⟨rfl, fun h => by cases h⟩
    rw [if_neg hlen] at h
    cases h
    exact Or.inr ⟨rfl, not_ne_iff.1 hst, hmd, hvalid, buf, rfl, not_ne_iff.1 hlen, rfl⟩

section Objects

variable {fs : Flexalloc} {slabId i : ℕ} {buf : FlistBuf} {fl : Freelist}

theorem objAlloc_none (hst : (fs.cache slabId).state ≠ .stale) (hbuf : (fs.cache slabId).freelist = some buf)
    (htake : takeEntry buf.flist = none) : flaSlabCacheObjAlloc fs slabId 1 = .ok (1, none, fs) := by
  have hself : fs.setElem slabId ⟨(fs.cache slabId).state, some { buf with flist := buf.flist }⟩ = fs := by
    have : (⟨(fs.cache slabId).state, some buf⟩ : CacheElem) = fs.cache slabId := by rw [← hbuf]
    simp [Flexalloc.setElem, this]
  simp only [flaSlabCacheObjAlloc, if_neg hst, hbuf, entriesAlloc_one, flaFlistEntryAlloc, htake,
    if_pos (show (-1 : ℤ) < 0 by decide), hself]

/-- **Taking an entry** whose index fits an `int`. -/
theorem objAlloc_spec (hst : (fs.cache slabId).state ≠ .stale) (hbuf : (fs.cache slabId).freelist = some buf)
    (htake : takeEntry buf.flist = some (i, fl)) (hi : i < 2 ^ 31) : flaSlabCacheObjAlloc fs slabId 1 =
      .ok (0, some ⟨slabId, i⟩, fs.setElem slabId ⟨.dirty, some { buf with flist := fl }⟩) := by
  simp only [flaSlabCacheObjAlloc, if_neg hst, hbuf, entriesAlloc_one, flaFlistEntryAlloc, htake, toInt_of_lt hi,
    if_neg (show ¬ (i : ℤ) < 0 by omega), Int.toNat_natCast]

/-- an entry whose index does not fit an `int` is taken, and the call fails -/
theorem objAlloc_wide (hst : (fs.cache slabId).state ≠ .stale) (hbuf : (fs.cache slabId).freelist = some buf)
    (htake : takeEntry buf.flist = some (i, fl)) (hi : 2 ^ 31 ≤ i) (hi' : i < 2 ^ 32) :
    flaSlabCacheObjAlloc fs slabId 1 =
      .ok (1, none, fs.setElem slabId ⟨(fs.cache slabId).state, some { buf with flist := fl }⟩) := by
  simp only [flaSlabCacheObjAlloc, if_neg hst, hbuf, entriesAlloc_one, flaFlistEntryAlloc, htake,
    if_pos (toInt_neg hi hi')]

/-- **Giving an entry back.** -/
theorem objFree_spec {obj : Obj} (hst : (fs.cache obj.slabId).state ≠ .stale)
    (hbuf : (fs.cache obj.slabId).freelist = some buf) (hlt : obj.entryNdx < buf.flist.len)
    (h32 : obj.entryNdx < 2 ^ 32) :
    ∃ fl, flaSlabCacheObjFree fs obj 1 = .ok (0, fs.setElem obj.slabId ⟨.dirty, some { buf with flist := fl }⟩) ∧
      fl.len = buf.flist.len ∧ ∀ j, fl.isFree j = (buf.flist.isFree j || decide (j = obj.entryNdx)) := by
  obtain ⟨fl, hfree, hlen, hrest⟩ := entriesFree_one hlt h32
  refine ⟨fl, ?_, hlen, hrest⟩
  simp only [flaSlabCacheObjFree, if_neg hst, hbuf, hfree, ne_eq, not_true_eq_false, if_false]

end Objects

/-- the loop of `fla_slab_cache_flush` from `slabId` on: how many elements could not be written -/
def slabCacheFlushLoop (env : Env) : ℕ → ℕ → ℤ → Flexalloc → Ret (ℤ × Flexalloc)
  | 0, _, err, fs => .ok (err, fs)
  | n + 1, slabId, err, fs =>
    match flaSlabCacheElemFlush env fs slabId with
    | .error f => .error f
    | .ok (ret, fs) => slabCacheFlushLoop env n (slabId + 1) (if ret ≠ 0 then err + 1 else err) fs

def flaSlabCacheFlush (env : Env) (fs : Flexalloc) : Ret (ℤ × Flexalloc) := slabCacheFlushLoop env fs.nslabs 0 0 fs

end FlexAlloc
