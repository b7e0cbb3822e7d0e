/-
An object destroy that fails.

`fla_base_object_destroy` resets the object's zone first and makes its checks afterwards: that the slab exists, that its
freelist is in the cache, that the entry lies in it. When one of them fails the allocator keeps the object, whose data is
gone. After a reopen every freelist is out of the cache until an object of its slab is opened.

- `destroy_cases`: a destroy whose zone reset succeeds either passes the checks and returns 0, or returns an error and
  leaves the allocator as it was. The one slab of a system of one, before it was ever acquired, is the exception: the checks
  can pass, and the slab not leave its list.
- `failed_destroy_keeps_iff`: in every state a session reaches, a failed destroy keeps the object exactly when the checks
  pass, so that it does not fail, or when the reset erases nothing the object or its freelist consists of.
- `failed_destroy_loses`: a zoned device, an object that is written, a reopen, and the destroy that fails and erases it.
-/
import FlexAlloc.Sessions

namespace FlexAlloc

open FlexAlloc.Core Function

/-! ## What a failed destroy should keep -/

/-- the bytes of the device that hold an object, and its slab's freelist when that is on the same device -/
def StoredByte (fs : Flexalloc) (ndx : ℕ) (obj : Obj) (i : ℕ) : Prop :=
  i / fs.dev.lbNbytes ∈ objRange fs.vol (fs.pools.entries ndx).objNlb obj ∨
    (fs.vol.hasMd = false ∧ i / fs.dev.lbNbytes ∈ flistRange fs.vol obj.slabId (fs.pools.entries ndx).slabNobj)

/-- the data of an object, its freelist entry, the reference count of its slab and the lists of slabs are as before -/
structure Kept (fs fs' : Flexalloc) (ndx : ℕ) (obj : Obj) : Prop where
  data : ∀ i, StoredByte fs ndx obj i → fs'.disk i = fs.disk i
  entry : fs'.cache obj.slabId = fs.cache obj.slabId ∧ fs'.mdDisk = fs.mdDisk
  refcount : (fs'.header obj.slabId).refcount = (fs.header obj.slabId).refcount
  heads : ∀ i k, (fs'.pools.entries i).head k = (fs.pools.entries i).head k
  links : ∀ s, (fs'.header s).prev = (fs.header s).prev ∧ (fs'.header s).next = (fs.header s).next

/-- the checks that `fla_base_object_destroy` makes once the zones are reset: the slab exists, its freelist is in the
cache, and the entry is not past its end -/
structure Freeable (fs : Flexalloc) (obj : Obj) : Prop where
  slab : flaSlabRangeCheckId fs.nslabs obj.slabId = false
  cached : (fs.cache obj.slabId).state ≠ .stale
  entry : ∀ buf, (fs.cache obj.slabId).freelist = some buf → u32 obj.entryNdx ≤ buf.flist.len

/-- no byte of the object or its freelist would change when the zone of its first block is reset; there are no zones on
a conventional device -/
def Blank (wiped : Bytes) (fs : Flexalloc) (ndx : ℕ) (obj : Obj) : Prop :=
  ∀ nzsect, fs.vol.cs = .zns nzsect → ∀ i, StoredByte fs ndx obj i →
    ZoneByte fs.dev.lbNbytes nzsect (flaObjectSlba fs.vol (fs.pools.entries ndx).objNlb obj) i → fs.disk i = wiped i

/-! ## Lists do not fail -/

section Lists

variable {n x head head' : ℕ} {hd hd' : ℕ → SlabHeader} {err : ℤ}

theorem Within.check {v : ℕ} (h : Within n v) (hne : v ≠ flaLinkedListNull) : ¬ flaSlabRangeCheckId n v = true := by
  rw [h.resolve_left hne]
  exact Bool.false_ne_true

theorem hdllPrepend_zero (hx : flaSlabRangeCheckId n x = false) (hhead : Within n head)
    (h : flaHdllPrepend n hd x head = (err, hd', head')) : err = 0 := by
  unfold flaHdllPrepend at h
  split_ifs at h with hpast hnull hck
  · rw [hx] at hpast
    cases hpast
  · exact absurd hck (hhead.check hnull)
  · exact (Prod.mk.inj h).1.symm
  · exact (Prod.mk.inj h).1.symm

theorem hdllRemoveNext_zero (hnext : Within n (hd x).next) (h : hdllRemoveNext n hd x head = (err, hd', head')) :
    err = 0 := by
  unfold hdllRemoveNext at h
  split_ifs at h with hnull hck
  · exact (Prod.mk.inj h).1.symm
  · exact absurd hck (hnext.check hnull)
  · exact (Prod.mk.inj h).1.symm

theorem hdllRemove_zero (hprev : Within n (hd x).prev) (hnext : Within n (hd x).next)
    (h : flaHdllRemove n hd x head = (err, hd', head')) : err = 0 := by
  unfold flaHdllRemove at h
  split_ifs at h with hnull hck
  · exact hdllRemoveNext_zero hnext h
  · exact absurd hck (hprev.check hnull)
  · refine hdllRemoveNext_zero ?_ h
    by_cases hx : x = (hd x).prev
    · rw [← hx, update_self]
      exact hnext
    · rw [update_of_ne hx]
      exact hnext

end Lists

section Destroy

variable {dev mdDev : Dev} {hasMd : Bool} {geo : Geo} {fs fs' : Flexalloc} {slab : ℕ} {err : ℤ}

/-- **A slab changes lists** without an error, whatever lists are named, when its link back is well formed. -/
theorem Standing.moveSlab_zero (h : Standing dev mdDev hasMd geo fs) (hs : flaSlabRangeCheckId fs.nslabs slab = false)
    (hprev : Within geo.nslabs (fs.header slab).prev) {src dst : ℕ × SlabKind}
    (hmove : moveSlab fs slab src dst = (err, fs')) : err = 0 := by
  have hn : fs.nslabs = geo.nslabs := congrArg Geo.nslabs h.vol.geo_eq
  unfold moveSlab at hmove
  cases hsrc : fs.onList src.1 src.2 fun hd head => flaHdllRemove fs.nslabs hd slab head with
  | mk err₁ fs₁ =>
    have hst₁ : Standing dev mdDev hasMd geo fs₁ :=
      h.effects (onList_effects (fun _ _ _ hrun => hdllRemove_relinked (h.links.next slab) (h.links.heads _ _) hrun) hsrc)
    have hn₁ : fs₁.nslabs = geo.nslabs := congrArg Geo.nslabs hst₁.vol.geo_eq
    obtain ⟨hd, head, hremove, -⟩ := onList_inv hsrc
    obtain rfl : err₁ = 0 := by
      rw [hn] at hremove
      exact hdllRemove_zero hprev (h.links.next slab) hremove
    rw [hsrc] at hmove
    dsimp only at hmove
    rw [if_neg (by simp)] at hmove
    obtain ⟨hd', head', hprepend, -⟩ := onList_inv hmove
    rw [hn] at hs
    rw [hn₁] at hprepend
    exact hdllPrepend_zero hs (hst₁.links.heads _ _) hprepend

theorem moveSlab_stuck (hprev : ¬ Within fs.nslabs (fs.header slab).prev) {src dst : ℕ × SlabKind}
    (hmove : moveSlab fs slab src dst = (err, fs')) : err ≠ 0 ∧ fs'.header slab = fs.header slab := by
  obtain ⟨hnull, hck⟩ := not_or.1 hprev
  rw [Bool.not_eq_false] at hck
  have hremove : ∀ head, flaHdllRemove fs.nslabs fs.slabs.headers slab head = (1, fs.slabs.headers, head) := fun head =>
    (if_neg hnull).trans (if_pos hck)
  have hop : (fs.onList src.1 src.2 fun hd head => flaHdllRemove fs.nslabs hd slab head) = _ :=
    onList_eq fs src.1 src.2 _ (hremove _)
  unfold moveSlab at hmove
  rw [hop] at hmove
  dsimp only at hmove
  rw [if_pos (by decide)] at hmove
  cases hmove
  exact ⟨by decide, rfl⟩

/-- giving back one entry fails exactly when it is past the end of the list, which is then as before -/
theorem entriesFree_cases {fl fl' : Freelist} {ndx : ℕ} (h : flaFlistEntriesFree fl ndx 1 = .ok (err, fl')) :
    (u32 ndx ≤ fl.len ∧ err = 0) ∨ (fl.len < u32 ndx ∧ err ≠ 0 ∧ fl' = fl) := by
  obtain ⟨⟨err₁, fl₁⟩, hfree, h⟩ := bind_eq_ok h
  unfold flaFlistEntryFree at hfree
  split_ifs at hfree with hpast
  · cases hfree
    cases h
    exact .inr ⟨hpast, by decide, rfl⟩
  · cases hfree
    cases h
    exact .inl ⟨Nat.not_lt.1 hpast, rfl⟩

theorem sub32_one_ne (n : ℕ) : sub32 n 1 ≠ n := by
  unfold sub32 u32
  omega

/-- giving back the entry of an object changes its slab's element, or fails and changes nothing -/
theorem objFree_one_cases {obj : Obj} (hslab : flaSlabRangeCheckId fs.nslabs obj.slabId = false)
    (hfree : flaSlabCacheObjFree fs obj 1 = .ok (err, fs')) :
    (Freeable fs obj ∧ err = 0 ∧ ∃ c, fs' = fs.setElem obj.slabId c) ∨ (¬ Freeable fs obj ∧ err ≠ 0 ∧ fs' = fs) := by
  unfold flaSlabCacheObjFree at hfree
  dsimp only at hfree
  by_cases hst : (fs.cache obj.slabId).state = .stale
  · rw [if_pos hst] at hfree
    cases hfree
    exact .inr ⟨fun hf => hf.cached hst, by decide, rfl⟩
  rw [if_neg hst] at hfree
  cases hbuf : (fs.cache obj.slabId).freelist with
  | none =>
    rw [hbuf] at hfree
    cases hfree
  | some buf =>
    rw [hbuf] at hfree
    dsimp only at hfree
    cases hgive : flaFlistEntriesFree buf.flist obj.entryNdx 1 with
    | error f =>
      rw [hgive] at hfree
      cases hfree
    | ok r =>
      obtain ⟨err₂, fl⟩ := r
      rw [hgive] at hfree
      dsimp only at hfree
      rcases entriesFree_cases hgive with ⟨hle, rfl⟩ | ⟨hlt, hne, rfl⟩
      · rw [if_neg (by simp)] at hfree
        cases hfree
        refine .inl ⟨⟨hslab, hst, fun b hb => ?_⟩, rfl, _, rfl⟩
        obtain rfl := Option.some.inj (hbuf.symm.trans hb)
        exact hle
      · rw [if_pos hne] at hfree
        cases hfree
        refine .inr ⟨fun hf => absurd (hf.entry buf hbuf) (by omega), hne, ?_⟩
        have hsame : update fs.cache obj.slabId ⟨(fs.cache obj.slabId).state, some buf⟩ = fs.cache := by
          rw [← hbuf]
          exact update_eq_self _ _
        show { fs with cache := update fs.cache obj.slabId ⟨(fs.cache obj.slabId).state, some buf⟩ } = fs
        rw [hsame]

/-- **What a destroy does after the zone reset.** It passes the checks and returns 0, or it changes nothing; or it has counted
the object off a slab that it cannot move. -/
theorem Standing.destroy_cases (h : Standing dev mdDev hasMd geo fs) {env : Env} {ndx : ℕ} {obj : Obj}
    (hcs : csObjectDestroy env fs ndx obj = .ok 0) (hrun : flaBaseObjectDestroy env fs ndx obj = .ok (err, fs')) :
    (Freeable fs obj ∧ Within geo.nslabs (fs.header obj.slabId).prev ∧ err = 0) ∨
      (Freeable fs obj ∧ ¬ Within geo.nslabs (fs.header obj.slabId).prev ∧ err ≠ 0 ∧
        (fs'.header obj.slabId).refcount ≠ (fs.header obj.slabId).refcount) ∨
      (¬ Freeable fs obj ∧ err ≠ 0 ∧ fs' = fs) := by
  obtain ⟨err₀, hcs₀, hrun⟩ := bind_eq_ok hrun
  obtain rfl : err₀ = 0 := Except.ok.inj (hcs₀.symm.trans hcs)
  rw [if_neg (by simp)] at hrun
  by_cases hck : flaSlabRangeCheckId fs.nslabs obj.slabId
  · rw [if_pos hck] at hrun
    cases hrun
    exact .inr (.inr ⟨fun hf => absurd hck (by rw [hf.slab]; simp), by decide, rfl⟩)
  rw [if_neg hck] at hrun
  have hslab : flaSlabRangeCheckId fs.nslabs obj.slabId = false := Bool.not_eq_true _ ▸ hck
  obtain ⟨src, -, hrun⟩ := bind_eq_ok hrun
  obtain ⟨fnc, hfnc, hrun⟩ := bind_eq_ok hrun
  obtain rfl := h.plain.fnc hfnc
  obtain ⟨n, hn, hrun⟩ := bind_eq_ok hrun
  obtain rfl : n = 1 := numFlaObjsAt_eq hn
  obtain ⟨⟨err₁, fs₁⟩, hfree, hrun⟩ := bind_eq_ok hrun
  have heff : Effects (Within geo.nslabs) fs fs₁ := objFree_effects hfree
  have hst₁ := h.effects heff
  have hn₁ : fs₁.nslabs = fs.nslabs := congrArg (fun v => v.geo.nslabs) heff.vol
  change flaSlabCacheObjFree fs obj 1 = .ok (err₁, fs₁) at hfree
  dsimp only at hrun
  rcases objFree_one_cases hslab hfree with ⟨hf, rfl, c, rfl⟩ | ⟨hnot, hne, hsame⟩
  · rw [if_neg (by simp)] at hrun
    obtain ⟨dst, -, hrun⟩ := bind_eq_ok hrun
    have hmove := Except.ok.inj hrun
    have hcount : Effect (Within geo.nslabs) (fs.setElem obj.slabId c) ((fs.setElem obj.slabId c).subRefcount obj.slabId 1) :=
      .count obj.slabId _ (u32_lt _)
    have hheader : ((fs.setElem obj.slabId c).subRefcount obj.slabId 1).header obj.slabId =
        { fs.header obj.slabId with refcount := sub32 (fs.header obj.slabId).refcount 1 } := update_self ..
    by_cases hprev : Within geo.nslabs (fs.header obj.slabId).prev
    · exact .inl ⟨hf, hprev, (hst₁.effect hcount).moveSlab_zero hslab (by rw [hheader]; exact hprev) hmove⟩
    · have hn : fs.nslabs = geo.nslabs := congrArg Geo.nslabs h.vol.geo_eq
      obtain ⟨hne, hsame⟩ := moveSlab_stuck (by rw [hheader]; exact hn ▸ hprev) hmove
      refine .inr (.inl ⟨hf, hprev, hne, ?_⟩)
      rw [hsame, hheader]
      exact sub32_one_ne _
  · rw [if_pos hne] at hrun
    cases hrun
    exact .inr (.inr ⟨hnot, hne, hsame⟩)

/-- **What the zone reset of a destroy does to the device.** -/
theorem NoStripes.afterResets (hn : NoStripes fs) {wiped : Bytes} {env : Env} {ndx : ℕ} {obj : Obj}
    (hcs : csObjectDestroy env fs ndx obj = .ok 0) :
    (fs.vol.cs = .cns ∧ afterResets wiped env fs ndx obj = fs.disk) ∨
      ∃ nzsect, fs.vol.cs = .zns nzsect ∧ afterResets wiped env fs ndx obj =
        resetZone wiped fs.dev.lbNbytes nzsect (flaObjectSlba fs.vol (fs.pools.entries ndx).objNlb obj) fs.disk := by
  unfold csObjectDestroy at hcs
  unfold FlexAlloc.afterResets
  cases hvol : fs.vol.cs with
  | cns => exact .inl ⟨rfl, rfl⟩
  | zns nzsect =>
    rw [hvol] at hcs
    dsimp only at hcs ⊢
    refine .inr ⟨nzsect, rfl, ?_⟩
    have hreset := hcs
    obtain ⟨e, hent, hcs⟩ := bind_eq_ok hcs
    obtain ⟨fnc, hfnc, -⟩ := bind_eq_ok hcs
    obtain rfl := hn.fnc hfnc
    obtain rfl := entryAt_eq hent
    rw [zndReset_eq, zndManaged_object hent hfnc, ok_bind] at hreset
    have hsent : env.zndMgmtSend (flaObjectSlba fs.vol (fs.pools.entries ndx).objNlb obj) = 0 := by
      have hor := Except.ok.inj hreset
      rw [List.foldl_cons, List.foldl_nil] at hor
      cases hsend : env.zndMgmtSend (flaObjectSlba fs.vol (fs.pools.entries ndx).objNlb obj) with
      | ofNat m =>
        rw [hsend] at hor
        simpa [Int.lor] using hor
      | negSucc m =>
        rw [hsend] at hor
        simp [Int.lor] at hor
    rw [zndManaged_object hent hfnc]
    dsimp only
    rw [List.foldl_cons, List.foldl_nil, if_pos hsent]

theorem NoStripes.kept_iff (hn : NoStripes fs) {wiped : Bytes} {env : Env} {ndx : ℕ} {obj : Obj}
    (hcs : csObjectDestroy env fs ndx obj = .ok 0) :
    Kept fs { fs with disk := FlexAlloc.afterResets wiped env fs ndx obj } ndx obj ↔ Blank wiped fs ndx obj := by
  constructor
  · intro hk nzsect hz i hi hzone
    have hdata := hk.data i hi
    rcases @NoStripes.afterResets fs hn wiped env ndx obj hcs with ⟨hc, -⟩ | ⟨nzsect', hz', hdisk⟩
    · rw [hc] at hz
      cases hz
    · obtain rfl : nzsect' = nzsect := Cs.zns.inj (hz'.symm.trans hz)
      dsimp only at hdata
      rw [hdisk, resetZone_in hzone] at hdata
      exact hdata.symm
  · intro hblank
    refine ⟨fun i hi => ?_, ⟨rfl, rfl⟩, rfl, fun _ _ => rfl, fun _ => ⟨rfl, rfl⟩⟩
    dsimp only
    rcases @NoStripes.afterResets fs hn wiped env ndx obj hcs with ⟨-, hdisk⟩ | ⟨nzsect, hz, hdisk⟩
    · rw [hdisk]
    · rw [hdisk]
      by_cases hzone : ZoneByte fs.dev.lbNbytes nzsect (flaObjectSlba fs.vol (fs.pools.entries ndx).objNlb obj) i
      · rw [resetZone_in hzone]
        exact (hblank nzsect hz i hi hzone).symm
      · rw [resetZone_out hzone]

end Destroy

/-! ## In a session -/

/-- **A failed destroy.** In every state that a session reaches, a destroy whose zone reset succeeds and that returns an
error keeps the object if and only if it passes the checks that follow the reset, and so returns none, or it does not and
the reset erases nothing. A slab whose header leads back to no slab, the one slab of a system of one before it was ever
acquired, does not pass. -/
theorem failed_destroy_keeps_iff {dev mdDev : Dev} {hasMd : Bool} {npools slabNlb : ℕ} {geo : Geo} {fs₀ fs fs' : Flexalloc}
    (hm : Mounted dev mdDev hasMd npools slabNlb geo fs₀) (hlb : 512 ≤ dev.lbNbytes)
    (hbytes : flaGeoNbytes geo < 2 ^ 32) {wiped : Bytes} {async : StrpXfer} {xs : List (Env × SessionOp)}
    (hxs : ∀ x ∈ xs, ExactRanges (if hasMd then mdDev else dev) x) (hrun : run (sessionStep wiped async) fs₀ xs = some fs)
    {env : Env} {ndx : ℕ} {obj : Obj} {err : ℤ} (hcs : csObjectDestroy env fs ndx obj = .ok 0)
    (hdestroy : destroyObject wiped env fs ndx obj = .ok (err, fs')) :
    (err ≠ 0 → Kept fs fs' ndx obj) ↔ (Freeable fs obj ∧ ¬ NeverAcquired geo fs obj.slabId) ∨
      (¬ Freeable fs obj ∧ Blank wiped fs ndx obj) := by
  have hst := session_standing hm hlb hbytes hxs hrun
  have hfreeable : Freeable { fs with disk := afterResets wiped env fs ndx obj } obj ↔ Freeable fs obj :=
    ⟨fun h => ⟨h.slab, h.cached, h.entry⟩, fun h => ⟨h.slab, h.cached, h.entry⟩⟩
  have hlink := hst.within_iff obj.slabId
  rcases (hst.setDisk (afterResets wiped env fs ndx obj)).destroy_cases hcs hdestroy with
    ⟨hf, hprev, rfl⟩ | ⟨hf, hprev, hne, hcount⟩ | ⟨hf, hne, rfl⟩
  · exact ⟨fun _ => .inl ⟨hfreeable.1 hf, hlink.1 hprev⟩, fun _ h => absurd rfl h⟩
  · -- the object was counted off a slab that cannot be moved
    refine ⟨fun hkept => absurd (hkept hne).refcount hcount, ?_⟩
    rintro (⟨-, hacq⟩ | ⟨hno, -⟩)
    · exact absurd (hlink.2 hacq) hprev
    · exact absurd (hfreeable.1 hf) hno
  · have hno : ¬ Freeable fs obj := fun h => hf (hfreeable.2 h)
    rw [← hst.plain.kept_iff hcs]
    constructor
    · intro hkept
      exact .inr ⟨hno, hkept hne⟩
    · rintro (⟨hyes, -⟩ | ⟨-, hkept⟩) _
      · exact absurd hyes hno
      · exact hkept

/-! ## A zoned device -/

/-- 64 blocks of 512 bytes in zones of eight, with a metadata device -/
def zonedDev : Dev := ⟨2 ^ 15, 512, 2 ^ 17, .zns 8⟩

def zonedMdDev : Dev := ⟨2 ^ 15, 512, 2 ^ 17, .cns⟩

/-- four slabs of two zones each -/
def zonedGeo : Geo := mkfsGeo zonedDev 16 1 4

def zonedStart : Flexalloc where
  vol := .formatted zonedDev true zonedGeo
  dev := zonedDev
  mdDev := zonedMdDev
  pools := flaMkfsPoolSgmtInit zonedGeo
  slabs := flaMkfsSlabSgmtInit zonedGeo
  cache := fun _ => ⟨.stale, none⟩
  disk := 0
  mdDisk := 0

theorem zoned_mounted : Mounted zonedDev zonedMdDev true 1 16 zonedGeo zonedStart :=
  ⟨by decide +kernel, by decide, rfl, ⟨rfl, rfl, rfl, fun _ => rfl⟩, ⟨rfl, rfl⟩⟩

/-- an object is created and a block of ones written to it, then the system is closed and opened again -/
def writtenCalls : List (Env × SessionOp) :=
  [(.reliable, .call (.poolCreate ⟨0, [97], 1, 8, 0, 0⟩)), (.reliable, .call (.objectCreate ⟨0, 0⟩)),
    (.reliable, .write 0 ⟨0, 0⟩ (fun _ => 1) 0 512), (.reliable, .reopen .reliable)]

theorem writtenCalls_exact : ∀ x ∈ writtenCalls, ExactRanges (if true then zonedMdDev else zonedDev) x := by
  intro x hx
  simp only [writtenCalls, List.mem_cons, List.not_mem_nil, or_false] at hx
  rcases hx with rfl | rfl | rfl | rfl
  · trivial
  · trivial
  · trivial
  · exact ⟨reliable_rangesExact _, reliable_offsetsExact _⟩

/-- the striped transfer of an environment in which nothing is striped -/
def noStripe : StrpXfer := fun _ _ b => .ok (0, b)

theorem written_destroy : ∃ fs fs', run (sessionStep 0 noStripe) zonedStart writtenCalls = some fs ∧
    csObjectDestroy .reliable fs 0 ⟨0, 0⟩ = .ok 0 ∧
    destroyObject 0 .reliable fs 0 ⟨0, 0⟩ = .ok (flaSlabCacheInvalidState, fs') ∧
    StoredByte fs 0 ⟨0, 0⟩ 0 ∧ fs.disk 0 = 1 ∧ fs'.disk 0 = 0 := by
  obtain ⟨fs, hrun, hval⟩ := Option.map_eq_some_iff.1 (show (run (sessionStep 0 noStripe) zonedStart writtenCalls).map
    (fun fs => ((csObjectDestroy .reliable fs 0 ⟨0, 0⟩).toOption,
      (destroyObject 0 .reliable fs 0 ⟨0, 0⟩).toOption.map fun r => (r.1, r.2.disk 0),
      (flaObjectSlba fs.vol (fs.pools.entries 0).objNlb ⟨0, 0⟩, flaObjectElba fs.vol (fs.pools.entries 0).objNlb ⟨0, 0⟩),
      fs.disk 0)) = some (some 0, some (flaSlabCacheInvalidState, 0), (0, 8), 1) by decide +kernel)
  simp only [Prod.mk.injEq] at hval
  obtain ⟨hcs, hdestroy, ⟨hslba, helba⟩, hdisk⟩ := hval
  obtain ⟨⟨err, fs'⟩, hdestroy, hr⟩ := Option.map_eq_some_iff.1 hdestroy
  obtain ⟨rfl, hwiped⟩ := Prod.mk.inj hr
  refine ⟨fs, fs', hrun, toOption_eq_some hcs, toOption_eq_some hdestroy, .inl ?_, hdisk, hwiped⟩
  rw [objRange, hslba, helba, Nat.zero_div]
  exact ⟨le_rfl, by decide⟩

/-- right after the reopen, with zones that read as zeros once reset -/
theorem failed_destroy_keeps_iff_written : ∃ fs fs', run (sessionStep 0 noStripe) zonedStart writtenCalls = some fs ∧
    destroyObject 0 .reliable fs 0 ⟨0, 0⟩ = .ok (flaSlabCacheInvalidState, fs') ∧
    ((flaSlabCacheInvalidState ≠ 0 → Kept fs fs' 0 ⟨0, 0⟩) ↔ (Freeable fs ⟨0, 0⟩ ∧ ¬ NeverAcquired zonedGeo fs 0) ∨
      (¬ Freeable fs ⟨0, 0⟩ ∧ Blank 0 fs 0 ⟨0, 0⟩)) := by
  obtain ⟨fs, fs', hrun, hcs, hdestroy, -⟩ := written_destroy
  exact ⟨fs, fs', hrun, hdestroy, failed_destroy_keeps_iff zoned_mounted (by decide) (by decide +kernel)
    writtenCalls_exact hrun hcs hdestroy⟩

/-- **An object is lost by a destroy that fails.** It was written, then the system was closed and opened again; the destroy
returns an error and the first byte of the object reads as erased. -/
theorem failed_destroy_loses : Mounted zonedDev zonedMdDev true 1 16 zonedGeo zonedStart ∧
    ∃ fs fs', run (sessionStep 0 noStripe) zonedStart writtenCalls = some fs ∧ csObjectDestroy .reliable fs 0 ⟨0, 0⟩ = .ok 0 ∧
      destroyObject 0 .reliable fs 0 ⟨0, 0⟩ = .ok (flaSlabCacheInvalidState, fs') ∧ flaSlabCacheInvalidState ≠ 0 ∧
      ¬ Kept fs fs' 0 ⟨0, 0⟩ := by
  obtain ⟨fs, fs', hrun, hcs, hdestroy, hbyte, hbefore, hafter⟩ := written_destroy
  refine ⟨zoned_mounted, fs, fs', hrun, hcs, hdestroy, by decide, fun hkept => ?_⟩
  have hsame := hkept.data 0 hbyte
  rw [hbefore, hafter] at hsame
  exact absurd hsame (by decide)

end FlexAlloc
