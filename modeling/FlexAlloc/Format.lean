/-
What `fla_mkfs` writes and `fla_open` finds again, and what fits on a metadata device.

`mdRanges` is where `fla_init` and `fla_pool_init` put each structure in the buffer that holds the metadata. `MdFits`
says that a metadata device holds all that is later stored on it.

- `open_reconstructs`: the geometry computed at open from the super block is the one mkfs computed, for every geometry
  mkfs accepts, and the structures lie one after another inside the buffer.
- `md_dev_fits_iff`: with a metadata device, an accepted geometry fits on it if and only if it has as many blocks as the
  data device asks for. `md_dev_too_small`: mkfs never looks, and accepts one block.
-/
import FlexAlloc.Capacity

namespace FlexAlloc

/-! ## The metadata buffer -/

def flaGeoNbytes (geo : Geo) : ℕ := flaGeoNblocks geo * geo.lbNbytes

def flaGeoPoolSgmtOff (geo : Geo) : ℕ := geo.lbNbytes * geo.mdNlb

def flaGeoSlabSgmtOff (geo : Geo) : ℕ := u64 (geo.lbNbytes * flaGeoSlabSgmtLbOff geo)

/-- the start and the size in bytes of the super block, the pool freelist, the hash table header, its slots, the pool
entries, the slab headers, and the free count, head and tail, as `fla_init` and `fla_pool_init` place them -/
def mdRanges (geo : Geo) : List (ℕ × ℕ) :=
  let pools := flaGeoPoolSgmtOff geo
  let htbl := pools + u32 (geo.lbNbytes * geo.poolSgmt.freelistNlb)
  let entries := pools + u32 (geo.lbNbytes * u32 (geo.poolSgmt.freelistNlb + geo.poolSgmt.htblNlb))
  let headers := flaGeoSlabSgmtOff geo
  let tail := headers + u32 (geo.slabSgmtNlb * geo.lbNbytes)
  [(0, sizeofFlaSuper),
   (pools, flaFlistSize geo.npools),
   (htbl, sizeofFlaPoolHtblHeader),
   (htbl + sizeofFlaPoolHtblHeader, geo.poolSgmt.htblTblSize * sizeofFlaHtblEntry),
   (entries, geo.npools * sizeofFlaPoolEntry),
   (headers, geo.nslabs * sizeofFlaSlabHeader),
   (tail - 12, 4), (tail - 8, 4), (tail - 4, 4)]

/-- the structures lie one after another, inside the buffer -/
def Arranged (geo : Geo) : Prop :=
  (mdRanges geo).Pairwise (fun a b => a.1 + a.2 ≤ b.1) ∧ ∀ r ∈ mdRanges geo, r.1 + r.2 ≤ flaGeoNbytes geo

/-- when all blocks of metadata are fewer than 2^32 bytes, no 32-bit offset wraps -/
theorem mdRanges_eq {geo : Geo} (hlb : 0 < geo.lbNbytes) (hsmall : geo.lbNbytes * geo.mdBlocks < 2 ^ 32) :
    let lb := geo.lbNbytes
    let pools := lb * geo.mdNlb
    let htbl := pools + lb * geo.poolSgmt.freelistNlb
    let entries := htbl + lb * geo.poolSgmt.htblNlb
    let headers := entries + lb * geo.poolSgmt.entriesNlb
    let tail := headers + lb * geo.slabSgmtNlb
    flaGeoNbytes geo = tail ∧ mdRanges geo =
      [(0, sizeofFlaSuper), (pools, flaFlistSize geo.npools), (htbl, sizeofFlaPoolHtblHeader),
       (htbl + sizeofFlaPoolHtblHeader, geo.poolSgmt.htblTblSize * sizeofFlaHtblEntry),
       (entries, geo.npools * sizeofFlaPoolEntry), (headers, geo.nslabs * sizeofFlaSlabHeader),
       (tail - 12, 4), (tail - 8, 4), (tail - 4, 4)] := by
  dsimp only
  have hblocks : geo.mdBlocks < 2 ^ 32 := (Nat.le_mul_of_pos_left _ hlb).trans_lt hsmall
  unfold Geo.mdBlocks at hblocks
  have hpool : flaGeoPoolSgmtNblocks geo.poolSgmt =
      geo.poolSgmt.freelistNlb + geo.poolSgmt.htblNlb + geo.poolSgmt.entriesNlb := u32_of_lt (by omega)
  have hnblocks : flaGeoNblocks geo = geo.mdBlocks := by
    rw [flaGeoNblocks, hpool, Geo.mdBlocks, u32_of_lt (by omega)]
    omega
  have hmul : geo.lbNbytes * geo.mdBlocks = geo.lbNbytes * geo.mdNlb + geo.lbNbytes * geo.poolSgmt.freelistNlb +
      geo.lbNbytes * geo.poolSgmt.htblNlb + geo.lbNbytes * geo.poolSgmt.entriesNlb + geo.lbNbytes * geo.slabSgmtNlb := by
    rw [Geo.mdBlocks]
    ring
  rw [hmul] at hsmall
  have hheaders : flaGeoSlabSgmtOff geo = geo.lbNbytes * geo.mdNlb + geo.lbNbytes * geo.poolSgmt.freelistNlb +
      geo.lbNbytes * geo.poolSgmt.htblNlb + geo.lbNbytes * geo.poolSgmt.entriesNlb := by
    rw [flaGeoSlabSgmtOff, flaGeoSlabSgmtLbOff, hpool]
    simp only [Nat.mul_add, ← Nat.add_assoc]
    exact u64_of_lt (by omega)
  have hfree : u32 (geo.lbNbytes * geo.poolSgmt.freelistNlb) = geo.lbNbytes * geo.poolSgmt.freelistNlb :=
    u32_of_lt (by omega)
  have hentries : u32 (geo.lbNbytes * u32 (geo.poolSgmt.freelistNlb + geo.poolSgmt.htblNlb)) =
      geo.lbNbytes * geo.poolSgmt.freelistNlb + geo.lbNbytes * geo.poolSgmt.htblNlb := by
    rw [u32_of_lt (n := geo.poolSgmt.freelistNlb + geo.poolSgmt.htblNlb) (by omega), Nat.mul_add, u32_of_lt (by omega)]
  have hslab : u32 (geo.slabSgmtNlb * geo.lbNbytes) = geo.lbNbytes * geo.slabSgmtNlb := by
    rw [Nat.mul_comm, u32_of_lt (by omega)]
  refine ⟨by rw [flaGeoNbytes, hnblocks, Nat.mul_comm, hmul], ?_⟩
  simp only [mdRanges, flaGeoPoolSgmtOff, hheaders, hfree, hentries, hslab, ← Nat.add_assoc]

theorem Geo.arranged {geo : Geo} (hlb : 0 < geo.lbNbytes) (hsmall : geo.lbNbytes * geo.mdBlocks < 2 ^ 32)
    (hsuper : sizeofFlaSuper ≤ geo.lbNbytes * geo.mdNlb)
    (hfree : flaFlistSize geo.npools ≤ geo.lbNbytes * geo.poolSgmt.freelistNlb)
    (hhtbl : sizeofFlaPoolHtblHeader + geo.poolSgmt.htblTblSize * sizeofFlaHtblEntry ≤
      geo.lbNbytes * geo.poolSgmt.htblNlb)
    (hentries : geo.npools * sizeofFlaPoolEntry ≤ geo.lbNbytes * geo.poolSgmt.entriesNlb)
    (hslabs : geo.nslabs * sizeofFlaSlabHeader + 12 ≤ geo.lbNbytes * geo.slabSgmtNlb) : Arranged geo := by
  obtain ⟨hbytes, hranges⟩ := mdRanges_eq hlb hsmall
  refine ⟨?_, ?_⟩
  · rw [hranges]
    simp only [List.pairwise_cons, List.mem_cons, List.not_mem_nil, or_false, forall_eq_or_imp, forall_eq,
      IsEmpty.forall_iff, implies_true, List.Pairwise.nil, and_true]
    omega
  · rw [hranges, hbytes]
    simp only [List.mem_cons, List.not_mem_nil, or_false, forall_eq_or_imp, forall_eq]
    omega

/-- what mkfs sets aside for each structure is enough for it -/
theorem mkfsGeo_arranged {dev : Dev} {slabNlb p n : ℕ} (hlb : 512 ≤ dev.lbNbytes) (hn : n < 2 ^ 32) (hp : 0 < min p n)
    (hbytes : flaGeoNbytes (mkfsGeo dev slabNlb p n) < 2 ^ 32) : Arranged (mkfsGeo dev slabNlb p n) := by
  have hk32 : min p n < 2 ^ 32 := (min_le_right p n).trans_lt hn
  obtain ⟨hfree, hhtbl, hentries, -, -, -⟩ := poolSgmt_parts hlb hk32
  obtain ⟨-, hpool31, -⟩ := poolBlocks_bounds hlb hk32 hp
  obtain ⟨-, hslab28⟩ := slabSgmt_bounds hlb hn
  have hmd := mdNlb_eq hlb
  have hpos : 0 < dev.lbNbytes := by omega
  have hslab : flaSlabSgmtCalc n dev.lbNbytes = flaCeilDiv (n * sizeofFlaSlabHeader + 12) dev.lbNbytes := by
    refine u32_of_lt ((ceilDiv_le_512 hlb _).trans_lt ?_)
    unfold flaCeilDiv sizeofFlaSlabHeader
    omega
  have hblocks : flaGeoNblocks (mkfsGeo dev slabNlb p n) = (mkfsGeo dev slabNlb p n).mdBlocks := by
    have hparts := poolBlocks_eq hlb hk32
    show u32 (u32 (flaCeilDiv sizeofFlaSuper dev.lbNbytes) + poolBlocks (min p n) dev.lbNbytes +
      flaSlabSgmtCalc n dev.lbNbytes) = u32 (flaCeilDiv sizeofFlaSuper dev.lbNbytes) +
      (flaGeoPoolSgmtCalc (min p n) dev.lbNbytes).freelistNlb + (flaGeoPoolSgmtCalc (min p n) dev.lbNbytes).htblNlb +
      (flaGeoPoolSgmtCalc (min p n) dev.lbNbytes).entriesNlb + flaSlabSgmtCalc n dev.lbNbytes
    rw [hmd, u32_of_lt (by omega), hparts, hfree, hhtbl, hentries]
    omega
  rw [flaGeoNbytes, hblocks, Nat.mul_comm] at hbytes
  refine Geo.arranged hpos hbytes ?_ ?_ ?_ ?_ ?_
  · show 32 ≤ dev.lbNbytes * u32 (flaCeilDiv sizeofFlaSuper dev.lbNbytes)
    rw [hmd]
    omega
  · exact (le_ceilDiv_mul hpos _).trans_eq (congrArg (dev.lbNbytes * ·) hfree.symm)
  · exact (le_ceilDiv_mul hpos _).trans_eq (congrArg (dev.lbNbytes * ·) hhtbl.symm)
  · exact (le_ceilDiv_mul hpos _).trans_eq (congrArg (dev.lbNbytes * ·) hentries.symm)
  · exact (le_ceilDiv_mul hpos _).trans_eq (congrArg (dev.lbNbytes * ·) hslab.symm)

/-- the super block says all there is to an accepted geometry -/
theorem accepted_fromSuper {dev : Dev} {hasMd : Bool} {npools slabNlb : ℕ} {geo : Geo}
    (h : flaMkfsGeoCalc dev hasMd npools slabNlb = .ok (0, geo)) : flaGeoFromSuper dev (flaMkfsSuperInit geo) = geo := by
  obtain ⟨-, -, a, p, n, -, -, -, -, -, -, -, rfl⟩ := mkfsGeoCalc_accepts h
  rfl

theorem accepted_arranged {dev : Dev} {hasMd : Bool} {npools slabNlb : ℕ} {geo : Geo}
    (h : flaMkfsGeoCalc dev hasMd npools slabNlb = .ok (0, geo)) (hlb : 512 ≤ geo.lbNbytes)
    (hbytes : flaGeoNbytes geo < 2 ^ 32) : Arranged geo := by
  obtain ⟨hpos, -, hn32, -⟩ := accepted_bounds h
  obtain ⟨-, -, a, p, n, -, -, -, -, -, -, -, rfl⟩ := mkfsGeoCalc_accepts h
  exact mkfsGeo_arranged hlb hn32 hpos hbytes

/-- **Open reconstructs the layout.** Every geometry mkfs accepts, with or without a metadata device, has at least one
pool and no more pools than slabs, and is computed again from its super block; the structures of the metadata lie in
order, apart from each other and inside the buffer. -/
theorem open_reconstructs {dev : Dev} {hasMd : Bool} {npools slabNlb : ℕ} {geo : Geo}
    (h : flaMkfsGeoCalc dev hasMd npools slabNlb = .ok (0, geo)) :
    1 ≤ geo.npools ∧ geo.npools ≤ geo.nslabs ∧ flaGeoFromSuper dev (flaMkfsSuperInit geo) = geo ∧
      (512 ≤ geo.lbNbytes → flaGeoNbytes geo < 2 ^ 32 → Arranged geo) := by
  obtain ⟨hpos, hle, -⟩ := accepted_bounds h
  exact ⟨hpos, hle, accepted_fromSuper h, accepted_arranged h⟩

/-- eight slabs and as many pools, with a metadata device -/
theorem open_reconstructs_small : ∃ geo, flaMkfsGeoCalc smallDev true 0 8 = .ok (0, geo) ∧ 1 ≤ geo.npools ∧
    flaGeoFromSuper smallDev (flaMkfsSuperInit geo) = geo ∧ Arranged geo := by
  have haccept : flaMkfsGeoCalc smallDev true 0 8 = .ok (0, mkfsGeo smallDev 8 8 8) := by decide +kernel
  obtain ⟨hp, -, hsuper, harr⟩ := open_reconstructs haccept
  exact ⟨_, haccept, hp, hsuper, harr (by decide) (by decide +kernel)⟩

/-! ## Metadata devices -/

/-- a volume with its metadata on a device of its own -/
def Volume.withMd (geo : Geo) (cs : Cs) : Volume := ⟨geo, flaMkfsSuperInit geo, true, cs⟩

/-- a metadata device of `mdNlb` blocks has room for the metadata and one block of freelist for each slab, and the data
device for the slabs -/
def MdFits (dev : Dev) (mdNlb : ℕ) (geo : Geo) : Prop :=
  geo.mdBlocks + geo.nslabs ≤ mdNlb ∧ (∀ s < geo.nslabs, cacheEntryLbSlba (.withMd geo dev.cs) s 1 < mdNlb) ∧
    geo.nslabs * geo.slabNlb ≤ dev.tbytes / dev.lbNbytes

/-- the blocks a data device asks for on its metadata device: super block, pools, slab headers, and one freelist block for
each slab -/
def mdNeed (dev : Dev) (npools slabNlb : ℕ) : ℕ :=
  let nslabs := u32 (dev.tbytes / dev.lbNbytes / slabNlb)
  let pools := flaGeoPoolSgmtCalc (if npools = 0 then nslabs else npools) dev.lbNbytes
  u32 (flaCeilDiv sizeofFlaSuper dev.lbNbytes) + pools.freelistNlb + pools.htblNlb + pools.entriesNlb +
    flaSlabSgmtCalc nslabs dev.lbNbytes + nslabs

/-- with a metadata device every whole slab of the data device is used, or none -/
theorem mkfsNslabs_md {nlb used slabNlb lbNbytes : ℕ} (h : mkfsNslabs true nlb used slabNlb lbNbytes ≠ 0) :
    mkfsNslabs true nlb used slabNlb lbNbytes = u32 (nlb / slabNlb) := by
  unfold mkfsNslabs flaNslabsMaxMddev at h ⊢
  rw [if_pos rfl] at h ⊢
  dsimp only at h ⊢
  split_ifs at h ⊢
  · rfl
  · exact absurd rfl h

/-- **Metadata devices.** What mkfs accepts fits on the metadata device exactly when that has the blocks the data device
asks for; mkfs does not look at its size. -/
theorem md_dev_fits_iff {dev : Dev} {npools slabNlb : ℕ} {geo : Geo}
    (h : flaMkfsGeoCalc dev true npools slabNlb = .ok (0, geo)) (mdNlb : ℕ) :
    MdFits dev mdNlb geo ↔ mdNeed dev npools slabNlb ≤ mdNlb := by
  obtain ⟨-, -, a, p, n, ha, hnpa, hn, -, hadef, hp, hndef, rfl⟩ := mkfsGeoCalc_accepts h
  have ha' : a = u32 (dev.tbytes / dev.lbNbytes / slabNlb) := by
    rw [hadef]
    exact mkfsNslabs_md (by rw [← hadef]; omega)
  have hn' : n = u32 (dev.tbytes / dev.lbNbytes / slabNlb) := by
    rw [hndef]
    exact mkfsNslabs_md (by rw [← hndef]; omega)
  have hpn : min p n = p := by
    refine min_eq_left ?_
    rw [hp]
    split_ifs <;> omega
  have hneed : mdNeed dev npools slabNlb = (mkfsGeo dev slabNlb p n).mdBlocks + n := by
    unfold mdNeed Geo.mdBlocks mkfsGeo
    rw [hpn, ← hn', hp, ha', ← hn']
  rw [hneed]
  constructor
  · intro hfits
    exact hfits.1
  · intro hle
    refine ⟨hle, fun s hs => ?_, ?_⟩
    · have hoff : flaGeoSlabsLbOff (mkfsGeo dev slabNlb p n) ≤ (mkfsGeo dev slabNlb p n).mdBlocks := by
        have hwrap : flaGeoPoolSgmtNblocks (mkfsGeo dev slabNlb p n).poolSgmt ≤ _ := u32_le _
        unfold flaGeoSlabsLbOff flaGeoSlabSgmtLbOff Geo.mdBlocks
        omega
      have hs' : s < n := hs
      show flaGeoSlabsLbOff (mkfsGeo dev slabNlb p n) + s < mdNlb
      omega
    · show n * slabNlb ≤ dev.tbytes / dev.lbNbytes
      rw [hn']
      exact (Nat.mul_le_mul_right _ (u32_le _)).trans (Nat.div_mul_le_self _ _)

/-- 64 blocks of 512 bytes need 13 blocks on the metadata device for eight slabs and one pool -/
theorem md_dev_fits_small : ∃ geo, flaMkfsGeoCalc smallDev true 1 8 = .ok (0, geo) ∧ MdFits smallDev 13 geo ∧
    ¬ MdFits smallDev 12 geo := by
  have haccept : flaMkfsGeoCalc smallDev true 1 8 = .ok (0, mkfsGeo smallDev 8 1 8) := by decide +kernel
  exact ⟨_, haccept, (md_dev_fits_iff haccept 13).2 (by decide +kernel),
    fun h => absurd ((md_dev_fits_iff haccept 12).1 h) (by decide +kernel)⟩

/-- a metadata device of one block is accepted for eight slabs -/
theorem md_dev_too_small : ∃ geo, flaMkfsGeoCalc smallDev true 1 8 = .ok (0, geo) ∧ ¬ MdFits smallDev 1 geo := by
  refine ⟨mkfsGeo smallDev 8 1 8, by decide +kernel, fun h => ?_⟩
  exact absurd h.1 (by decide +kernel)

end FlexAlloc
