/-
The free count, head and tail at the end of the slab segment: where mkfs writes them and where open looks for them.

Both take the start of the slab segment, add its size in bytes and step back 12, 8 and 4 bytes. mkfs computes the size in
64 bits (`fla_mkfs_slab_sgmt_init` widens one factor); `fla_init` multiplies two `uint32_t`.

- `counters_agree_iff`: for every geometry mkfs accepts, the places agree, past the last header and inside the segment, if
  and only if the segment has fewer than 2^32 bytes.
- `counters_apart`: 180000000 slabs of one block each.
-/
import FlexAlloc.Open

namespace FlexAlloc

open FlexAlloc.Core

/-- where the three counters are in the metadata buffer -/
structure CounterPlaces where
  num : ℕ
  head : ℕ
  tail : ℕ
deriving DecidableEq, Repr

/-- the last three words before `stop` -/
def countersBefore (stop : ℕ) : CounterPlaces := ⟨stop - 12, stop - 8, stop - 4⟩

/-- `fla_mkfs_slab_sgmt_init`: `slab_sgmt_nbytes` is a `uint64_t` -/
def flaMkfsCounters (geo : Geo) : CounterPlaces :=
  countersBefore (flaGeoSlabSgmtOff geo + u64 (geo.lbNbytes * geo.slabSgmtNlb))

/-- `fla_init`: the product is a `uint32_t` -/
def flaInitCounters (geo : Geo) : CounterPlaces :=
  countersBefore (flaGeoSlabSgmtOff geo + u32 (geo.slabSgmtNlb * geo.lbNbytes))

/-- what an open reads is what lies at the places of `fla_init` -/
theorem slabsAt_counters (geo : Geo) (b : Bytes) :
    (slabsAt geo b).fslabNum = leNat b (flaInitCounters geo).num 4 ∧
      (slabsAt geo b).fslabHead = leNat b (flaInitCounters geo).head 4 ∧
      (slabsAt geo b).fslabTail = leNat b (flaInitCounters geo).tail 4 := ⟨rfl, rfl, rfl⟩

/-- open finds the counters where mkfs put them, one after another behind the last header and inside the segment -/
structure CountersAgree (geo : Geo) : Prop where
  same : flaInitCounters geo = flaMkfsCounters geo
  past : flaGeoSlabSgmtOff geo + geo.nslabs * sizeofFlaSlabHeader ≤ (flaInitCounters geo).num
  order : (flaInitCounters geo).num + 4 ≤ (flaInitCounters geo).head ∧
    (flaInitCounters geo).head + 4 ≤ (flaInitCounters geo).tail
  inside : (flaInitCounters geo).tail + 4 ≤ flaGeoSlabSgmtOff geo + geo.lbNbytes * geo.slabSgmtNlb

/-- the bytes of the slab headers and the counters, rounded up to whole blocks -/
def slabSgmtNbytes (geo : Geo) : ℕ :=
  geo.lbNbytes * flaCeilDiv (geo.nslabs * sizeofFlaSlabHeader + 12) geo.lbNbytes

section Agree

variable {geo : Geo} (hlb : 0 < geo.lbNbytes) (hn : 0 < geo.nslabs)
variable (hcalc : geo.slabSgmtNlb = flaSlabSgmtCalc geo.nslabs geo.lbNbytes)

include hlb hcalc

theorem agree_of_small (hsmall : slabSgmtNbytes geo < 2 ^ 32) : CountersAgree geo := by
  have hblocks : flaCeilDiv (geo.nslabs * sizeofFlaSlabHeader + 12) geo.lbNbytes < 2 ^ 32 :=
    (Nat.le_mul_of_pos_left _ hlb).trans_lt hsmall
  have hsize : geo.lbNbytes * geo.slabSgmtNlb = slabSgmtNbytes geo := by
    rw [hcalc, flaSlabSgmtCalc, u32_of_lt hblocks, slabSgmtNbytes]
  have hroom : geo.nslabs * sizeofFlaSlabHeader + 12 ≤ slabSgmtNbytes geo := le_ceilDiv_mul hlb _
  have h32 : u32 (geo.slabSgmtNlb * geo.lbNbytes) = slabSgmtNbytes geo := by
    rw [Nat.mul_comm, hsize, u32_of_lt hsmall]
  have h64 : u64 (slabSgmtNbytes geo) = slabSgmtNbytes geo := u64_of_lt (hsmall.trans (by norm_num))
  constructor <;> simp only [flaInitCounters, flaMkfsCounters, countersBefore, h32, h64, hsize] <;> omega

include hn

theorem CountersAgree.small (hlb32 : geo.lbNbytes < 2 ^ 32) (h : CountersAgree geo) : slabSgmtNbytes geo < 2 ^ 32 := by
  have hblocks32 : geo.slabSgmtNlb < 2 ^ 32 := hcalc ▸ u32_lt _
  have h64 : u64 (geo.lbNbytes * geo.slabSgmtNlb) = geo.lbNbytes * geo.slabSgmtNlb := by
    apply u64_of_lt
    calc geo.lbNbytes * geo.slabSgmtNlb < 2 ^ 32 * 2 ^ 32 := Nat.mul_lt_mul'' hlb32 hblocks32
      _ = 2 ^ 64 := by norm_num
  have hpast := h.past
  have hnum : (flaInitCounters geo).num = (flaMkfsCounters geo).num := congrArg CounterPlaces.num h.same
  have hu32 := u32_lt (geo.slabSgmtNlb * geo.lbNbytes)
  have hheaders : 0 < geo.nslabs * sizeofFlaSlabHeader := Nat.mul_pos hn (by decide)
  simp only [flaInitCounters, flaMkfsCounters, countersBefore, h64] at hpast hnum
  -- mkfs' product did not wrap, so open's did not either
  have hsame : geo.lbNbytes * geo.slabSgmtNlb < 2 ^ 32 := by omega
  -- the headers fit the blocks of the segment, so the number of blocks did not wrap
  have hfits : geo.nslabs * sizeofFlaSlabHeader + 12 ≤ geo.lbNbytes * geo.slabSgmtNlb := by omega
  have hceil : flaCeilDiv (geo.nslabs * sizeofFlaSlabHeader + 12) geo.lbNbytes ≤ geo.slabSgmtNlb := by
    apply Nat.le_of_lt_succ
    rw [flaCeilDiv, Nat.div_lt_iff_lt_mul hlb, Nat.succ_mul, Nat.mul_comm geo.slabSgmtNlb]
    omega
  exact (Nat.mul_le_mul_left _ hceil).trans_lt hsame

end Agree

/-- **mkfs and open agree on the counters** exactly when the slab segment has fewer than 2^32 bytes. -/
theorem counters_agree_iff {dev : Dev} {hasMd : Bool} {npools slabNlb : ℕ} {geo : Geo} (hlb : dev.lbNbytes < 2 ^ 32)
    (h : flaMkfsGeoCalc dev hasMd npools slabNlb = .ok (0, geo)) : CountersAgree geo ↔ slabSgmtNbytes geo < 2 ^ 32 := by
  obtain ⟨hpos, -, a, p, n, -, -, hn, -, -, -, -, rfl⟩ := mkfsGeoCalc_accepts h
  constructor
  · intro hagree
    exact hagree.small hpos hn rfl hlb
  · intro hsmall
    exact agree_of_small hpos rfl hsmall

/-- eight slabs on 64 blocks -/
theorem counters_agree_small : ∃ geo, flaMkfsGeoCalc smallDev true 0 8 = .ok (0, geo) ∧ CountersAgree geo := by
  have haccept : flaMkfsGeoCalc smallDev true 0 8 = .ok (0, mkfsGeo smallDev 8 8 8) := by decide +kernel
  exact ⟨_, haccept, (counters_agree_iff (by decide) haccept).2 (by decide +kernel)⟩

/-- a device of 180000000 blocks of 512 bytes -/
def manyDev : Dev := ⟨512 * 180000000, 512, 4096, .cns⟩

/-- **The counters are apart.** With slabs of one block, and the metadata on a device of its own, the slab segment has more
than 2^32 bytes: open looks for the counters among the slab headers. -/
theorem counters_apart : ∃ geo, flaMkfsGeoCalc manyDev true 1 1 = .ok (0, geo) ∧ geo.nslabs = 180000000 ∧
    (flaInitCounters geo).tail + 4 < flaGeoSlabSgmtOff geo + geo.nslabs * sizeofFlaSlabHeader ∧ ¬ CountersAgree geo := by
  have haccept : flaMkfsGeoCalc manyDev true 1 1 = .ok (0, mkfsGeo manyDev 1 1 180000000) := by decide +kernel
  exact ⟨_, haccept, rfl, by decide +kernel, fun h => absurd h.past (by decide +kernel)⟩

end FlexAlloc
