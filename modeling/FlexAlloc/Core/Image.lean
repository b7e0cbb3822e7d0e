/-
Structures laid over memory: records of fields, arrays of records, and several of them at their places in a buffer.

- `record`: fields one after another, each least significant byte first; `leNat_record` reads one back.
- `arrayOf`: elements of one size.
- `image`: a list of pieces, each with its start and its size; bytes that belong to no piece are 0. `image_head` and
  `image_tail` read them.
- `Held`: memory that holds some bytes at a place. Pieces that do not overlap are held where they start (`held_image`),
  elements of an array at multiples of their size (`Held.elem`), and a field is read from where its record is held
  (`Held.field`).
-/
import FlexAlloc.Core.Bytes

namespace FlexAlloc.Core

/-- the fields of a structure, each with its width in bytes; what follows the last one is 0 -/
def record : List (ℕ × ℕ) → Bytes
  | [], _ => 0
  | (width, v) :: fields, i => if i < width then byteOf v i else record fields (i - width)

/-- an array of elements of `size` bytes -/
def arrayOf (size : ℕ) (elem : ℕ → Bytes) : Bytes := fun i => elem (i / size) (i % size)

/-- pieces of a buffer: where each starts, its size, and its bytes -/
def image : List (ℕ × ℕ × Bytes) → Bytes
  | [], _ => 0
  | (start, size, b) :: pieces, i => if start ≤ i ∧ i < start + size then b (i - start) else image pieces i

def recordSize (fields : List (ℕ × ℕ)) : ℕ := (fields.map Prod.fst).sum

theorem record_append (pre fields : List (ℕ × ℕ)) (i : ℕ) :
    record (pre ++ fields) (recordSize pre + i) = record fields i := by
  induction pre generalizing i with
  | nil => rw [recordSize, List.map_nil, List.sum_nil, Nat.zero_add, List.nil_append]
  | cons f pre ih =>
    obtain ⟨width, v⟩ := f
    have hsize : recordSize ((width, v) :: pre) = width + recordSize pre := by simp [recordSize]
    rw [hsize, List.cons_append, record, if_neg (by omega), Nat.add_assoc, Nat.add_sub_cancel_left, ih]

/-- **Reading a field back**, from memory that holds the record at `off`. -/
theorem leNat_record {b : Bytes} {off width v : ℕ} (pre post : List (ℕ × ℕ))
    (hb : ∀ i < width, b (off + recordSize pre + i) = record (pre ++ (width, v) :: post) (recordSize pre + i)) :
    leNat b (off + recordSize pre) width = v % 256 ^ width := by
  refine leNat_of_bytes fun i hi => ?_
  rw [hb i hi, record_append, record, if_pos hi]

theorem image_head {start size i : ℕ} (b : Bytes) (pieces : List (ℕ × ℕ × Bytes)) (hi : i < size) :
    image ((start, size, b) :: pieces) (start + i) = b i := by
  rw [image, if_pos (by omega), Nat.add_sub_cancel_left]

theorem image_tail {start size i : ℕ} (b : Bytes) (pieces : List (ℕ × ℕ × Bytes)) (hi : start + size ≤ i) :
    image ((start, size, b) :: pieces) i = image pieces i := by
  rw [image, if_neg (by omega)]

/-! ## Memory that holds a structure -/

/-- the `size` bytes of `b` from `off` on are those of `c` -/
def Held (b : Bytes) (off size : ℕ) (c : Bytes) : Prop := ∀ i < size, b (off + i) = c i

theorem Held.of_eq {b b' c : Bytes} {off size : ℕ} (h : Held b off size c)
    (heq : ∀ i < size, b' (off + i) = b (off + i)) : Held b' off size c := fun i hi => (heq i hi).trans (h i hi)

/-- **Reading field `j`** of a record that is held. -/
theorem Held.field {b : Bytes} {off size : ℕ} {fields : List (ℕ × ℕ)} (h : Held b off size (record fields)) (j : ℕ)
    {width v o : ℕ} (hj : fields[j]? = some (width, v)) (ho : recordSize (fields.take j) = o) (hsize : o + width ≤ size) :
    leNat b (off + o) width = v % 256 ^ width := by
  subst ho
  obtain ⟨hlt, hget⟩ := List.getElem?_eq_some_iff.1 hj
  have hsplit : fields = fields.take j ++ (width, v) :: fields.drop (j + 1) := by
    rw [← hget, List.getElem_cons_drop, List.take_append_drop]
  refine leNat_record (fields.take j) (fields.drop (j + 1)) fun i hi => ?_
  rw [← hsplit, Nat.add_assoc]
  exact h _ (by omega)

/-- **Elements of an array** that is held. -/
theorem Held.elem {b : Bytes} {off size n : ℕ} {elem : ℕ → Bytes} (h : Held b off (n * size) (arrayOf size elem)) {s : ℕ}
    (hs : s < n) : Held b (off + s * size) size (elem s) := by
  intro i hi
  have hlt : s * size + i < n * size := by
    calc s * size + i < s * size + size := by omega
      _ = (s + 1) * size := by ring
      _ ≤ n * size := Nat.mul_le_mul_right _ hs
  have hpos : 0 < size := by omega
  rw [Nat.add_assoc, h _ hlt, arrayOf, Nat.add_comm, Nat.add_mul_div_right _ _ hpos, Nat.add_mul_mod_self_right,
    Nat.div_eq_of_lt hi, Nat.mod_eq_of_lt hi, Nat.zero_add]

/-- **Pieces** that lie one after another are held where they start. -/
theorem held_image {pieces : List (ℕ × ℕ × Bytes)} (hp : pieces.Pairwise fun x y => x.1 + x.2.1 ≤ y.1)
    {start size : ℕ} {c : Bytes} (hm : (start, size, c) ∈ pieces) : Held (image pieces) start size c := by
  induction pieces with
  | nil => cases hm
  | cons p pieces ih =>
    obtain ⟨hfirst, hrest⟩ := List.pairwise_cons.1 hp
    intro i hi
    rcases List.mem_cons.1 hm with rfl | hlater
    · exact image_head c pieces hi
    · have hle := hfirst _ hlater
      obtain ⟨start', size', c'⟩ := p
      dsimp only at hle
      rw [image_tail c' pieces (by omega)]
      exact ih hrest hlater i hi

theorem held_zip {places : List (ℕ × ℕ)} {contents : List Bytes} (hp : places.Pairwise fun x y => x.1 + x.2 ≤ y.1)
    (j : ℕ) {start size : ℕ} {c : Bytes} (hplace : places[j]? = some (start, size)) (hc : contents[j]? = some c) :
    Held (image (List.zipWith (fun r b => (r.1, r.2, b)) places contents)) start size c := by
  have hpair : (List.zipWith (fun r b => (r.1, r.2, b)) places contents).Pairwise
      fun (x y : ℕ × ℕ × Bytes) => x.1 + x.2.1 ≤ y.1 := by
    clear hplace hc
    induction places generalizing contents with
    | nil => exact List.Pairwise.nil
    | cons r places ih =>
      obtain ⟨hfirst, hrest⟩ := List.pairwise_cons.1 hp
      cases contents with
      | nil => exact List.Pairwise.nil
      | cons b contents =>
        refine List.pairwise_cons.2 ⟨fun y hy => ?_, ih hrest⟩
        obtain ⟨i, hi, rfl⟩ := List.mem_iff_getElem.1 hy
        rw [List.getElem_zipWith]
        exact hfirst _ (List.getElem_mem _)
  refine held_image hpair (List.mem_iff_getElem?.2 ⟨j, ?_⟩)
  rw [List.getElem?_zipWith, hplace, hc]

end FlexAlloc.Core
