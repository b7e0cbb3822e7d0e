/-
Byte streams that are read in pieces.

A call that reads from a stream delivers some of the bytes that are there: at least one and at most as many as were
asked for, and none at the end of the stream. Or it fails, and delivers nothing. A `Delivery` is what one such call does,
whatever the stream holds and however much is asked for, so that every list of deliveries is one a stream can make.

- `Delivery.bytes`, `Delivery.ret`: what arrives, and the value returned.
- `ret_pos_iff`, `ret_eq_iff`: when something arrives, and when all that was asked for does.
- `store`: bytes put in memory; `store_append` puts two pieces that follow each other.
-/
import FlexAlloc.Core.Bytes

namespace FlexAlloc.Core

/-- one call that reads: at most `k + 1` bytes, or a failure with that error number -/
inductive Delivery where
  | upTo (k : ℕ)
  | fail (errno : {e : ℤ // 0 < e})
deriving DecidableEq

namespace Delivery

/-- the bytes that arrive when `want` are asked for -/
def bytes (want : ℕ) (stream : List UInt8) : Delivery → List UInt8
  | .upTo k => stream.take (min want (k + 1))
  | .fail _ => []

/-- the value returned: the number of bytes, or -1 -/
def ret (want : ℕ) (stream : List UInt8) (d : Delivery) : ℤ :=
  match d with
  | .upTo _ => (d.bytes want stream).length
  | .fail _ => -1

/-- the error number after the call: one that delivers leaves it alone -/
def errno (old : ℤ) : Delivery → ℤ
  | .upTo _ => old
  | .fail e => e

variable {want : ℕ} {stream : List UInt8} {d : Delivery}

theorem bytes_length_le : (d.bytes want stream).length ≤ want := by
  cases d with
  | upTo k =>
    rw [bytes, List.length_take]
    omega
  | fail e => exact Nat.zero_le _

theorem bytes_append_drop : d.bytes want stream ++ stream.drop (d.bytes want stream).length = stream := by
  cases d with
  | upTo k =>
    rw [bytes, List.length_take]
    rcases Nat.le_total (min want (k + 1)) stream.length with h | h
    · rw [Nat.min_eq_left h, List.take_append_drop]
    · rw [Nat.min_eq_right h, List.take_of_length_le h, List.drop_length, List.append_nil]
  | fail e => rfl

theorem ret_upTo (k : ℕ) : (upTo k).ret want stream = (min (min want (k + 1)) stream.length : ℕ) := by
  rw [ret, bytes, List.length_take]

theorem ret_pos_iff (hwant : 0 < want) : 0 < d.ret want stream ↔ 0 < stream.length ∧ ∃ k, d = .upTo k := by
  cases d with
  | upTo k =>
    rw [ret_upTo]
    simp
    omega
  | fail e => simp [ret]

theorem ret_eq_iff : d.ret want stream = want ↔ want ≤ stream.length ∧ ∃ k, d = .upTo k ∧ want ≤ k + 1 := by
  cases d with
  | upTo k =>
    rw [ret_upTo]
    simp
    omega
  | fail e =>
    simp [ret]

theorem bytes_of_ret_eq (h : d.ret want stream = want) : d.bytes want stream = stream.take want := by
  obtain ⟨-, k, rfl, hk⟩ := ret_eq_iff.1 h
  rw [bytes, Nat.min_eq_left hk]

theorem length_of_ret {n : ℕ} (h : d.ret want stream = n) : (d.bytes want stream).length = n := by
  cases d with
  | upTo k =>
    have hlen : (((upTo k).bytes want stream).length : ℤ) = n := h
    exact_mod_cast hlen
  | fail e => simp [ret] at h

end Delivery

/-! ## Bytes put in memory -/

def store (b : Bytes) (off : ℕ) (bs : List UInt8) : Bytes := fun i =>
  if off ≤ i then bs.getD (i - off) (b i) else b i

variable {b : Bytes} {off i : ℕ} {bs bs' : List UInt8}

@[simp] theorem store_nil (b : Bytes) (off : ℕ) : store b off [] = b := by
  funext i
  simp [store]

theorem store_of_lt (h : i < off) : store b off bs i = b i := if_neg (by omega)

theorem store_of_le (h : off + bs.length ≤ i) : store b off bs i = b i := by
  have hlen : bs.length ≤ i - off := by omega
  simp [store, hlen]

theorem store_at (b : Bytes) (off : ℕ) (h : i < bs.length) : store b off bs (off + i) = bs[i] := by
  simp [store, h]

/-- **Two pieces** that follow each other are one. -/
theorem store_append (b : Bytes) (off : ℕ) (bs bs' : List UInt8) :
    store (store b off bs) (off + bs.length) bs' = store b off (bs ++ bs') := by
  funext i
  by_cases h1 : i < off
  · rw [store_of_lt (by omega), store_of_lt h1, store_of_lt h1]
  obtain ⟨j, rfl⟩ : ∃ j, i = off + j := ⟨i - off, by omega⟩
  by_cases h2 : j < bs.length
  · rw [store_of_lt (by omega), store_at _ _ h2, store_at _ _ (by simp; omega), List.getElem_append_left h2]
  by_cases h3 : j < bs.length + bs'.length
  · obtain ⟨m, rfl⟩ : ∃ m, j = bs.length + m := ⟨j - bs.length, by omega⟩
    have hm : m < bs'.length := by omega
    rw [← Nat.add_assoc, store_at _ _ hm, Nat.add_assoc, store_at _ _ (by simp; omega),
      List.getElem_append_right (by omega)]
    simp
  · rw [store_of_le (by omega), store_of_le (by omega), store_of_le (by simp; omega)]

theorem leNat_store {k : ℕ} (hk : i + k ≤ bs.length) (b : Bytes) (off : ℕ) :
    leNat (store b off bs) (off + i) k = leNat (store 0 0 bs) i k := by
  refine leNat_congr fun j hj => ?_
  have hlt : i + j < bs.length := by omega
  have hzero := store_at 0 0 hlt
  rw [Nat.zero_add] at hzero
  rw [Nat.add_assoc, store_at _ _ hlt, hzero]

end FlexAlloc.Core
