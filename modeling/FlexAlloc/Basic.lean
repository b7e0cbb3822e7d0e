/-
Machine arithmetic and results shared by the whole model of FlexAlloc.

Unsigned C integers are naturals; where a C expression can wrap, the model writes the wrap out (`u32`, `u64`, `sub32`,
`sub64`), and where an unsigned value is returned through `int` it is converted by `toInt`. A function that can do
something other than return (index past an array, divide by zero, call through a pointer that was never set, loop
forever, shift a word by its width or more) has result type `Ret`: `.error f` means the call does not return normally.

Error codes are C `int`s: `0` is success, `FLA_ERR(cond, ..)` evaluates to its condition (1 when it holds).
-/
import Mathlib

namespace FlexAlloc

/-- what a call does instead of returning -/
inductive Fault where
  | outOfBounds
  | divByZero
  | uninitialised
  | endless
  | shift
deriving DecidableEq, Repr

/-- a call that returns, or faults -/
abbrev Ret (α : Type) := Except Fault α

theorem ok_bind {α β : Type} (a : α) (f : α → Ret β) : (Except.ok a : Ret α) >>= f = f a := rfl

theorem bind_eq_ok {α β : Type} {x : Ret α} {f : α → Ret β} {r : β} (h : x >>= f = .ok r) :
    ∃ a, x = .ok a ∧ f a = .ok r := by
  cases x with
  | error e => cases h
  | ok a => exact ⟨a, rfl, h⟩

theorem toOption_eq_some {α : Type} {x : Ret α} {a : α} (h : x.toOption = some a) : x = .ok a := by
  cases x with
  | error e => cases h
  | ok b => rw [Option.some.inj h]

def u16 (n : ℕ) : ℕ := n % 2 ^ 16

def u32 (n : ℕ) : ℕ := n % 2 ^ 32

def u64 (n : ℕ) : ℕ := n % 2 ^ 64

/-- `a - b` on `uint32_t` -/
def sub32 (a b : ℕ) : ℕ := u32 (a + 2 ^ 32 - b)

/-- `a - b` on `uint64_t` -/
def sub64 (a b : ℕ) : ℕ := u64 (a + 2 ^ 64 - b)

/-- an unsigned value returned as `int` -/
def toInt (n : ℕ) : ℤ := if u32 n < 2 ^ 31 then u32 n else (u32 n : ℤ) - 2 ^ 32

/-- `FLA_CEIL_DIV(x, y)`, evaluated in `size_t` -/
def flaCeilDiv (x y : ℕ) : ℕ := (x + y - 1) / y

theorem le_ceilDiv_mul {lb : ℕ} (hlb : 0 < lb) (x : ℕ) : x ≤ lb * flaCeilDiv x lb := by
  have hdiv := Nat.div_add_mod (x + lb - 1) lb
  have hmod := Nat.mod_lt (x + lb - 1) hlb
  unfold flaCeilDiv
  omega

/-- `FLA_LINKED_LIST_NULL`, i.e. `INT32_MAX`: the end of a slab list -/
def flaLinkedListNull : ℕ := 2 ^ 31 - 1

def flaErrAllSlabsUsed : ℤ := 2001

def flaSlabCacheInvalidState : ℤ := 5001

def eNOMEM : ℤ := 12

def eINVAL : ℤ := 22

@[simp] theorem u32_of_lt {n : ℕ} (h : n < 2 ^ 32) : u32 n = n := Nat.mod_eq_of_lt h

@[simp] theorem u64_of_lt {n : ℕ} (h : n < 2 ^ 64) : u64 n = n := Nat.mod_eq_of_lt h

theorem u32_lt (n : ℕ) : u32 n < 2 ^ 32 := Nat.mod_lt _ (by positivity)

theorem u64_lt (n : ℕ) : u64 n < 2 ^ 64 := Nat.mod_lt _ (by positivity)

theorem u32_le (n : ℕ) : u32 n ≤ n := Nat.mod_le _ _

theorem sub32_of_le {a b : ℕ} (h : b ≤ a) (ha : a < 2 ^ 32) : sub32 a b = a - b := by
  unfold sub32 u32
  rw [show a + 2 ^ 32 - b = (a - b) + 2 ^ 32 by omega, Nat.add_mod_right, Nat.mod_eq_of_lt (by omega)]

theorem sub64_of_le {a b : ℕ} (h : b ≤ a) (ha : a < 2 ^ 64) : sub64 a b = a - b := by
  unfold sub64 u64
  rw [show a + 2 ^ 64 - b = (a - b) + 2 ^ 64 by omega, Nat.add_mod_right, Nat.mod_eq_of_lt (by omega)]

theorem toInt_of_lt {n : ℕ} (h : n < 2 ^ 31) : toInt n = n := by
  have : u32 n = n := u32_of_lt (by omega)
  rw [toInt, this, if_pos h]

theorem toInt_neg {n : ℕ} (h : 2 ^ 31 ≤ n) (h' : n < 2 ^ 32) : toInt n < 0 := by
  have : u32 n = n := u32_of_lt h'
  rw [toInt, this, if_neg (by omega)]
  omega

end FlexAlloc
