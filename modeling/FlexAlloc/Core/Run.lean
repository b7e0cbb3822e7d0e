/-
Runs of a partial step function, and the rule that carries an invariant along one.

`run step s is` feeds the inputs `is` to `step` one after another. A step that is refused (`none`) ends the run: no
state is reached past it. `guard ok step` refuses every input that does not meet `ok` in the state before it, so that
"every run whose steps all meet a condition" is a run of the guarded step function.

- `run_inv`: what holds at the start and is kept by every accepted step holds in every state reached.
- `run_inv_visited`: the same, where each step may use what is known of every state the run passes through.
- `run_history`: the same with the inputs so far, for what a state says about them.
- `run_snoc`, `run_concat`: the last step of a run, for arguments about what one more input does.
- `run_inv_along`: the same for a run along which every step has a property in the state before it.
- `along_iff`: two properties of a step that agree wherever the invariant holds agree along whole runs.
-/
import Mathlib

namespace FlexAlloc.Core

variable {σ ι : Type}

/-- feed the inputs one by one; `none` as soon as a step is refused -/
def run (step : σ → ι → Option σ) : σ → List ι → Option σ
  | s, [] => some s
  | s, i :: is => (step s i).bind fun t => run step t is

/-- refuse an input that does not meet `ok` in the state before it -/
def guard (ok : σ → ι → Prop) [∀ s i, Decidable (ok s i)] (step : σ → ι → Option σ) (s : σ) (i : ι) : Option σ :=
  if ok s i then step s i else none

theorem guard_eq_some {ok : σ → ι → Prop} [∀ s i, Decidable (ok s i)] {step : σ → ι → Option σ} {s t : σ} {i : ι}
    (h : guard ok step s i = some t) : ok s i ∧ step s i = some t := by
  unfold guard at h
  split_ifs at h with hok
  exact ⟨hok, h⟩

theorem run_append (step : σ → ι → Option σ) (s : σ) (a b : List ι) :
    run step s (a ++ b) = (run step s a).bind fun t => run step t b := by
  induction a generalizing s with
  | nil => rfl
  | cons i a ih => simp [run, ih, Option.bind_assoc]

theorem run_snoc {step : σ → ι → Option σ} {s t : σ} {a : List ι} {i : ι} (h : run step s (a ++ [i]) = some t) :
    ∃ u, run step s a = some u ∧ step u i = some t := by
  rw [run_append] at h
  obtain ⟨u, hu, ht⟩ := Option.bind_eq_some_iff.1 h
  obtain ⟨v, hv, hvt⟩ := Option.bind_eq_some_iff.1 ht
  exact ⟨u, hu, by rw [hv]; exact hvt⟩

theorem run_concat {step : σ → ι → Option σ} {s u t : σ} {a : List ι} {i : ι} (h : run step s a = some u)
    (hi : step u i = some t) : run step s (a ++ [i]) = some t := by
  rw [run_append, h, Option.bind_some, run, hi]
  rfl

/-- **The invariant rule.** What holds at the start and is kept by every accepted step holds in the state reached. -/
theorem run_inv {step : σ → ι → Option σ} {P : σ → Prop} (hstep : ∀ s i t, P s → step s i = some t → P t)
    {s t : σ} {is : List ι} (hs : P s) (h : run step s is = some t) : P t := by
  induction is generalizing s with
  | nil => simp only [run, Option.some.injEq] at h; exact h ▸ hs
  | cons i is ih =>
    obtain ⟨u, hu, ht⟩ := Option.bind_eq_some_iff.1 h
    exact ih (hstep s i u hs hu) ht

/-- **The invariant rule**, with a condition on the inputs and one on every state passed through. -/
theorem run_inv_visited {step : σ → ι → Option σ} {P Q : σ → Prop} {R : ι → Prop}
    (hstep : ∀ s i t, P s → Q s → R i → step s i = some t → P t) {s t : σ} {is : List ι} (hs : P s)
    (hR : ∀ i ∈ is, R i) (hQ : ∀ pre u, pre <+: is → run step s pre = some u → Q u) (h : run step s is = some t) :
    P t := by
  induction is generalizing s with
  | nil => simp only [run, Option.some.injEq] at h; exact h ▸ hs
  | cons i is ih =>
    obtain ⟨u, hu, ht⟩ := Option.bind_eq_some_iff.1 h
    have hPu : P u := hstep s i u hs (hQ [] s List.nil_prefix rfl) (hR i List.mem_cons_self) hu
    refine ih hPu (fun j hj => hR j (List.mem_cons_of_mem _ hj)) (fun pre v hpre hv => ?_) ht
    refine hQ (i :: pre) v (List.cons_prefix_cons.2 ⟨rfl, hpre⟩) ?_
    rw [run, hu]
    exact hv

/-- **The history rule.** What holds of no input and the start, and of the inputs so far and the state after each accepted
step, holds of all inputs and the state reached. -/
theorem run_history {step : σ → ι → Option σ} {P : List ι → σ → Prop}
    (hstep : ∀ pre s i t, P pre s → step s i = some t → P (pre ++ [i]) t) {s t : σ} {is : List ι} (hs : P [] s)
    (h : run step s is = some t) : P is t := by
  have hgen : ∀ is pre s, P pre s → run step s is = some t → P (pre ++ is) t := by
    intro is
    induction is with
    | nil =>
      intro pre s hs h
      rw [List.append_nil]
      exact Option.some.inj h ▸ hs
    | cons i is ih =>
      intro pre s hs h
      obtain ⟨u, hu, ht⟩ := Option.bind_eq_some_iff.1 h
      rw [List.append_cons]
      exact ih (pre ++ [i]) u (hstep pre s i u hs hu) ht
  exact hgen is [] s hs h

/-- `P` holds at each step that the run takes -/
def along (P : σ → ι → Prop) (step : σ → ι → Option σ) : σ → List ι → Prop
  | _, [] => True
  | s, i :: is => P s i ∧ ∀ t, step s i = some t → along P step t is

theorem along_snoc {P : σ → ι → Prop} {step : σ → ι → Option σ} {s u : σ} {is : List ι} (h : run step s is = some u) (i : ι) :
    along P step s (is ++ [i]) ↔ along P step s is ∧ P u i := by
  induction is generalizing s with
  | nil =>
    cases h
    exact ⟨fun h => ⟨trivial, h.1⟩, fun h => ⟨h.2, fun _ _ => trivial⟩⟩
  | cons j is ih =>
    obtain ⟨v, hv, hrun⟩ := Option.bind_eq_some_iff.1 h
    constructor
    · rintro ⟨hP, hrest⟩
      obtain ⟨halong, hlast⟩ := (ih hrun).1 (hrest v hv)
      refine ⟨⟨hP, fun t ht => ?_⟩, hlast⟩
      obtain rfl := Option.some.inj (hv.symm.trans ht)
      exact halong
    · rintro ⟨⟨hP, hrest⟩, hlast⟩
      refine ⟨hP, fun t ht => ?_⟩
      obtain rfl := Option.some.inj (hv.symm.trans ht)
      exact (ih hrun).2 ⟨hrest v hv, hlast⟩

/-- a run can be checked step by step -/
instance alongDecidable (P : σ → ι → Prop) [∀ s i, Decidable (P s i)] (step : σ → ι → Option σ) :
    (s : σ) → (is : List ι) → Decidable (along P step s is)
  | _, [] => isTrue trivial
  | s, i :: is =>
    match h : step s i with
    | none => decidable_of_iff (P s i) ⟨fun hP => ⟨hP, fun t ht => by rw [h] at ht; cases ht⟩, fun hP => hP.1⟩
    | some t =>
      have := alongDecidable P step t is
      decidable_of_iff (P s i ∧ along P step t is)
        ⟨fun hP => ⟨hP.1, fun u hu => by rw [h] at hu; cases hu; exact hP.2⟩, fun hP => ⟨hP.1, hP.2 t h⟩⟩

/-- **The invariant rule**, along a run that has `P` at each step, with a condition on the inputs. -/
theorem run_inv_along {step : σ → ι → Option σ} {P : σ → ι → Prop} {Inv : σ → Prop} {R : ι → Prop}
    (hstep : ∀ s i t, Inv s → P s i → R i → step s i = some t → Inv t) {s t : σ} {is : List ι} (hs : Inv s)
    (hR : ∀ i ∈ is, R i) (hP : along P step s is) (h : run step s is = some t) : Inv t := by
  induction is generalizing s with
  | nil => simp only [run, Option.some.injEq] at h; exact h ▸ hs
  | cons i is ih =>
    obtain ⟨u, hu, ht⟩ := Option.bind_eq_some_iff.1 h
    have hInv : Inv u := hstep s i u hs hP.1 (hR i List.mem_cons_self) hu
    exact ih hInv (fun j hj => hR j (List.mem_cons_of_mem _ hj)) (hP.2 u hu) ht

/-- **Step by step.** Two properties of a step that agree wherever the invariant holds agree along every run, when the
steps that have the second keep the invariant. -/
theorem along_iff {step : σ → ι → Option σ} {P Q : σ → ι → Prop} {Inv : σ → Prop}
    (hPQ : ∀ s i, Inv s → (P s i ↔ Q s i)) (hstep : ∀ s i t, Inv s → Q s i → step s i = some t → Inv t) {s : σ}
    (hs : Inv s) (is : List ι) : along P step s is ↔ along Q step s is := by
  induction is generalizing s with
  | nil => exact Iff.rfl
  | cons i is ih =>
    constructor
    · rintro ⟨hP, hrest⟩
      have hQ := (hPQ s i hs).1 hP
      exact ⟨hQ, fun t ht => (ih (hstep s i t hs hQ ht)).1 (hrest t ht)⟩
    · rintro ⟨hQ, hrest⟩
      exact ⟨(hPQ s i hs).2 hQ, fun t ht => (ih (hstep s i t hs hQ ht)).2 (hrest t ht)⟩

end FlexAlloc.Core
