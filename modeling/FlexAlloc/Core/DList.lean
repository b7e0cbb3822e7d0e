/-
Doubly linked sequences kept in two link functions.

`Seg nxt prv p h l t`: starting at `h`, the forward links `nxt` visit exactly the elements `l`, in order, and then
reach `t`; the backward link of the first element is `p` and the backward link of every later one is its predecessor.
A null-terminated list is `Seg nxt prv p h l null` with `null ∉ l`. Several lists may live in the same link functions:
`Seg.congr` is the frame rule, a list is unaffected by any change outside its elements.

- `Seg.append`: a segment splits where its list splits.
- `Seg.retarget_end`, `Seg.retarget_start`: redirecting the last forward link, or the first backward link.
- `Seg.prepend`, `Seg.bypass`, `Seg.snoc`: adding in front, taking out anywhere, adding at the end.
- `Seg.unique`: the head determines the list.
-/
import Mathlib

namespace FlexAlloc.Core

variable {α : Type} {nxt prv nxt' prv' : α → α}

/-- from `h` the links run through `l` and leave at `t`; `p` is what the first element points back to -/
def Seg (nxt prv : α → α) : α → α → List α → α → Prop
  | _, h, [], t => h = t
  | p, h, x :: l, t => h = x ∧ prv x = p ∧ Seg nxt prv x (nxt x) l t

/-- the last element of `l`, or `p` when `l` is empty -/
def lastOr (p : α) : List α → α
  | [] => p
  | x :: l => lastOr x l

@[simp] theorem lastOr_nil (p : α) : lastOr p [] = p := rfl

@[simp] theorem lastOr_cons (p x : α) (l : List α) : lastOr p (x :: l) = lastOr x l := rfl

@[simp] theorem lastOr_snoc (p x : α) (l : List α) : lastOr p (l ++ [x]) = x := by
  induction l generalizing p with
  | nil => rfl
  | cons y l ih => exact ih y

theorem lastOr_mem (p : α) {l : List α} (h : l ≠ []) : lastOr p l ∈ l := by
  induction l generalizing p with
  | nil => exact absurd rfl h
  | cons x l ih =>
    by_cases hl : l = []
    · subst hl; simp
    · exact List.mem_cons_of_mem _ (ih x hl)

@[simp] theorem seg_nil (p h t : α) : Seg nxt prv p h [] t ↔ h = t := Iff.rfl

@[simp] theorem seg_cons (p h x t : α) (l : List α) :
    Seg nxt prv p h (x :: l) t ↔ h = x ∧ prv x = p ∧ Seg nxt prv x (nxt x) l t := Iff.rfl

/-- **Frame rule.** A segment reads only the links of its own elements. -/
theorem Seg.congr {p h t : α} {l : List α} (hs : Seg nxt prv p h l t) (hn : ∀ x ∈ l, nxt' x = nxt x)
    (hp : ∀ x ∈ l, prv' x = prv x) : Seg nxt' prv' p h l t := by
  induction l generalizing p h with
  | nil => exact hs
  | cons x l ih =>
    obtain ⟨rfl, hpx, hl⟩ := hs
    refine ⟨rfl, (hp _ List.mem_cons_self).trans hpx, ?_⟩
    rw [hn _ List.mem_cons_self]
    exact ih hl (fun y hy => hn y (List.mem_cons_of_mem _ hy)) (fun y hy => hp y (List.mem_cons_of_mem _ hy))

theorem Seg.append {p h t : α} {a b : List α} :
    Seg nxt prv p h (a ++ b) t ↔ ∃ m, Seg nxt prv p h a m ∧ Seg nxt prv (lastOr p a) m b t := by
  induction a generalizing p h with
  | nil => simp
  | cons x a ih => simp [ih, and_assoc]

/-- redirect the forward link of the last element -/
theorem Seg.retarget_end {p h t t' : α} {l : List α} (hs : Seg nxt prv p h l t) (hne : l ≠ []) (hnd : l.Nodup)
    (hn : ∀ x ∈ l, x ≠ lastOr p l → nxt' x = nxt x) (hlast : nxt' (lastOr p l) = t')
    (hp : ∀ x ∈ l, prv' x = prv x) : Seg nxt' prv' p h l t' := by
  induction l generalizing p h with
  | nil => exact absurd rfl hne
  | cons x l ih =>
    obtain ⟨rfl, hpx, hl⟩ := hs
    refine ⟨rfl, (hp _ List.mem_cons_self).trans hpx, ?_⟩
    simp only [lastOr_cons] at hlast hn
    cases l with
    | nil => exact hlast
    | cons y l =>
      have hx : h ≠ lastOr h (y :: l) := by
        rintro heq
        have hmem : lastOr h (y :: l) ∈ y :: l := lastOr_mem h (by simp)
        rw [← heq] at hmem
        exact (List.nodup_cons.1 hnd).1 hmem
      rw [hn _ List.mem_cons_self hx]
      exact ih hl (by simp) (List.nodup_cons.1 hnd).2 (fun z hz => hn z (List.mem_cons_of_mem _ hz)) hlast
        (fun z hz => hp z (List.mem_cons_of_mem _ hz))

/-- redirect the backward link of the first element -/
theorem Seg.retarget_start {p p' h t : α} {l : List α} (hs : Seg nxt prv p h l t) (hn : ∀ x ∈ l, nxt' x = nxt x)
    (hfirst : ∀ x, l.head? = some x → prv' x = p') (hp : ∀ x ∈ l.tail, prv' x = prv x) :
    Seg nxt' prv' p' h l t := by
  cases l with
  | nil => exact hs
  | cons x l =>
    obtain ⟨rfl, -, hl⟩ := hs
    refine ⟨rfl, hfirst _ rfl, ?_⟩
    rw [hn _ List.mem_cons_self]
    exact hl.congr (fun y hy => hn y (List.mem_cons_of_mem _ hy)) hp

theorem Seg.prepend {p p' h t s : α} {l : List α} (hs : Seg nxt prv p h l t) (hns : nxt' s = h) (hps : prv' s = p')
    (hn : ∀ x ∈ l, nxt' x = nxt x) (hfirst : ∀ x, l.head? = some x → prv' x = s)
    (hp : ∀ x ∈ l.tail, prv' x = prv x) : Seg nxt' prv' p' s (s :: l) t :=
  ⟨rfl, hps, by rw [hns]; exact hs.retarget_start hn hfirst hp⟩

theorem Seg.snoc {p h t t' s : α} {l : List α} (hs : Seg nxt prv p h l t) (hne : l ≠ []) (hnd : l.Nodup)
    (hn : ∀ x ∈ l, x ≠ lastOr p l → nxt' x = nxt x) (hlast : nxt' (lastOr p l) = s)
    (hp : ∀ x ∈ l, prv' x = prv x) (hns : nxt' s = t') (hps : prv' s = lastOr p l) :
    Seg nxt' prv' p h (l ++ [s]) t' :=
  Seg.append.2 ⟨s, hs.retarget_end hne hnd hn hlast hp, rfl, hps, hns⟩

/-- take `s` out: its predecessor (or the head) and its successor are linked to each other -/
theorem Seg.bypass {p h t s : α} {a b : List α} (hs : Seg nxt prv p h (a ++ s :: b) t) (hnd : (a ++ s :: b).Nodup)
    (hn : ∀ x ∈ a ++ b, (a ≠ [] → x ≠ lastOr p a) → nxt' x = nxt x) (hlast : a ≠ [] → nxt' (lastOr p a) = nxt s)
    (hp : ∀ x ∈ a ++ b, b.head? ≠ some x → prv' x = prv x) (hfirst : ∀ x, b.head? = some x → prv' x = prv s) :
    Seg nxt' prv' p (if a = [] then nxt s else h) (a ++ b) t := by
  obtain ⟨m, ha, rfl, hps, hb⟩ := Seg.append.1 hs
  obtain ⟨hnda, hndb, hdisj⟩ := List.nodup_append.1 hnd
  rw [List.nodup_cons] at hndb
  have hab : ∀ x ∈ a, b.head? ≠ some x := fun x hx hb' =>
    hdisj x hx x (List.mem_cons_of_mem _ (List.mem_of_mem_head? hb')) rfl
  have hb' : Seg nxt' prv' (lastOr p a) (nxt m) b t := by
    refine hb.retarget_start (fun x hx => ?_) (fun x hx => (hfirst x hx).trans hps) (fun x hx => ?_)
    · refine hn x (List.mem_append_right _ hx) fun hae hxl => ?_
      exact hdisj _ (lastOr_mem p hae) x (List.mem_cons_of_mem _ hx) hxl.symm
    · refine hp x (List.mem_append_right _ (List.mem_of_mem_tail hx)) ?_
      cases b with
      | nil => simp at hx
      | cons y b =>
        rintro hy
        simp only [List.head?_cons, Option.some.injEq] at hy
        exact (List.nodup_cons.1 hndb.2).1 (hy ▸ hx)
  refine Seg.append.2 ⟨nxt m, ?_, hb'⟩
  by_cases hae : a = []
  · subst hae; simp
  · rw [if_neg hae]
    exact ha.retarget_end hae hnda (fun x hx hxl => hn x (List.mem_append_left _ hx) fun _ => hxl) (hlast hae)
      (fun x hx => hp x (List.mem_append_left _ hx) (hab x hx))

/-- **The head determines the list.** -/
theorem Seg.unique {p p' h null : α} {l l' : List α} (hs : Seg nxt prv p h l null) (hs' : Seg nxt prv p' h l' null)
    (hl : null ∉ l) (hl' : null ∉ l') : l = l' := by
  induction l generalizing p p' h l' with
  | nil =>
    cases l' with
    | nil => rfl
    | cons y l' => exact absurd (hs.symm.trans hs'.1 ▸ List.mem_cons_self) hl'
  | cons x l ih =>
    cases l' with
    | nil => exact absurd (hs'.symm.trans hs.1 ▸ List.mem_cons_self) hl
    | cons y l' =>
      obtain ⟨rfl, -, h1⟩ := hs
      obtain ⟨rfl, -, h2⟩ := hs'
      rw [ih h1 h2 (fun hm => hl (List.mem_cons_of_mem _ hm)) (fun hm => hl' (List.mem_cons_of_mem _ hm))]

end FlexAlloc.Core
