import DBMiddleWare.Library.Execution

/-!
# Executions up to the order of independent steps

Every step of a machine leaves a footprint, which tells the steps it conflicts with. Two
neighbouring steps that do not conflict can be exchanged, so an execution may be put into any
order in which the conflicting ones come as before.
-/

namespace Conflicts

open Execution
set_option autoImplicit false

universe u v w

section Words
variable {X : Type u} {conflict : X → X → Prop} {x y a : X} {xs ys zs : List X}

/-- Two neighbours that do not conflict change places. -/
inductive Swapped (conflict : X → X → Prop) : List X → List X → Prop
  | swap (front : List X) (x y : X) (back : List X) (free : ¬ conflict x y) :
      Swapped conflict (front ++ x :: y :: back) (front ++ y :: x :: back)

theorem Swapped.cons (x : X) (h : Swapped conflict xs ys) : Swapped conflict (x :: xs) (x :: ys) := by
  cases h with
  | swap front y z back free => exact .swap (x :: front) y z back free

def Reordered (conflict : X → X → Prop) : List X → List X → Prop :=
  Relation.ReflTransGen (Swapped conflict)

theorem Reordered.cons (x : X) (h : Reordered conflict xs ys) : Reordered conflict (x :: xs) (x :: ys) :=
  h.lift (x :: ·) fun _ _ h => h.cons x

theorem reordered_front (free : ∀ x ∈ xs, ¬ conflict x a) :
    Reordered conflict (xs ++ a :: ys) (a :: (xs ++ ys)) := by
  induction xs with
  | nil => exact .refl
  | cons x xs ih =>
    have hrest := Reordered.cons x (ih fun y hy => free y (List.mem_cons_of_mem x hy))
    exact hrest.tail (.swap [] x a (xs ++ ys) (free x List.mem_cons_self))

variable [DecidableEq X]

/-- The conflicting letters come in the same order. -/
def SameOrder (conflict : X → X → Prop) (xs ys : List X) : Prop :=
  ∀ x y, conflict x y → xs.filter (fun z => z = x ∨ z = y) = ys.filter fun z => z = x ∨ z = y

theorem SameOrder.swapped (symm : ∀ x y, conflict x y → conflict y x) (h : Swapped conflict xs ys) :
    SameOrder conflict xs ys := by
  cases h with
  | swap front x y back free =>
    intro u v huv
    have hnot : ¬ ((x = u ∨ x = v) ∧ (y = u ∨ y = v)) ∨ x = y := by
      by_cases hxy : x = y
      · exact Or.inr hxy
      · refine Or.inl ?_
        rintro ⟨rfl | rfl, rfl | rfl⟩
        · exact hxy rfl
        · exact free huv
        · exact free (symm _ _ huv)
        · exact hxy rfl
    simp only [List.filter_append, List.filter_cons, decide_eq_true_eq, List.append_cancel_left_eq]
    rcases hnot with hnot | rfl
    · split
      · split
        · exact absurd ⟨‹_›, ‹_›⟩ hnot
        · rfl
      · rfl
    · rfl

/-- The first letter of a word can be found in the other, with nothing before it that conflicts. -/
theorem SameOrder.front (refl : ∀ x, conflict x x) (symm : ∀ x y, conflict x y → conflict y x)
    (h : SameOrder conflict xs (a :: ys)) : ∃ front back, xs = front ++ a :: back ∧
      (∀ x ∈ front, ¬ conflict x a) ∧ SameOrder conflict (front ++ back) ys := by
  have hmem : a ∈ xs := by
    have hfilter : a ∈ xs.filter fun z => z = a ∨ z = a := by
      rw [h a a (refl a)]
      simp
    exact (List.mem_filter.mp hfilter).1
  obtain ⟨front, back, rfl, hfirst⟩ := List.eq_append_cons_of_mem hmem
  have hfree : ∀ x ∈ front, ¬ conflict x a := by
    intro x hx hconflict
    have hsame := h x a hconflict
    rw [List.filter_append, List.filter_cons_of_pos (by simp)] at hsame
    cases hbefore : front.filter fun z => z = x ∨ z = a with
    | nil => simpa using List.filter_eq_nil_iff.mp hbefore x hx
    | cons z zs =>
      rw [hbefore, List.filter_cons_of_pos (by simp), List.cons_append] at hsame
      have hz : z ∈ front := (List.mem_filter.mp (hbefore ▸ List.mem_cons_self)).1
      exact hfirst ((List.cons.inj hsame).1 ▸ hz)
  refine ⟨front, back, rfl, hfree, fun u v huv => ?_⟩
  have hsame := h u v huv
  rw [List.filter_append] at hsame ⊢
  by_cases ha : a = u ∨ a = v
  · have hnone : front.filter (fun z => z = u ∨ z = v) = [] := by
      rw [List.filter_eq_nil_iff]
      intro z hz hzuv
      rcases ha with rfl | rfl
      · rcases of_decide_eq_true hzuv with rfl | rfl
        · exact hfirst hz
        · exact hfree z hz (symm _ _ huv)
      · rcases of_decide_eq_true hzuv with rfl | rfl
        · exact hfree z hz huv
        · exact hfirst hz
    rw [hnone, List.filter_cons_of_pos (by simpa using ha), List.filter_cons_of_pos
      (by simpa using ha)] at hsame
    rw [hnone]
    exact (List.cons.inj hsame).2
  · rw [List.filter_cons_of_neg (by simpa using ha), List.filter_cons_of_neg
      (by simpa using ha)] at hsame
    exact hsame

/-- Words with the same order of the conflicting letters are the same up to exchanges. -/
theorem sameOrder_iff (refl : ∀ x, conflict x x) (symm : ∀ x y, conflict x y → conflict y x) :
    SameOrder conflict xs ys ↔ Reordered conflict xs ys := by
  constructor
  · intro h
    induction ys generalizing xs with
    | nil =>
      cases xs with
      | nil => exact .refl
      | cons x xs =>
        have hx := h x x (refl x)
        rw [List.filter_cons_of_pos (by simp)] at hx
        cases hx
    | cons a ys ih =>
      obtain ⟨front, back, rfl, free, hrest⟩ := h.front refl symm
      exact (reordered_front free).trans (Reordered.cons a (ih hrest))
  · intro h
    induction h with
    | refl => exact fun _ _ _ => rfl
    | tail _ hswap ih => exact fun x y hxy => (ih x y hxy).trans (SameOrder.swapped symm hswap x y hxy)

end Words

section Executions
variable {S : Type u} {A : Type v} {F : Type w}

/-- The steps of an execution with their footprints, as long as it goes on. -/
def traced (step : S → A → Option S) (foot : S → A → F) : S → List A → List (A × F)
  | _, [] => []
  | s, a :: as =>
    (a, foot s a) ::
      match step s a with
      | none => []
      | some t => traced step foot t as

/-- Neighbouring steps that do not conflict can be exchanged. -/
structure Independent (step : S → A → Option S) (foot : S → A → F) (conflict : F → F → Prop) : Prop where
  refl : ∀ f, conflict f f
  symm : ∀ f g, conflict f g → conflict g f
  swap : ∀ s a t b u, step s a = some t → step t b = some u → ¬ conflict (foot s a) (foot t b) →
    ∃ t', step s b = some t' ∧ foot s b = foot t b ∧ step t' a = some u ∧ foot t' a = foot s a

variable {step : S → A → Option S} {foot : S → A → F} {conflict : F → F → Prop} {s t : S}
  {xs ys : List (A × F)}

theorem traced_cons {a : A} {as : List A} (hs : step s a = some t) :
    traced step foot s (a :: as) = (a, foot s a) :: traced step foot t as := by
  rw [traced, hs]

theorem Independent.swapped (h : Independent step foot conflict)
    (swapped : Swapped (fun x y : A × F => conflict x.2 y.2) xs ys)
    (run : exec step s (xs.map Prod.fst) = some t) (trace : traced step foot s (xs.map Prod.fst) = xs) :
    exec step s (ys.map Prod.fst) = some t ∧ traced step foot s (ys.map Prod.fst) = ys := by
  obtain ⟨front, x, y, back, free⟩ := swapped
  induction front generalizing s with
  | nil =>
    obtain ⟨a, f⟩ := x
    obtain ⟨b, g⟩ := y
    obtain ⟨m, hm, hrest⟩ := exec_cons_eq_some.mp run
    obtain ⟨n, hn, hrun⟩ := exec_cons_eq_some.mp hrest
    simp only [List.nil_append, List.map_cons, traced_cons hm, traced_cons hn, List.cons.injEq,
      Prod.mk.injEq, true_and] at trace
    obtain ⟨rfl, rfl, htrace⟩ := trace
    obtain ⟨m', hm', hfoot, hn', hfoot'⟩ := h.swap s a m b n hm hn free
    refine ⟨exec_cons_eq_some.mpr ⟨m', hm', exec_cons_eq_some.mpr ⟨n, hn', hrun⟩⟩, ?_⟩
    simp only [List.nil_append, List.map_cons]
    rw [traced_cons hm', traced_cons hn', htrace, hfoot, hfoot']
  | cons z front ih =>
    obtain ⟨m, hm, hrun⟩ := exec_cons_eq_some.mp run
    simp only [List.cons_append, List.map_cons, traced_cons hm, List.cons.injEq] at trace
    obtain ⟨hz, htrace⟩ := trace
    obtain ⟨hrun', htrace'⟩ := ih hrun htrace
    refine ⟨exec_cons_eq_some.mpr ⟨m, hm, hrun'⟩, ?_⟩
    simp only [List.cons_append, List.map_cons]
    rw [traced_cons hm, hz, htrace']

theorem traced_fst {as : List A} (run : exec step s as = some t) :
    (traced step foot s as).map Prod.fst = as := by
  induction as generalizing s with
  | nil => rfl
  | cons a as ih =>
    obtain ⟨m, hm, hrun⟩ := exec_cons_eq_some.mp run
    rw [traced_cons hm, List.map_cons, ih hrun]

/-- The order of the steps that do not conflict does not matter. -/
theorem Independent.reordered [DecidableEq A] [DecidableEq F] (h : Independent step foot conflict)
    {as : List A} (run : exec step s as = some t)
    (same : SameOrder (fun x y : A × F => conflict x.2 y.2) (traced step foot s as) ys) :
    exec step s (ys.map Prod.fst) = some t ∧ traced step foot s (ys.map Prod.fst) = ys := by
  have hreordered := (sameOrder_iff (fun x => h.refl x.2) fun x y => h.symm x.2 y.2).mp same
  clear same
  induction hreordered with
  | refl =>
    rw [traced_fst run]
    exact ⟨run, rfl⟩
  | tail _ hswap ih => exact h.swapped hswap ih.1 ih.2

end Executions

end Conflicts
