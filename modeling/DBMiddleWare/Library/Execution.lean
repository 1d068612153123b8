import Mathlib.Data.List.Induction
import Mathlib.Logic.Relation

/-!
# Executions of a partial step function

An action is either not enabled in a state or leads to one successor; all
nondeterminism of the system is in the choice of the actions. `Along` says that
every step of an execution meets a guard in the state it is taken in, so a safety
theorem can be relative to the steps that a run really takes.
-/

namespace Execution

set_option autoImplicit false

universe u v w
variable {S : Type u} {A : Type v}

def exec (step : S → A → Option S) : S → List A → Option S
  | s, [] => some s
  | s, a :: as => (step s a).bind fun t => exec step t as

/-- Each action of the list meets the guard in the state it is taken in. -/
def Along (step : S → A → Option S) (guard : S → A → Prop) : S → List A → Prop
  | _, [] => True
  | s, a :: as => guard s a ∧ ∀ t, step s a = some t → Along step guard t as

section Rules
variable {step : S → A → Option S} {guard : S → A → Prop}

@[simp] theorem exec_nil (s : S) : exec step s [] = some s := rfl

theorem exec_cons_eq_some {s t : S} {a : A} {as : List A} :
    exec step s (a :: as) = some t ↔ ∃ m, step s a = some m ∧ exec step m as = some t :=
  Option.bind_eq_some_iff

theorem exec_append_eq_some {s t : S} {as bs : List A} :
    exec step s (as ++ bs) = some t ↔ ∃ m, exec step s as = some m ∧ exec step m bs = some t := by
  induction as generalizing s with
  | nil => simp
  | cons a as ih =>
    simp only [List.cons_append, exec_cons_eq_some, ih]
    constructor
    · rintro ⟨m, hm, n, hn, ht⟩
      exact ⟨n, ⟨m, hm, hn⟩, ht⟩
    · rintro ⟨n, ⟨m, hm, hn⟩, ht⟩
      exact ⟨m, hm, n, hn, ht⟩

theorem exec_concat_eq_some {s t : S} {as : List A} {a : A} :
    exec step s (as ++ [a]) = some t ↔ ∃ m, exec step s as = some m ∧ step m a = some t := by
  simp only [exec_append_eq_some, exec_cons_eq_some, exec_nil, Option.some.injEq, exists_eq_right]

/-- A step from a state of some run leads to one. -/
theorem exists_exec_step {s₀ s t : S} {a : A} (reached : ∃ as, exec step s₀ as = some s)
    (hs : step s a = some t) : ∃ as, exec step s₀ as = some t := by
  obtain ⟨as, run⟩ := reached
  exact ⟨as ++ [a], exec_concat_eq_some.mpr ⟨s, run, hs⟩⟩

/-- The rule for safety: what each guarded step preserves holds along the guarded run. -/
theorem invariant_along {I : S → Prop}
    (preserved : ∀ s a t, I s → guard s a → step s a = some t → I t)
    {s t : S} {as : List A} (hs : I s) (ha : Along step guard s as)
    (run : exec step s as = some t) : I t := by
  induction as generalizing s with
  | nil =>
    rw [exec_nil, Option.some.injEq] at run
    exact run ▸ hs
  | cons a as ih =>
    obtain ⟨m, hm, run⟩ := exec_cons_eq_some.mp run
    exact ih (preserved s a m hs ha.1 hm) (ha.2 m hm) run

theorem invariant {I : S → Prop} (preserved : ∀ s a t, I s → step s a = some t → I t)
    {s t : S} {as : List A} (hs : I s) (run : exec step s as = some t) : I t := by
  induction as generalizing s with
  | nil =>
    rw [exec_nil, Option.some.injEq] at run
    exact run ▸ hs
  | cons a as ih =>
    obtain ⟨m, hm, run⟩ := exec_cons_eq_some.mp run
    exact ih (preserved s a m hs hm) run

theorem along_append {s : S} {as bs : List A} : Along step guard s (as ++ bs) ↔
    Along step guard s as ∧ ∀ t, exec step s as = some t → Along step guard t bs := by
  induction as generalizing s with
  | nil => simp [Along]
  | cons a as ih =>
    constructor
    · rintro ⟨ha, hrest⟩
      refine ⟨⟨ha, fun m hm => (ih.mp (hrest m hm)).1⟩, fun t ht => ?_⟩
      obtain ⟨m, hm, ht⟩ := exec_cons_eq_some.mp ht
      exact (ih.mp (hrest m hm)).2 t ht
    · rintro ⟨⟨ha, hrest⟩, hafter⟩
      refine ⟨ha, fun m hm => ih.mpr ⟨hrest m hm, fun t ht => ?_⟩⟩
      exact hafter t (exec_cons_eq_some.mpr ⟨m, hm, ht⟩)

theorem along_initial {s : S} {as bs : List A} (h : Along step guard s bs) (hab : as <+: bs) :
    Along step guard s as := by
  obtain ⟨rest, rfl⟩ := hab
  exact (along_append.mp h).1

/-- The guard holds along a run when it holds of each action after the ones before it. -/
theorem along_iff {s : S} {as : List A} : Along step guard s as ↔
    ∀ bs a, bs ++ [a] <+: as → ∀ t, exec step s bs = some t → guard t a := by
  constructor
  · intro h bs a hbs t ht
    exact ((along_append.mp (along_initial h hbs)).2 t ht).1
  · intro h
    induction as using List.reverseRecOn with
    | nil => trivial
    | append_singleton as a ih =>
      apply along_append.mpr
      constructor
      · exact ih fun bs b hbs => h bs b (hbs.trans (List.prefix_append as [a]))
      · exact fun t ht => ⟨h as a (List.prefix_refl _) t ht, fun _ _ => trivial⟩

/-- A property of the whole history, extended one step at a time. -/
theorem history_invariant {s₀ : S} {H : List A → S → Prop} (nil : H [] s₀)
    (concat : ∀ as s a t, exec step s₀ as = some s → H as s → step s a = some t → H (as ++ [a]) t)
    {as : List A} {t : S} (run : exec step s₀ as = some t) : H as t := by
  induction as using List.reverseRecOn generalizing t with
  | nil =>
    rw [exec_nil, Option.some.injEq] at run
    exact run ▸ nil
  | append_singleton as a ih =>
    obtain ⟨s, hs, ht⟩ := exec_concat_eq_some.mp run
    exact concat as s a t hs (ih hs) ht

/-- What an execution shows of its steps, as long as it goes on. -/
def observed {O : Type w} (step : S → A → Option S) (see : S → A → S → List O) : S → List A → List O
  | _, [] => []
  | s, a :: as =>
    match step s a with
    | none => []
    | some t => see s a t ++ observed step see t as

theorem observed_concat {O : Type w} {see : S → A → S → List O} {s₀ s t : S} {as : List A} {a : A}
    (run : exec step s₀ as = some s) (hs : step s a = some t) :
    observed step see s₀ (as ++ [a]) = observed step see s₀ as ++ see s a t := by
  induction as generalizing s₀ with
  | nil =>
    rw [exec_nil, Option.some.injEq] at run
    subst run
    simp only [List.nil_append, observed, hs, List.append_nil]
  | cons b as ih =>
    obtain ⟨m, hm, hrest⟩ := exec_cons_eq_some.mp run
    simp only [List.cons_append, observed, hm, ih hrest, List.append_assoc]

theorem star_invariant {T : Type w} {R : T → T → Prop} {I : T → Prop}
    (preserved : ∀ x y, I x → R x y → I y) {x y : T} (hxy : Relation.ReflTransGen R x y) (hx : I x) :
    I y := by
  induction hxy with
  | refl => exact hx
  | tail _ hyz ih => exact preserved _ _ ih hyz

/-- Safety through a simulation: what the abstract steps preserve holds of the image of
every state of a guarded run. -/
theorem simulation_invariant {T : Type w} {R : T → T → Prop} {I : T → Prop} (f : S → T)
    (simulates : ∀ s a t, guard s a → step s a = some t → Relation.ReflTransGen R (f s) (f t))
    (preserved : ∀ x y, I x → R x y → I y) {s t : S} {as : List A} (hs : I (f s))
    (ha : Along step guard s as) (run : exec step s as = some t) : I (f t) :=
  invariant_along (I := fun s => I (f s))
    (fun s a t hs hg ht => star_invariant preserved (simulates s a t hg ht) hs) hs ha run

end Rules

instance decidableAlong {step : S → A → Option S} {guard : S → A → Prop}
    [∀ s a, Decidable (guard s a)] : ∀ s as, Decidable (Along step guard s as)
  | _, [] => isTrue trivial
  | s, a :: as =>
    match h : step s a with
    | none => decidable_of_iff (guard s a)
        ⟨fun hg => ⟨hg, fun t ht => by simp [h] at ht⟩, fun ha => ha.1⟩
    | some m =>
      have : Decidable (Along step guard m as) := decidableAlong m as
      decidable_of_iff (guard s a ∧ Along step guard m as)
        ⟨fun hg => ⟨hg.1, fun t ht => by rw [h] at ht; exact Option.some.inj ht ▸ hg.2⟩,
          fun ha => ⟨ha.1, ha.2 m h⟩⟩

end Execution
