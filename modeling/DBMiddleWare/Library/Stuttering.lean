import DBMiddleWare.Library.Execution

/-!
# Two machines side by side

Executions of two partial step functions that are related state by state: in lockstep,
action for action, or with each action of the first answered by some actions, or none,
of the second.
-/

namespace Execution

set_option autoImplicit false

universe u v w x
variable {S : Type u} {A : Type v} {T : Type w} {B : Type x}
variable {step : S → A → Option S} {step' : T → B → Option T} {R : S → T → Prop}

theorem rel_ite {c c' : Prop} [Decidable c] [Decidable c'] {s : S} {t : T} (same : c ↔ c')
    (h : c → R s t) : Option.Rel R (if c then some s else none) (if c' then some t else none) := by
  by_cases hc : c
  · rw [if_pos hc, if_pos (same.mp hc)]
    exact .some (h hc)
  · rw [if_neg hc, if_neg fun hc' => hc (same.mpr hc')]
    exact .none

theorem rel_some {x : Option S} {y : Option T} (h : Option.Rel R x y) {s : S} (hx : x = some s) :
    ∃ t, y = some t ∧ R s t := by
  subst hx
  cases h with
  | some h => exact ⟨_, rfl, h⟩

theorem rel_imp {Q : S → T → Prop} {x : Option S} {y : Option T} (h : Option.Rel R x y)
    (imp : ∀ s t, x = some s → y = some t → R s t → Q s t) : Option.Rel Q x y := by
  cases h with
  | some h => exact .some (imp _ _ rfl rfl h)
  | none => exact .none

theorem rel_bind {x : Option S} {y : Option T} {f : S → Option S} {g : T → Option T}
    (h : Option.Rel R x y)
    (next : ∀ s t, R s t → Option.Rel R (f s) (g t)) : Option.Rel R (x.bind f) (y.bind g) := by
  cases h with
  | some h => exact next _ _ h
  | none => exact .none

/-- In lockstep: both machines can take the same actions. -/
theorem exec_lockstep {step' : T → A → Option T}
    (lockstep : ∀ s t a, R s t → Option.Rel R (step s a) (step' t a)) {s : S} {t : T} (h : R s t)
    (as : List A) : Option.Rel R (exec step s as) (exec step' t as) := by
  induction as generalizing s t with
  | nil => exact .some h
  | cons a as ih => exact rel_bind (lockstep s t a h) fun _ _ h' => ih h'

/-- The run of the first machine is mirrored by the answers to its actions. The answer to an action
may depend on the whole run, before and after it. -/
theorem exec_answered {s₀ : S} {t₀ : T} {as : List A} {s : S} (answer : A → List B) (start : R s₀ t₀)
    (mirrors : ∀ bs s t a s', bs ++ [a] <+: as → exec step s₀ bs = some s →
      exec step' t₀ (bs.flatMap answer) = some t → R s t → step s a = some s' →
      ∃ t', exec step' t (answer a) = some t' ∧ R s' t')
    (run : exec step s₀ as = some s) :
    ∃ t, exec step' t₀ (as.flatMap answer) = some t ∧ R s t := by
  induction as using List.reverseRecOn generalizing s with
  | nil =>
    rw [exec_nil, Option.some.injEq] at run
    exact ⟨t₀, rfl, run ▸ start⟩
  | append_singleton as a ih =>
    obtain ⟨s₁, hs₁, hs⟩ := exec_concat_eq_some.mp run
    obtain ⟨t₁, ht₁, h₁⟩ :=
      ih (fun bs s t b s' hbs => mirrors bs s t b s' (hbs.trans (List.prefix_append as [a]))) hs₁
    obtain ⟨t, ht, h⟩ := mirrors as s₁ t₁ a s (List.prefix_refl _) hs₁ ht₁ h₁ hs
    refine ⟨t, ?_, h⟩
    rw [List.flatMap_append, List.flatMap_singleton]
    exact exec_append_eq_some.mpr ⟨t₁, ht₁, ht⟩

theorem flatMap_filter (keep : A → Bool) (as : List A) :
    (as.flatMap fun a => if keep a then [a] else []) = as.filter keep := by
  induction as with
  | nil => rfl
  | cons a as ih =>
    rw [List.flatMap_cons, ih, List.filter_cons]
    cases keep a with
    | true => rfl
    | false => rfl

/-- The second machine takes some of the actions and does not need the others. -/
theorem exec_filtered {step' : T → A → Option T} {s₀ : S} {t₀ : T} {as : List A} {s : S}
    (keep : A → Bool) (start : R s₀ t₀)
    (kept : ∀ bs s t a s', bs ++ [a] <+: as → exec step s₀ bs = some s →
      exec step' t₀ (bs.filter keep) = some t → R s t → step s a = some s' → keep a = true →
      ∃ t', step' t a = some t' ∧ R s' t')
    (left : ∀ bs s t a s', bs ++ [a] <+: as → exec step s₀ bs = some s →
      exec step' t₀ (bs.filter keep) = some t → R s t → step s a = some s' → keep a = false → R s' t)
    (run : exec step s₀ as = some s) : ∃ t, exec step' t₀ (as.filter keep) = some t ∧ R s t := by
  rw [← flatMap_filter]
  refine exec_answered _ start (fun bs s t a s' hbs hs ht h hstep => ?_) run
  rw [flatMap_filter] at ht
  cases hkeep : keep a with
  | true =>
    obtain ⟨t', hstep', h'⟩ := kept bs s t a s' hbs hs ht h hstep hkeep
    exact ⟨t', exec_cons_eq_some.mpr ⟨t', hstep', rfl⟩, h'⟩
  | false => exact ⟨t, rfl, left bs s t a s' hbs hs ht h hstep hkeep⟩

end Execution
