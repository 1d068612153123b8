import Mathlib.Algebra.BigOperators.Group.List.Basic
import Mathlib.Algebra.Ring.Nat
import DBMiddleWare.Library.Execution

/-!
# Potentials of executions

A potential pays for the steps of an execution: a run costs no more than it starts with and
is given on its way. Where a state that has not settled always enables a step that costs,
every run of such steps can be continued until it has settled.
-/

namespace Execution

set_option autoImplicit false

universe u v
variable {S : Type u} {A : Type v} {step : S → A → Option S} {I : S → Prop} {mine : A → Prop}
    (potential : S → Nat)

theorem exec_potential (cost gain : A → Nat)
    (preserved : ∀ s a t, I s → mine a → step s a = some t → I t)
    (pays : ∀ s a t, I s → mine a → step s a = some t → potential t + cost a ≤ potential s + gain a)
    {s t : S} {as : List A} (hs : I s) (kind : ∀ a ∈ as, mine a) (run : exec step s as = some t) :
    potential t + (as.map cost).sum ≤ potential s + (as.map gain).sum := by
  induction as generalizing s with
  | nil =>
    rw [exec_nil, Option.some.injEq] at run
    rw [run]
    exact Nat.le_refl _
  | cons a as ih =>
    obtain ⟨m, hm, run⟩ := exec_cons_eq_some.mp run
    have hmine := kind a List.mem_cons_self
    have hstep := pays s a m hs hmine hm
    have hrest := ih (preserved s a m hs hmine hm) (fun b hb => kind b (List.mem_cons_of_mem a hb)) run
    simp only [List.map_cons, List.sum_cons]
    omega

theorem exec_settles {Done : S → Prop} (preserved : ∀ s a t, I s → mine a → step s a = some t → I t)
    (pays : ∀ s a t, I s → mine a → step s a = some t → potential t < potential s)
    (enabled : ∀ s, I s → ¬ Done s → ∃ a t, mine a ∧ step s a = some t) {s : S} (hs : I s) :
    ∃ as t, (∀ a ∈ as, mine a) ∧ exec step s as = some t ∧ Done t := by
  induction hn : potential s using Nat.strongRecOn generalizing s with
  | ind n ih =>
    by_cases hdone : Done s
    · exact ⟨[], s, fun _ h => absurd h List.not_mem_nil, rfl, hdone⟩
    · obtain ⟨a, m, hmine, hm⟩ := enabled s hs hdone
      have hless : potential m < n := hn ▸ pays s a m hs hmine hm
      obtain ⟨as, t, hkind, hrun, ht⟩ := ih (potential m) hless (preserved s a m hs hmine hm) rfl
      refine ⟨a :: as, t, fun b hb => ?_, exec_cons_eq_some.mpr ⟨m, hm, hrun⟩, ht⟩
      rcases List.mem_cons.mp hb with rfl | hb
      · exact hmine
      · exact hkind b hb

end Execution
