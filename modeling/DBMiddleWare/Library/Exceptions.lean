/-!
# Code with exceptions

A program that throws keeps the changes it has made so far. A triple has two
postconditions, one for the end of the program and one for its exceptions.
-/

namespace Exceptions

set_option autoImplicit false

universe u
variable {ε σ α β : Type u}

inductive Exit (Q : α → σ → Prop) (E : ε → σ → Prop) : EStateM.Result ε σ α → Prop where
  | ok {a : α} {s : σ} (h : Q a s) : Exit Q E (.ok a s)
  | error {e : ε} {s : σ} (h : E e s) : Exit Q E (.error e s)

/-- From `P` the program ends in `Q`, or with an exception in `E`. -/
def Triple (P : σ → Prop) (p : EStateM ε σ α) (Q : α → σ → Prop) (E : ε → σ → Prop) : Prop :=
  ∀ s, P s → Exit Q E (p.run s)

/-- The program keeps a property of the state, also when it throws. -/
def Keeps (I : σ → Prop) (p : EStateM ε σ α) : Prop := Triple I p (fun _ => I) fun _ => I

section Rules
variable {P : σ → Prop} {Q : α → σ → Prop} {R : β → σ → Prop} {E : ε → σ → Prop} {I : σ → Prop}

theorem Exit.of_ok {a : α} {s : σ} (h : Exit Q E (.ok a s)) : Q a s := by
  cases h with
  | ok h => exact h

theorem Exit.of_error {e : ε} {s : σ} (h : Exit Q E (.error e s)) : E e s := by
  cases h with
  | error h => exact h

theorem Triple.pure {a : α} (h : ∀ s, P s → Q a s) : Triple P (pure a) Q E := fun s hs => .ok (h s hs)

theorem Triple.throw {e : ε} (h : ∀ s, P s → E e s) : Triple P (throw e) Q E :=
  fun s hs => .error (h s hs)

theorem Triple.bind {p : EStateM ε σ α} {f : α → EStateM ε σ β} (first : Triple P p Q E)
    (rest : ∀ a, Triple (Q a) (f a) R E) : Triple P (p >>= f) R E := by
  intro s hs
  have hp := first s hs
  rw [EStateM.run_bind]
  cases hrun : p.run s with
  | ok a t =>
    rw [hrun] at hp
    exact rest a t hp.of_ok
  | error e t =>
    rw [hrun] at hp
    exact .error hp.of_error

theorem Triple.get {Q : σ → σ → Prop} (h : ∀ s, P s → Q s s) : Triple P (get : EStateM ε σ σ) Q E :=
  fun s hs => .ok (h s hs)

theorem Triple.modify {Q : PUnit → σ → Prop} {f : σ → σ} (h : ∀ s, P s → Q .unit (f s)) :
    Triple P (modify f : EStateM ε σ PUnit) Q E := fun s hs => .ok (h s hs)

theorem Triple.ite {c : Prop} [Decidable c] {p q : EStateM ε σ α} (pos : c → Triple P p Q E)
    (neg : ¬ c → Triple P q Q E) : Triple P (if c then p else q) Q E := by
  split
  · rename_i h
    exact pos h
  · rename_i h
    exact neg h

theorem Exit.mono {Q' : α → σ → Prop} {E' : ε → σ → Prop} {r : EStateM.Result ε σ α} (h : Exit Q E r)
    (post : ∀ a s, Q a s → Q' a s) (raised : ∀ e s, E e s → E' e s) : Exit Q' E' r := by
  cases h with
  | ok h => exact .ok (post _ _ h)
  | error h => exact .error (raised _ _ h)

theorem Triple.conseq {P' : σ → Prop} {Q' : α → σ → Prop} {E' : ε → σ → Prop} {p : EStateM ε σ α}
    (h : Triple P p Q E) (pre : ∀ s, P' s → P s) (post : ∀ a s, Q a s → Q' a s)
    (raised : ∀ e s, E e s → E' e s) : Triple P' p Q' E' :=
  fun s hs => (h s (pre s hs)).mono post raised

theorem Triple.pre {P' : σ → Prop} {p : EStateM ε σ α} (h : Triple P p Q E) (pre : ∀ s, P' s → P s) :
    Triple P' p Q E := fun s hs => h s (pre s hs)

end Rules

end Exceptions
