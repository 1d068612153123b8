import Mathlib.Data.List.Basic
import Mathlib.Logic.Function.Basic
import Mathlib.Logic.Relation

/-!
# Programs that take locks

What a thread has to do is a program: it takes and gives back locks, and goes on with
what it reads from the shared state. A lock is not recursive. When all threads take
their locks in the order of the ranks, every thread waits for one that can move.
-/

namespace Locking

set_option autoImplicit false

inductive Program (M S : Type) where
  | done
  | lock (m : M) (rest : Program M S)
  | unlock (m : M) (rest : Program M S)
  /-- an access to the state; the program goes on with the state it has found -/
  | access (f : S → S) (rest : S → Program M S)

namespace Program

variable {M S : Type}

def andThen : Program M S → Program M S → Program M S
  | done, q => q
  | lock m p, q => lock m (p.andThen q)
  | unlock m p, q => unlock m (p.andThen q)
  | access f p, q => access f fun s => (p s).andThen q

/-- The scope of a lock guard. -/
def guarded (m : M) (p : Program M S) : Program M S := lock m (p.andThen (unlock m done))

/-- The state after the program when no other thread runs. -/
def eval : Program M S → S → S
  | done, s => s
  | lock _ p, s => p.eval s
  | unlock _ p, s => p.eval s
  | access f p, s => (p s).eval (f s)

@[simp] theorem eval_andThen (p q : Program M S) (s : S) : (p.andThen q).eval s = q.eval (p.eval s) := by
  induction p generalizing s with
  | done => rfl
  | lock m p ih => exact ih s
  | unlock m p ih => exact ih s
  | access f p ih => exact ih s (f s)

@[simp] theorem eval_guarded (m : M) (p : Program M S) (s : S) : (guarded m p).eval s = p.eval s := by
  rw [guarded, eval, eval_andThen]
  rfl

theorem andThen_assoc (p q r : Program M S) : (p.andThen q).andThen r = p.andThen (q.andThen r) := by
  induction p with
  | done => rfl
  | lock m p ih => exact congrArg (lock m) ih
  | unlock m p ih => exact congrArg (unlock m) ih
  | access f p ih => exact congrArg (access f) (funext ih)

variable [DecidableEq M]

/-- Whatever the program reads, it takes a lock only where it may with the locks held so far,
gives back only what it holds, and ends with the locks `K`. -/
def Follows (may : List M → M → Prop) : List M → Program M S → List M → Prop
  | H, done, K => H = K
  | H, lock m p, K => may H m ∧ Follows may (m :: H) p K
  | H, unlock m p, K => m ∈ H ∧ Follows may (H.erase m) p K
  | H, access _ p, K => ∀ s, Follows may H (p s) K

section Follows
variable {may may' : List M → M → Prop} {H K L : List M} {p q : Program M S}

theorem Follows.andThen (hp : Follows may H p K) (hq : Follows may K q L) :
    Follows may H (p.andThen q) L := by
  induction p generalizing H with
  | done =>
    obtain rfl : H = K := hp
    exact hq
  | lock m p ih => exact ⟨hp.1, ih hp.2⟩
  | unlock m p ih => exact ⟨hp.1, ih hp.2⟩
  | access f p ih => exact fun s => ih s (hp s)

theorem Follows.guarded {m : M} (allowed : may H m) (hp : Follows may (m :: H) p (m :: H)) :
    Follows may H (guarded m p) H := by
  refine ⟨allowed, hp.andThen ⟨List.mem_cons_self, ?_⟩⟩
  rw [List.erase_cons_head]
  rfl

theorem Follows.mono (h : Follows may H p K) (weaker : ∀ H m, may H m → may' H m) :
    Follows may' H p K := by
  induction p generalizing H with
  | done => exact h
  | lock m p ih => exact ⟨weaker H m h.1, ih h.2⟩
  | unlock m p ih => exact ⟨h.1, ih h.2⟩
  | access f p ih => exact fun s => ih s (h s)

theorem Follows.after [Nonempty S] (h : Follows may H (p.andThen q) L) : ∃ K, Follows may K q L := by
  induction p generalizing H with
  | done => exact ⟨H, h⟩
  | lock m p ih => exact ih h.2
  | unlock m p ih => exact ih h.2
  | access f p ih =>
    obtain ⟨s⟩ := ‹Nonempty S›
    exact ih s (h s)

end Follows

end Program

open Program

structure Config (ι M S : Type) where
  thread : ι → Program M S
  held : ι → List M
  state : S

namespace Config

variable {ι M S : Type} [DecidableEq ι] [DecidableEq M]

inductive Move (c : Config ι M S) (i : ι) : Config ι M S → Prop where
  | lock (m : M) (rest : Program M S) (next : c.thread i = .lock m rest) (free : ∀ j, m ∉ c.held j) :
      Move c i { c with
        thread := Function.update c.thread i rest
        held := Function.update c.held i (m :: c.held i) }
  | unlock (m : M) (rest : Program M S) (next : c.thread i = .unlock m rest) :
      Move c i { c with
        thread := Function.update c.thread i rest
        held := Function.update c.held i ((c.held i).erase m) }
  | access (f : S → S) (rest : S → Program M S) (next : c.thread i = .access f rest) :
      Move c i { c with
        thread := Function.update c.thread i (rest c.state)
        state := f c.state }

def Reachable : Config ι M S → Config ι M S → Prop := Relation.ReflTransGen fun c c' => ∃ i, Move c i c'

/-- Threads that start together, holding nothing. -/
def start (programs : ι → Program M S) (s : S) : Config ι M S where
  thread := programs
  held _ := []
  state := s

/-- A thread is about to take a lock that another one, or itself, holds. -/
def WaitsFor (c : Config ι M S) (i j : ι) : Prop := ∃ m rest, c.thread i = .lock m rest ∧ m ∈ c.held j

/-- Every thread that has not ended can move, or waits for one that can. -/
def Live (c : Config ι M S) : Prop :=
  ∀ i, c.thread i ≠ .done → ∃ j, Relation.ReflTransGen c.WaitsFor i j ∧ ∃ c', c.Move j c'

structure Disciplined (may : List M → M → Prop) (c : Config ι M S) : Prop where
  follows : ∀ i, Follows may (c.held i) (c.thread i) []
  exclusive : ∀ i j m, m ∈ c.held i → m ∈ c.held j → i = j

section Disciplined
variable {may : List M → M → Prop} {c c' : Config ι M S}

omit [DecidableEq ι] in
theorem disciplined_start {programs : ι → Program M S} {s : S}
    (h : ∀ i, Follows may [] (programs i) []) :
    Disciplined may (start programs s) := ⟨h, nofun⟩

theorem follows_update (h : ∀ i, Follows may (c.held i) (c.thread i) []) {i : ι} {p : Program M S}
    {H : List M} (hp : Follows may H p []) (j : ι) :
    Follows may (Function.update c.held i H j) (Function.update c.thread i p j) [] := by
  by_cases hj : j = i
  · subst hj
    rw [Function.update_self, Function.update_self]
    exact hp
  · rw [Function.update_of_ne hj, Function.update_of_ne hj]
    exact h j

omit [DecidableEq M] in
theorem exclusive_update (h : ∀ i j m, m ∈ c.held i → m ∈ c.held j → i = j) {i : ι} {H : List M}
    (hH : ∀ m ∈ H, ∀ j, m ∈ c.held j → j = i) (j k : ι) (m : M) (hj : m ∈ Function.update c.held i H j)
    (hk : m ∈ Function.update c.held i H k) : j = k := by
  by_cases hji : j = i
  · subst hji
    rw [Function.update_self] at hj
    by_cases hki : k = j
    · exact hki.symm
    · rw [Function.update_of_ne hki] at hk
      exact (hH m hj k hk).symm
  · rw [Function.update_of_ne hji] at hj
    by_cases hki : k = i
    · subst hki
      rw [Function.update_self] at hk
      exact hH m hk j hj
    · rw [Function.update_of_ne hki] at hk
      exact h j k m hj hk

theorem Disciplined.move (h : Disciplined may c) {i : ι} (hm : c.Move i c') : Disciplined may c' := by
  have hi := h.follows i
  cases hm with
  | lock m rest next free =>
    rw [next] at hi
    refine ⟨follows_update h.follows hi.2, exclusive_update h.exclusive fun k hk j hj => ?_⟩
    rcases List.mem_cons.mp hk with rfl | hk
    · exact absurd hj (free j)
    · exact h.exclusive j i k hj hk
  | unlock m rest next =>
    rw [next] at hi
    refine ⟨follows_update h.follows hi.2, exclusive_update h.exclusive fun k hk j hj => ?_⟩
    exact h.exclusive j i k hj (List.mem_of_mem_erase hk)
  | access f rest next =>
    rw [next] at hi
    refine ⟨fun j => ?_, h.exclusive⟩
    have hj := follows_update (i := i) h.follows (hi c.state) j
    rwa [Function.update_eq_self] at hj

theorem Disciplined.reachable (h : Disciplined may c) (run : Reachable c c') : Disciplined may c' := by
  induction run with
  | refl => exact h
  | tail _ hm ih =>
    obtain ⟨i, hm⟩ := hm
    exact ih.move hm

omit [DecidableEq ι] in
theorem Disciplined.may_lock (h : Disciplined may c) {i : ι} {m : M} {rest : Program M S}
    (next : c.thread i = .lock m rest) : may (c.held i) m := by
  have hi := h.follows i
  rw [next] at hi
  exact hi.1

/-- Along a chain of waiting threads the ranks of the locks go up, so that it ends. -/
theorem Disciplined.live (h : Disciplined may c) (rank : M → Nat) (bound : Nat)
    (bounded : ∀ m, rank m ≤ bound)
    (ordered : ∀ H m, may H m → ∀ k ∈ H, rank k < rank m) : c.Live := by
  have chain : ∀ n i, c.thread i ≠ .done → (∀ m rest, c.thread i = .lock m rest → bound - rank m < n) →
      ∃ j, Relation.ReflTransGen c.WaitsFor i j ∧ ∃ c', c.Move j c' := by
    intro n
    induction n with
    | zero =>
      intro i hi hn
      cases hnext : c.thread i with
      | done => exact absurd hnext hi
      | lock m rest => exact absurd (hn m rest hnext) (Nat.not_lt_zero _)
      | unlock m rest => exact ⟨i, .refl, _, .unlock m rest hnext⟩
      | access f rest => exact ⟨i, .refl, _, .access f rest hnext⟩
    | succ n ih =>
      intro i hi hn
      cases hnext : c.thread i with
      | done => exact absurd hnext hi
      | unlock m rest => exact ⟨i, .refl, _, .unlock m rest hnext⟩
      | access f rest => exact ⟨i, .refl, _, .access f rest hnext⟩
      | lock m rest =>
        by_cases hfree : ∀ j, m ∉ c.held j
        · exact ⟨i, .refl, _, .lock m rest hnext hfree⟩
        · simp only [not_forall, not_not] at hfree
          obtain ⟨j, hj⟩ := hfree
          have hdone : c.thread j ≠ .done := by
            intro hdone
            have hfollows := h.follows j
            rw [hdone] at hfollows
            rw [show c.held j = [] from hfollows] at hj
            cases hj
          obtain ⟨k, hwaits, hmove⟩ := ih j hdone fun m' rest' hnext' => by
            have hrank := ordered _ _ (h.may_lock hnext') m hj
            have hbound := bounded m'
            have hm := hn m rest hnext
            omega
          exact ⟨k, .head ⟨m, rest, hnext, hj⟩ hwaits, hmove⟩
  intro i hi
  exact chain (bound + 1) i hi fun m _ _ => by omega

/-- A thread that is about to take a lock that it alone holds waits for itself. -/
theorem not_live_of_relock {i : ι} {m : M} {rest : Program M S} (next : c.thread i = .lock m rest)
    (held : m ∈ c.held i) (alone : ∀ j, m ∈ c.held j → j = i) : ¬ c.Live := by
  intro live
  obtain ⟨j, hwaits, c', hmove⟩ := live i (by simp [next])
  have hself : ∀ j, Relation.ReflTransGen c.WaitsFor i j → j = i := by
    intro j hwaits
    induction hwaits with
    | refl => rfl
    | tail _ hwait ih =>
      obtain ⟨k, rest', hnext, hk⟩ := hwait
      rw [ih, next, Program.lock.injEq] at hnext
      obtain ⟨rfl, _⟩ := hnext
      exact alone _ hk
  obtain rfl := hself j hwaits
  cases hmove with
  | lock k rest' hnext free =>
    rw [next, Program.lock.injEq] at hnext
    obtain ⟨rfl, _⟩ := hnext
    exact free j held
  | unlock k rest' hnext =>
    rw [next] at hnext
    cases hnext
  | access f rest' hnext =>
    rw [next] at hnext
    cases hnext

/-- A program that takes a lock again deadlocks when it comes first. -/
theorem relock_deadlocks {programs : ι → Program M S} {i : ι} {m : M} {f : S → S}
    {rest rest' : S → Program M S} (first : programs i = .lock m (.access f rest))
    (again : ∀ s, rest s = .lock m (rest' s)) (s : S) :
    ∃ c, (start programs s).Reachable c ∧ ¬ c.Live := by
  have hlock : Move (start programs s) i _ := .lock m (.access f rest) first fun _ => nofun
  refine ⟨_, .tail (.single ⟨i, hlock⟩) ⟨i, .access f rest (Function.update_self ..)⟩, ?_⟩
  refine not_live_of_relock ((Function.update_self ..).trans (again s)) ?_ ?_
  · change m ∈ Function.update (fun _ : ι => ([] : List M)) i [m] i
    rw [Function.update_self]
    exact List.mem_singleton_self m
  · intro j hj
    change m ∈ Function.update (fun _ : ι => ([] : List M)) i [m] j at hj
    by_contra hji
    rw [Function.update_of_ne hji] at hj
    cases hj

end Disciplined

end Config

end Locking
