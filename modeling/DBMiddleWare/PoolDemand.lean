import Mathlib.Data.Finset.Card
import DBMiddleWare.MySqlPool

/-!
# How many connections the pool opens

`acquire` creates a connection only where none is idle, and `release` drops one only where the
queue is full. So the connections that are open at a time are bounded by the most that the threads
have wanted at a time, and a pool that was opened large enough never opens or drops another one.
-/

namespace DBMiddleWare.MySqlPool

open Execution
set_option autoImplicit false

def creators (threads : Finset Thread) (creating : Thread → Bool) : Nat :=
  (threads.filter fun t => creating t = true).card

/-- The connections that threads hold or are about to create. -/
def State.demand (threads : Finset Thread) (σ : State) : Nat :=
  σ.borrowed.length + creators threads σ.creating

def Act.thread : Act → Thread
  | .acquire t => t
  | .newConnection t _ => t
  | .release t _ => t

/-- The largest demand after a step of the run. -/
def peak (threads : Finset Thread) (σ : State) (acts : List Act) : Nat :=
  (observed step (fun _ _ σ' => [σ'.demand threads]) σ acts).foldl max 0

section Demand
variable {threads : Finset Thread} {σ σ' : State} {t : Thread}

theorem peak_concat {σ₀ : State} {acts : List Act} {a : Act} (run : exec step σ₀ acts = some σ)
    (hs : step σ a = some σ') :
    peak threads σ₀ (acts ++ [a]) = max (peak threads σ₀ acts) (σ'.demand threads) := by
  rw [peak, observed_concat run hs, List.foldl_append]
  rfl

theorem creators_begin {creating : Thread → Bool} (known : t ∈ threads) (free : creating t = false) :
    creators threads (Function.update creating t true) = creators threads creating + 1 := by
  have hinsert : threads.filter (fun u => Function.update creating t true u = true) =
      insert t (threads.filter fun u => creating u = true) := by
    ext u
    simp only [Finset.mem_filter, Finset.mem_insert]
    by_cases hu : u = t
    · subst hu
      simp [known]
    · rw [Function.update_of_ne hu]
      simp [hu]
  rw [creators, hinsert, Finset.card_insert_of_notMem]
  · rfl
  · simp [free]

theorem creators_end {creating : Thread → Bool} (known : t ∈ threads) (started : creating t = true) :
    creators threads (Function.update creating t false) + 1 = creators threads creating := by
  have herase : threads.filter (fun u => Function.update creating t false u = true) =
      (threads.filter fun u => creating u = true).erase t := by
    ext u
    simp only [Finset.mem_filter, Finset.mem_erase]
    by_cases hu : u = t
    · subst hu
      simp
    · rw [Function.update_of_ne hu]
      simp [hu]
  rw [creators, herase, Finset.card_erase_add_one]
  · rfl
  · simp [known, started]

/-- What a step does to the idle connections and to the demand. -/
inductive Moved (threads : Finset Thread) (σ σ' : State) : Prop
  | took (idle : σ'.pool.length + 1 = σ.pool.length) (demand : σ'.demand threads = σ.demand threads + 1)
      (created : σ'.created = σ.created) (destroyed : σ'.destroyed = σ.destroyed)
      (creating : σ'.creating = σ.creating)
  | asked (none : σ.pool = []) (idle : σ'.pool = []) (demand : σ'.demand threads = σ.demand threads + 1)
  | answered (idle : σ'.pool = σ.pool) (demand : σ'.demand threads ≤ σ.demand threads)
      (was : ∃ t, σ.creating t = true)
  | gave (idle : σ'.pool.length = σ.pool.length + 1) (demand : σ'.demand threads + 1 = σ.demand threads)
      (created : σ'.created = σ.created) (destroyed : σ'.destroyed = σ.destroyed)
      (creating : σ'.creating = σ.creating)
  | dropped (full : σ.capacity ≤ σ.pool.length) (idle : σ'.pool = σ.pool)
      (demand : σ'.demand threads + 1 = σ.demand threads)
  | same (same : σ' = σ)

theorem acquire_moved (h : Owned σ) (known : t ∈ threads) (free : σ.creating t = false) :
    Moved threads σ (σ.acquire t) := by
  have hnonnull := h.nonnull
  unfold State.acquire
  split
  · rename_i hpool
    refine .asked hpool hpool ?_
    simp only [State.demand]
    rw [creators_begin known free]
    omega
  · rename_i rest hpool
    rw [hpool] at hnonnull
    exact absurd List.mem_cons_self hnonnull
  · rename_i c rest hpool
    refine .took ?_ ?_ rfl rfl rfl
    · rw [hpool]
      rfl
    · simp only [State.demand, List.length_cons]
      omega

theorem newConnection_moved (known : t ∈ threads) (creating : σ.creating t = true)
    (creation : Creation) :
    Moved threads σ (σ.newConnection t creation) := by
  have hend := creators_end known creating
  cases creation with
  | connected =>
    refine .answered rfl ?_ ⟨t, creating⟩
    simp only [State.demand, State.newConnection, List.length_cons]
    omega
  | refused =>
    refine .answered rfl ?_ ⟨t, creating⟩
    simp only [State.demand, State.newConnection]
    omega
  | schemaFailed =>
    refine .answered rfl ?_ ⟨t, creating⟩
    simp only [State.demand, State.newConnection]
    omega

theorem release_moved {session : Option Connection} (held : ∀ c ∈ session, (t, c) ∈ σ.borrowed) :
    Moved threads σ (σ.release t session) := by
  cases session with
  | none => exact .same rfl
  | some c =>
    have hmem := held c rfl
    have hpositive : 0 < σ.borrowed.length := List.length_pos_of_mem hmem
    have hlength := List.length_erase_of_mem hmem
    unfold State.release
    dsimp only
    split
    · refine .gave ?_ ?_ rfl rfl rfl
      · exact List.length_append
      · simp only [State.demand, hlength]
        omega
    · rename_i hfull
      refine .dropped (Nat.le_of_not_lt hfull) rfl ?_
      simp only [State.demand, hlength]
      omega

theorem step_moved {a : Act} (h : Owned σ) (known : a.thread ∈ threads) (hs : step σ a = some σ') :
    Moved threads σ σ' := by
  cases a with
  | acquire t =>
    simp only [step, Option.ite_none_left_eq_some, Bool.not_eq_true, Option.some.injEq] at hs
    exact hs.2 ▸ acquire_moved h known hs.1
  | newConnection t creation =>
    simp only [step, Option.ite_none_right_eq_some, Option.some.injEq] at hs
    exact hs.2 ▸ newConnection_moved known hs.1 creation
  | release t session =>
    simp only [step, Option.ite_none_right_eq_some, Option.some.injEq] at hs
    exact hs.2 ▸ release_moved hs.1.2

end Demand

/-- A pool that has neither opened nor dropped a connection since its construction. -/
structure Steady (opened σ : State) : Prop where
  created : σ.created = opened.created
  destroyed : σ.destroyed = opened.destroyed
  creating : ∀ t, σ.creating t = false
  connections : σ.pool.length + σ.borrowed.length = opened.pool.length

/-- The open connections against the most that was wanted at a time. -/
structure Bounded (threads : Finset Thread) (opened : State) (wanted : Nat) (σ : State) : Prop where
  most : σ.pool.length + σ.demand threads ≤ max opened.pool.length wanted
  steady : wanted ≤ opened.pool.length → Steady opened σ

section Bound
variable {threads : Finset Thread} {opened σ σ' : State} {wanted : Nat}

theorem Steady.demand (h : Steady opened σ) : σ.demand threads = σ.borrowed.length := by
  have hnone : (threads.filter fun t => σ.creating t = true) = ∅ := by
    ext t
    simp [h.creating t]
  rw [State.demand, creators, hnone]
  rfl

theorem Bounded.move (h : Bounded threads opened wanted σ) (capacity : opened.pool.length ≤ σ.capacity)
    (moved : Moved threads σ σ') : Bounded threads opened (max wanted (σ'.demand threads)) σ' := by
  have hmost := h.most
  cases moved with
  | took idle demand created destroyed creating =>
    refine ⟨by omega, fun below => ?_⟩
    have hsteady := h.steady (by omega)
    have hcreating : ∀ t, σ'.creating t = false := creating ▸ hsteady.creating
    refine ⟨created.trans hsteady.created, destroyed.trans hsteady.destroyed, hcreating, ?_⟩
    have hopen := hsteady.connections
    have hdemand : σ.demand threads = σ.borrowed.length := hsteady.demand
    simp only [State.demand, creating] at demand
    omega
  | asked none idle demand =>
    refine ⟨by rw [idle]; simp, fun below => ?_⟩
    have hsteady := h.steady (by omega)
    have hopen := hsteady.connections
    have hdemand : σ.demand threads = σ.borrowed.length := hsteady.demand
    rw [none, List.length_nil] at hopen
    omega
  | answered idle demand was =>
    refine ⟨by rw [idle]; omega, fun below => ?_⟩
    obtain ⟨t, creating⟩ := was
    rw [(h.steady (by omega)).creating t] at creating
    cases creating
  | gave idle demand created destroyed creating =>
    refine ⟨by omega, fun below => ?_⟩
    have hsteady := h.steady (by omega)
    have hcreating : ∀ t, σ'.creating t = false := creating ▸ hsteady.creating
    refine ⟨created.trans hsteady.created, destroyed.trans hsteady.destroyed, hcreating, ?_⟩
    have hopen := hsteady.connections
    simp only [State.demand, creating] at demand
    omega
  | dropped full idle demand =>
    refine ⟨by rw [idle]; omega, fun below => ?_⟩
    have hsteady := h.steady (by omega)
    have hopen := hsteady.connections
    have hdemand : σ.demand threads = σ.borrowed.length := hsteady.demand
    omega
  | same same =>
    subst same
    exact ⟨by omega, fun below => h.steady (by omega)⟩

end Bound

theorem slots_unborrowed (slots : Nat → Creation) (capacity n : Nat) :
    (∀ t, ((List.range n).foldl (fun σ i => State.initSlot σ (slots i))
      { capacity := capacity }).creating t =
      false) ∧
    ((List.range n).foldl (fun σ i => State.initSlot σ (slots i)) { capacity := capacity }).borrowed =
    [] := by
  induction n with
  | zero => exact ⟨fun _ => rfl, rfl⟩
  | succ n ih =>
    rw [List.range_succ, List.foldl_append, List.foldl_cons, List.foldl_nil]
    cases slots n with
    | connected => exact ih
    | refused => exact ih
    | schemaFailed => exact ih

theorem bounded_of_run {capacity : Nat} {slots : Nat → Creation} {threads : Finset Thread}
    {acts : List Act} {σ : State} (callers : ∀ a ∈ acts, a.thread ∈ threads)
    (run : exec step (.construct capacity slots) acts = some σ) :
    Bounded threads (.construct capacity slots) (peak threads (.construct capacity slots) acts) σ := by
  have hopened := owned_slots slots capacity capacity (Nat.le_refl _)
  have hall : (Owned σ ∧ σ.capacity = capacity) ∧ ((∀ a ∈ acts, a.thread ∈ threads) →
      Bounded threads (.construct capacity slots) (peak threads (.construct capacity slots) acts)
        σ) := by
    refine history_invariant (H := fun acts σ => (Owned σ ∧ σ.capacity = capacity) ∧
      ((∀ a ∈ acts, a.thread ∈ threads) →
        Bounded threads (.construct capacity slots) (peak threads (.construct capacity slots) acts)
          σ)) ?_ ?_ run
    · have hsteady : Steady (.construct capacity slots) (.construct capacity slots) := by
        refine ⟨rfl, rfl, (slots_unborrowed slots capacity capacity).1, ?_⟩
        have hnone : (State.construct capacity slots).borrowed = [] :=
          (slots_unborrowed slots capacity capacity).2
        rw [hnone]
        rfl
      refine ⟨⟨hopened.1, hopened.2.2⟩, fun _ => ⟨?_, fun _ => hsteady⟩⟩
      rw [hsteady.demand, hsteady.connections]
      exact Nat.le_max_left _ _
    · intro acts σ a σ' run ⟨⟨howned, hcapacity⟩, hbounded⟩ hs
      refine ⟨⟨howned.step hs, (step_capacity hs).trans hcapacity⟩, fun callers => ?_⟩
      rw [List.forall_mem_append, List.forall_mem_singleton] at callers
      rw [peak_concat run hs]
      refine (hbounded callers.1).move ?_ (step_moved howned callers.2 hs)
      rw [hcapacity]
      exact hopened.2.1
  exact hall.2 callers

/-- The open connections are at most those of the construction, or the most that the threads have
wanted at a time. A pool opened large enough opens and drops none afterwards: no `acquire` has to wait
for a new connection. -/
theorem pool_meets_demand (capacity : Nat) (slots : Nat → Creation) (threads : Finset Thread)
    (acts : List Act) (σ : State) (callers : ∀ a ∈ acts, a.thread ∈ threads)
    (run : exec step (.construct capacity slots) acts = some σ) :
    σ.pool.length + σ.demand threads ≤
      max (State.construct capacity slots).pool.length (peak threads (.construct capacity slots) acts) ∧
    (peak threads (.construct capacity slots) acts ≤ (State.construct capacity slots).pool.length →
      σ.created = (State.construct capacity slots).created ∧
      σ.destroyed = (State.construct capacity slots).destroyed ∧ (∀ t, σ.creating t = false) ∧
      σ.pool.length + σ.borrowed.length = (State.construct capacity slots).pool.length) := by
  have hbounded := bounded_of_run callers run
  refine ⟨hbounded.most, fun below => ?_⟩
  have hsteady := hbounded.steady below
  exact ⟨hsteady.created, hsteady.destroyed, hsteady.creating, hsteady.connections⟩

/-- One of three slots fails at construction, and two threads share the other two. -/
theorem pool_meets_demand_two_threads :
    let slots : Nat → Creation := fun i => if i = 0 then .refused else .connected
    let acts := [.acquire 0, .acquire 1, .release 0 (some 0), .acquire 0, .release 1 (some 1),
      .release 0 none]
    ∃ σ, exec step (.construct 3 slots) acts = some σ ∧ σ.pool.length + σ.demand {0, 1} ≤ 2 ∧
      σ.created = 2 := by
  intro slots acts
  obtain ⟨σ, run⟩ := Option.isSome_iff_exists.mp
    (show (exec step (.construct 3 slots) acts).isSome by decide)
  have hpeak : peak {0, 1} (.construct 3 slots) acts = 2 := by decide
  have hopened : (State.construct 3 slots).pool.length = 2 := by decide
  have h := pool_meets_demand 3 slots {0, 1} acts σ (by decide) run
  rw [hpeak, hopened] at h
  exact ⟨σ, run, h.1, (h.2 (Nat.le_refl 2)).1⟩

end DBMiddleWare.MySqlPool
