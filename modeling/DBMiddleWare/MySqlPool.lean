import Mathlib.Data.List.Nodup
import DBMiddleWare.Library.Execution

/-!
# The connection pool

`acquire` takes a connection under the lock or creates one outside it, `release` puts it
back or drops it. Connections are numbered as they are created; the model keeps a record
of the ones that threads hold and of the ones that were destroyed.
-/

namespace DBMiddleWare.MySqlPool

open Execution
set_option autoImplicit false

abbrev Connection := Nat
abbrev Thread := Nat

/-- How a call of `new_connection` ends. -/
inductive Creation where
  | connected
  /-- the constructor of the session throws -/
  | refused
  /-- `USE` throws, and the session is destroyed on the way out -/
  | schemaFailed
  deriving Repr, DecidableEq

structure State where
  capacity : Nat
  /-- a `unique_ptr` that may be null -/
  pool : List (Option Connection) := []
  borrowed : List (Thread × Connection) := []
  destroyed : List Connection := []
  created : Nat := 0
  /-- the thread is in `acquire`, past the lock and without a session -/
  creating : Thread → Bool := fun _ => false

namespace State

variable (σ : State)

def initSlot : Creation → State
  | .connected => { σ with pool := σ.pool ++ [some σ.created], created := σ.created + 1 }
  | .refused => σ
  | .schemaFailed => { σ with destroyed := σ.destroyed ++ [σ.created], created := σ.created + 1 }

/-- The constructor; `slots i` is how the creation for slot `i` ends. -/
def construct (capacity : Nat) (slots : Nat → Creation) : State :=
  (List.range capacity).foldl (fun σ i => σ.initSlot (slots i)) { capacity := capacity }

/-- The locked part of `acquire`, and its end when there was a session to take. -/
def acquire (t : Thread) : State :=
  match σ.pool with
  | [] => { σ with creating := Function.update σ.creating t true }
  | none :: rest => { σ with pool := rest, creating := Function.update σ.creating t true }
  | some c :: rest => { σ with pool := rest, borrowed := (t, c) :: σ.borrowed }

/-- The creation on demand; a failure is answered with `nullptr`. -/
def newConnection (t : Thread) (creation : Creation) : State :=
  let σ := { σ with creating := Function.update σ.creating t false }
  match creation with
  | .connected => { σ with borrowed := (t, σ.created) :: σ.borrowed, created := σ.created + 1 }
  | .refused => σ
  | .schemaFailed => { σ with destroyed := σ.destroyed ++ [σ.created], created := σ.created + 1 }

def release (t : Thread) : Option Connection → State
  | none => σ
  | some c =>
    let σ := { σ with borrowed := σ.borrowed.erase (t, c) }
    if σ.pool.length < σ.capacity then { σ with pool := σ.pool ++ [some c] }
    else { σ with destroyed := σ.destroyed ++ [c] }

end State

inductive Act where
  | acquire (t : Thread)
  | newConnection (t : Thread) (creation : Creation)
  | release (t : Thread) (session : Option Connection)
  deriving Repr, DecidableEq

/-- A thread runs one call at a time, and releases what it holds. -/
def step (σ : State) : Act → Option State
  | .acquire t => if σ.creating t then none else some (σ.acquire t)
  | .newConnection t creation => if σ.creating t then some (σ.newConnection t creation) else none
  | .release t session =>
    if σ.creating t = false ∧ ∀ c ∈ session, (t, c) ∈ σ.borrowed then some (σ.release t session)
    else none

def State.places (σ : State) (c : Connection) : Nat :=
  σ.pool.count (some c) + (σ.borrowed.map Prod.snd).count c + σ.destroyed.count c

structure Owned (σ : State) : Prop where
  bounded : σ.pool.length ≤ σ.capacity
  nonnull : none ∉ σ.pool
  places : ∀ c : Nat, σ.places c = if c < σ.created then 1 else 0

section Ownership
variable {σ : State}

theorem places_create (h : Owned σ) {σ' : State} (created : σ'.created = σ.created + 1)
    (places : ∀ c : Nat, σ'.places c = σ.places c + if σ.created = c then 1 else 0) (c : Nat) :
    σ'.places c = if c < σ'.created then 1 else 0 := by
  rw [places, h.places, created]
  split <;> split <;> split <;> omega

theorem Owned.initSlot (h : Owned σ) (room : σ.pool.length < σ.capacity) (creation : Creation) :
    Owned (σ.initSlot creation) := by
  cases creation with
  | connected =>
    refine ⟨?_, ?_, places_create h rfl fun c => ?_⟩
    · simp only [State.initSlot, List.length_append, List.length_singleton]
      omega
    · simp [State.initSlot, h.nonnull]
    · simp only [State.places, State.initSlot, List.count_append, List.count_singleton, beq_iff_eq,
        Option.some.injEq]
      omega
  | refused => exact h
  | schemaFailed =>
    refine ⟨h.bounded, h.nonnull, places_create h rfl fun c => ?_⟩
    simp only [State.places, State.initSlot, List.count_append, List.count_singleton, beq_iff_eq]
    omega

theorem Owned.acquire (h : Owned σ) (t : Thread) : Owned (σ.acquire t) := by
  have hbounded := h.bounded
  have hnonnull := h.nonnull
  have hplaces := h.places
  simp only [State.places] at hplaces
  unfold State.acquire
  cases hpool : σ.pool with
  | nil =>
    rw [hpool] at hbounded hnonnull hplaces
    exact ⟨hbounded, hnonnull, hplaces⟩
  | cons front rest =>
    rw [hpool] at hbounded hnonnull hplaces
    cases front with
    | none => exact absurd List.mem_cons_self hnonnull
    | some c =>
      refine ⟨Nat.le_of_succ_le hbounded, fun hm => hnonnull (List.mem_cons_of_mem _ hm), fun d => ?_⟩
      rw [← hplaces d]
      simp only [State.places, List.map_cons, List.count_cons, beq_iff_eq, Option.some.injEq]
      omega

theorem Owned.newConnection (h : Owned σ) (t : Thread) (creation : Creation) :
    Owned (σ.newConnection t creation) := by
  cases creation with
  | connected =>
    refine ⟨h.bounded, h.nonnull, places_create h rfl fun c => ?_⟩
    simp only [State.places, State.newConnection, List.map_cons, List.count_cons, beq_iff_eq]
    omega
  | refused => exact ⟨h.bounded, h.nonnull, h.places⟩
  | schemaFailed =>
    refine ⟨h.bounded, h.nonnull, places_create h rfl fun c => ?_⟩
    simp only [State.places, State.newConnection, List.count_append, List.count_singleton, beq_iff_eq]
    omega

/-- Giving a held connection back takes it from one place to another. -/
theorem count_erase_held {t : Thread} {c : Nat} (held : (t, c) ∈ σ.borrowed) (d : Nat) :
    (σ.borrowed.map Prod.snd).count d =
      ((σ.borrowed.erase (t, c)).map Prod.snd).count d + if c = d then 1 else 0 := by
  have hperm := (List.perm_cons_erase held).map Prod.snd
  rw [hperm.count_eq d, List.map_cons, List.count_cons]
  simp

theorem Owned.release (h : Owned σ) (t : Thread) {session : Option Connection}
    (held : ∀ c ∈ session, (t, c) ∈ σ.borrowed) : Owned (σ.release t session) := by
  cases session with
  | none => exact h
  | some c =>
    have hcount := count_erase_held (held c rfl)
    have hplaces := h.places
    simp only [State.places] at hplaces
    unfold State.release
    dsimp only
    split
    · rename_i room
      refine ⟨?_, ?_, fun d => ?_⟩
      · simp only [List.length_append, List.length_singleton]
        omega
      · simp [h.nonnull]
      · rw [← hplaces d, hcount d]
        simp only [State.places, List.count_append, List.count_singleton, beq_iff_eq, Option.some.injEq]
        omega
    · refine ⟨h.bounded, h.nonnull, fun d => ?_⟩
      rw [← hplaces d, hcount d]
      simp only [State.places, List.count_append, List.count_singleton, beq_iff_eq]
      omega

theorem initSlot_capacity (σ : State) (creation : Creation) :
    (σ.initSlot creation).capacity = σ.capacity ∧ (σ.initSlot creation).pool.length ≤
    σ.pool.length + 1 := by
  cases creation <;> simp [State.initSlot]

theorem owned_slots (slots : Nat → Creation) (capacity n : Nat) (within : n ≤ capacity) :
    Owned ((List.range n).foldl (fun σ i => σ.initSlot (slots i)) { capacity := capacity }) ∧
    ((List.range n).foldl (fun σ i => State.initSlot σ (slots i))
      { capacity := capacity }).pool.length ≤ n ∧
    ((List.range n).foldl (fun σ i => State.initSlot σ (slots i)) { capacity := capacity }).capacity =
      capacity := by
  induction n with
  | zero => exact ⟨⟨Nat.zero_le _, nofun, fun c => by simp [State.places]⟩, Nat.le_refl _, rfl⟩
  | succ n ih =>
    obtain ⟨howned, hlength, hcapacity⟩ := ih (by omega)
    rw [List.range_succ, List.foldl_append, List.foldl_cons, List.foldl_nil]
    obtain ⟨hsame, hone⟩ := initSlot_capacity
      ((List.range n).foldl (fun σ i => State.initSlot σ (slots i)) { capacity := capacity }) (slots n)
    exact ⟨howned.initSlot (by omega) _, by omega, hsame.trans hcapacity⟩

theorem owned_construct (capacity : Nat) (slots : Nat → Creation) : Owned (.construct capacity slots) :=
  (owned_slots slots capacity capacity (Nat.le_refl _)).1

theorem Owned.step {σ' : State} {a : Act} (h : Owned σ) (hstep : step σ a = some σ') : Owned σ' := by
  cases a with
  | acquire t =>
    simp only [MySqlPool.step, Option.ite_none_left_eq_some, Option.some.injEq] at hstep
    exact hstep.2 ▸ h.acquire t
  | newConnection t creation =>
    simp only [MySqlPool.step, Option.ite_none_right_eq_some, Option.some.injEq] at hstep
    exact hstep.2 ▸ h.newConnection t creation
  | release t session =>
    simp only [MySqlPool.step, Option.ite_none_right_eq_some, Option.some.injEq] at hstep
    exact hstep.2 ▸ h.release t hstep.1.2

theorem step_capacity {σ' : State} {a : Act} (hstep : MySqlPool.step σ a = some σ') :
    σ'.capacity = σ.capacity := by
  cases a with
  | acquire t =>
    simp only [MySqlPool.step, Option.ite_none_left_eq_some, Option.some.injEq] at hstep
    rw [← hstep.2, State.acquire]
    split <;> rfl
  | newConnection t creation =>
    simp only [MySqlPool.step, Option.ite_none_right_eq_some, Option.some.injEq] at hstep
    rw [← hstep.2]
    cases creation <;> rfl
  | release t session =>
    simp only [MySqlPool.step, Option.ite_none_right_eq_some, Option.some.injEq] at hstep
    rw [← hstep.2]
    cases session with
    | none => rfl
    | some c =>
      unfold State.release
      dsimp only
      split <;> rfl

theorem Owned.borrowed (h : Owned σ) {t : Thread} {c : Nat} (held : (t, c) ∈ σ.borrowed) :
    some c ∉ σ.pool ∧ c ∉ σ.destroyed ∧ ∀ u, (u, c) ∈ σ.borrowed → u = t := by
  have hplaces := h.places c
  have hcount := count_erase_held held c
  rw [if_pos rfl] at hcount
  unfold State.places at hplaces
  have hone : (if c < σ.created then 1 else 0) ≤ 1 := by split <;> omega
  refine ⟨List.count_eq_zero.mp (by omega), List.count_eq_zero.mp (by omega), fun u hu => ?_⟩
  by_contra hne
  have hother : (u, c) ∈ σ.borrowed.erase (t, c) :=
    (List.mem_erase_of_ne fun heq => hne (congrArg Prod.fst heq)).mpr hu
  have hpos : 0 < ((σ.borrowed.erase (t, c)).map Prod.snd).count c :=
    List.count_pos_iff.mpr (List.mem_map.mpr ⟨(u, c), hother, rfl⟩)
  omega

theorem Owned.nodup (h : Owned σ) : σ.pool.Nodup := by
  rw [List.nodup_iff_count_le_one]
  intro slot
  cases slot with
  | none =>
    rw [List.count_eq_zero.mpr h.nonnull]
    exact Nat.zero_le 1
  | some c =>
    have hplaces := h.places c
    unfold State.places at hplaces
    split at hplaces <;> omega

/-- `acquire` goes on to create a connection only when it found none idle. -/
theorem Owned.acquire_creating (h : Owned σ) {t : Thread} (free : σ.creating t = false)
    (creating : (σ.acquire t).creating t = true) : (σ.acquire t).pool = σ.pool := by
  have hnonnull := h.nonnull
  unfold State.acquire at creating ⊢
  cases hpool : σ.pool with
  | nil => rfl
  | cons front rest =>
    rw [hpool] at hnonnull creating
    cases front with
    | none => exact absurd List.mem_cons_self hnonnull
    | some c =>
      rw [free] at creating
      cases creating

end Ownership

/-- Whatever slots fail and however the threads are interleaved: the idle queue is bounded and holds
no null and nothing twice, a borrowed connection is neither idle nor held by another thread, a
created one is in one place, and both halves of an `acquire` that fails leave the queue as it was. -/
theorem pool_ownership (capacity : Nat) (slots : Nat → Creation) (acts : List Act) (σ : State)
    (run : exec step (.construct capacity slots) acts = some σ) :
    σ.pool.length ≤ capacity ∧ none ∉ σ.pool ∧ σ.pool.Nodup ∧
    (∀ t c, (t, c) ∈ σ.borrowed → some c ∉ σ.pool ∧ ∀ u, (u, c) ∈ σ.borrowed → u = t) ∧
    (∀ c, c < σ.created →
      σ.pool.count (some c) + (σ.borrowed.map Prod.snd).count c + σ.destroyed.count c = 1) ∧
    (∀ t σ', step σ (.acquire t) = some σ' → σ'.creating t = true → σ'.pool = σ.pool) ∧
    ∀ t creation σ', step σ (.newConnection t creation) = some σ' → σ'.pool = σ.pool := by
  have h : Owned σ := invariant (fun _ _ _ h hs => h.step hs) (owned_construct capacity slots) run
  have hcapacity : σ.capacity = capacity := invariant (I := fun σ => σ.capacity = capacity)
    (fun _ _ _ h hs => (step_capacity hs).trans h)
    (owned_slots slots capacity capacity (Nat.le_refl _)).2.2 run
  refine ⟨hcapacity ▸ h.bounded, h.nonnull, h.nodup, fun t c held => ?_, fun c hc => ?_, ?_, ?_⟩
  · exact ⟨(h.borrowed held).1, (h.borrowed held).2.2⟩
  · exact (h.places c).trans (if_pos hc)
  · intro t σ' hstep creating
    simp only [step, Option.ite_none_left_eq_some, Bool.not_eq_true, Option.some.injEq] at hstep
    obtain ⟨hfree, rfl⟩ := hstep
    exact h.acquire_creating hfree creating
  · intro t creation σ' hstep
    simp only [step, Option.ite_none_right_eq_some, Option.some.injEq] at hstep
    rw [← hstep.2]
    cases creation <;> rfl

/-- One slot fails at construction, two threads borrow, and both give back. -/
theorem pool_ownership_two_threads :
    ∃ σ, exec step (.construct 2 fun i => if i = 0 then .schemaFailed else .connected)
        [.acquire 0, .acquire 1, .newConnection 1 .connected, .acquire 2, .newConnection 2 .refused,
          .release 0 (some 1), .release 1 (some 2), .release 1 none] = some σ ∧
      σ.pool.length ≤ 2 ∧ none ∉ σ.pool ∧ σ.pool.Nodup := by
  obtain ⟨σ, run⟩ := Option.isSome_iff_exists.mp
    (show (exec step (.construct 2 fun i => if i = 0 then .schemaFailed else .connected)
      [.acquire 0, .acquire 1, .newConnection 1 .connected, .acquire 2, .newConnection 2 .refused,
        .release 0 (some 1), .release 1 (some 2), .release 1 none]).isSome by decide)
  have h := pool_ownership 2 _ _ σ run
  exact ⟨σ, run, h.1, h.2.1, h.2.2.1⟩

end DBMiddleWare.MySqlPool
