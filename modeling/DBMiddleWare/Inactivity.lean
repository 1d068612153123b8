import DBMiddleWare.ReadLoop
import DBMiddleWare.ShardScan

/-!
# Inactive sessions

`cleanup_inactive_sessions` closes the sessions whose last alive time lies too far back. The
constructor sets that time, and `update_alive_time`, which is there to refresh it, has no
caller: it stays the time at which the client connected, whatever the client sends.
-/

namespace DBMiddleWare

open Execution
set_option autoImplicit false

/-- A packet that a handler has come to the end of without an exception. -/
structure ProcessedPacket where
  session : SessionPtr
  time : Int
  deriving Repr, DecidableEq

/-- What a call of `cleanup_inactive_sessions` finds in a shard, and what it is going to close. -/
structure ShardVisit where
  now : Int
  maxIdleTime : Int
  registered : List SessionPtr
  collected : List SessionPtr
  deriving Repr, DecidableEq

/-- The server with a clock and a record of what happened when. -/
structure TimedWorld where
  world : World
  clock : Int
  acceptedAt : SessionPtr → Int := fun _ => 0
  processed : List ProcessedPacket := []
  visits : List ShardVisit := []

/-- The next step of the handler answers its packet, and not from the catch block. -/
def Phase.completes : Phase → Bool
  | .reply text => text ≠ parsingFailed
  | .loginAck _ => true
  | _ => false

/-- The reading of the clock that a step works with. -/
def Act.reading? : Act → Option Int
  | .accept now => some now
  | .cleanupInactive _ now _ => some now
  | _ => none

namespace TimedWorld

def begin (shardCount : Nat) (clock : Int) : TimedWorld where
  world := .init shardCount
  clock := clock

def note (x : TimedWorld) (time : Int) : Act → TimedWorld
  | .accept now => { x with acceptedAt := Function.update x.acceptedAt x.world.nextPtr now }
  | .cleanupInactive shard now maxIdleTime =>
    let visit : ShardVisit :=
      { now := now
        maxIdleTime := maxIdleTime
        registered := x.world.manager.shardSessions shard
        collected := x.world.inactiveSessions shard now maxIdleTime }
    { x with visits := x.visits ++ [visit] }
  | .on s .advance =>
    if (x.world.session s).phase.completes then { x with processed := x.processed ++ [⟨s, time⟩] } else x
  | _ => x

/-- A step of the server at a time; the clock has been read before. -/
def step (env : Env) (x : TimedWorld) (a : Int × Act) : Option TimedWorld :=
  if x.clock ≤ a.1 ∧ a.2.reading?.all (· ≤ a.1) then
    (DBMiddleWare.step env x.world a.2).map fun σ => { x.note a.1 a.2 with world := σ, clock := a.1 }
  else none

/-- No call of the cleanup closes a session that had a packet processed so shortly before. -/
def SparesActive (x : TimedWorld) : Prop :=
  ∀ v ∈ x.visits, ∀ p ∈ x.processed, v.now ≤ p.time + v.maxIdleTime → p.session ∉ v.collected

/-- No call of the cleanup meets such a session unless it has connected as shortly before. -/
def ConnectedRecently (x : TimedWorld) : Prop :=
  ∀ v ∈ x.visits, ∀ p ∈ x.processed, v.now ≤ p.time + v.maxIdleTime → p.session ∈ v.registered →
    v.now ≤ x.acceptedAt p.session + v.maxIdleTime

instance (x : TimedWorld) : Decidable x.SparesActive := by
  unfold SparesActive
  infer_instance

end TimedWorld

theorem LoopMove.lastAliveTime {env : Env} {t : SessionPtr} {a : Act} {o o' : Session}
    (h : LoopMove env t a o o') : o'.lastAliveTime = o.lastAliveTime := by
  cases h with
  | keep _ intake _ => exact congrArg (fun x => x.2.2) intake
  | read data _ _ loop => exact (loop_eq_iff.mp loop).2.2.2
  | take packet mgr _ _ _ loop => exact (loop_eq_iff.mp loop).2.2.2
  | leave mgr _ _ _ intake _ => exact congrArg (fun x => x.2.2) intake

section Closed
open Control
variable {env : Env} {t : SessionPtr}

theorem Control.Touch.closed {o o' : SessionControl} (h : Touch env o o') (closed : o.closed = true) :
    o'.closed = true := by
  cases h with
  | shut => exact o.shut_closed
  | flag => rfl
  | _ => exact closed

theorem closed_mono {σ σ' : World} {a : Act} (existing : t < σ.nextPtr)
    (hs : DBMiddleWare.step env σ a = some σ') (closed : (σ.session t).closed = true) :
    (σ'.session t).closed = true := by
  have h : t < σ'.control.nextPtr ∧ (σ'.control.session t).closed = true :=
    control_preserved (I := fun c => t < c.nextPtr ∧ (c.session t).closed = true)
      (fun _ _ _ hop hc => ⟨Nat.lt_of_lt_of_le hc.1 hop.nextPtr_le, (hop.touch hc.1).closed hc.2⟩)
      hs ⟨existing, closed⟩
  exact h.2

end Closed

section ToClose
variable {env : Env} {σ σ' : World} {s : SessionPtr}

theorem postTask_toClose (σ : World) (s : SessionPtr) (cfg : Config) (fn : Task) :
    (σ.postTask s cfg fn).toClose = σ.toClose := by
  unfold World.postTask
  split
  · exact World.closeSession_toClose σ s
  · rfl

theorem doRead_toClose (σ : World) (s : SessionPtr) (cfg : Config) :
    (σ.doRead s cfg).toClose = σ.toClose := by
  unfold World.doRead
  split
  · rfl
  · split
    · rfl
    · exact postTask_toClose _ s cfg .read

theorem drainStep_toClose (env : Env) (σ : World) (s : SessionPtr) :
    (σ.drainStep env s).toClose = σ.toClose := by
  unfold World.drainStep
  split
  · unfold World.enter
    dsimp only
    split
    · exact World.closeSession_toClose _ s
    · rfl
  · dsimp only
    split
    · exact World.closeSession_toClose _ s
    · exact doRead_toClose _ s env.config

theorem advance_toClose (h : Advanced env σ s σ') : σ'.toClose = σ.toClose := by
  cases h with
  | drain _ => exact drainStep_toClose env σ s
  | reply text _ => rfl
  | lookup nickname _ =>
    unfold World.lookupStep
    split
    · rfl
    · rfl
  | name nickname _ => rfl
  | ready nickname _ => rfl
  | register nickname _ =>
    unfold World.registerStep
    split
    · rfl
    · rfl
  | evict nickname prev _ => exact World.closeSession_toClose σ prev
  | ack nickname _ => rfl
  | next _ => rfl

/-- Only a cleanup closing a session takes it from the list. -/
theorem event_toClose {e : Event} (h : Happened env σ s e σ') :
    σ'.toClose = if e = .sweep then σ.toClose.erase s else σ.toClose := by
  cases h with
  | start _ =>
    unfold World.start
    split
    · rfl
    · split
      · rfl
      · rfl
  | strand closure rest _ _ =>
    cases closure with
    | write text => rfl
    | task fn => exact postTask_toClose _ s env.config fn
  | readData data _ => rfl
  | readError aborted _ =>
    unfold World.readError
    dsimp only
    split
    · rfl
    · exact World.closeSession_toClose _ s
  | advance advanced => exact advance_toClose advanced
  | postWrite text => rfl
  | writeDone k w ec _ =>
    unfold World.onWrite
    dsimp only
    split
    · rfl
    · split
      · exact World.closeSession_toClose _ s
      · rfl
  | sweep => exact World.closeSession_toClose { σ with toClose := σ.toClose.erase s } s
  | destroy _ => rfl

theorem accept_toClose (σ : World) (now : Int) : (σ.accept now).toClose = σ.toClose := by
  rw [World.accept]
  rcases addSession_cases _ σ.nextPtr with heq | ⟨r, _, heq⟩
  · rw [heq]
  · rw [heq, World.closeSession_toClose]

/-- A collected session waits until it is closed. -/
theorem toClose_step {a : Act} {t : SessionPtr} (existing : t < σ.nextPtr) (hs : step env σ a = some σ')
    (h : t ∈ σ.toClose ∨ (σ.session t).closed = true) :
    t ∈ σ'.toClose ∨ (σ'.session t).closed = true := by
  rcases h with hwaits | hclosed
  · rcases step_cases hs with ⟨now, rfl, rfl⟩ | ⟨collected, _, rfl⟩ | ⟨s, e, rfl, _, happened⟩
    · exact Or.inl ((accept_toClose σ now).symm ▸ hwaits)
    · exact Or.inl (List.mem_append_left collected hwaits)
    · rw [event_toClose happened]
      by_cases hsweep : e = .sweep
      · subst hsweep
        by_cases hself : t = s
        · subst hself
          cases happened
          apply Or.inr
          rw [World.closeSession_session_self]
          exact SessionControl.shut_closed _
        · rw [if_pos rfl, List.mem_erase_of_ne hself]
          exact Or.inl hwaits
      · rw [if_neg hsweep]
        exact Or.inl hwaits
  · exact Or.inr (closed_mono existing hs hclosed)

end ToClose

/-- The alive time of a session is that of its connection, and what a call is going to close waits
until it is closed. -/
structure TimedWorld.Recorded (x : TimedWorld) : Prop where
  aged : ∀ s < x.world.nextPtr, (x.world.session s).lastAliveTime = x.acceptedAt s
  registered : ∀ v ∈ x.visits, ∀ s ∈ v.registered, s < x.world.nextPtr
  collected : ∀ v ∈ x.visits, v.collected =
    v.registered.filter fun s => v.maxIdleTime < v.now - x.acceptedAt s
  closes : ∀ v ∈ x.visits, ∀ s ∈ v.collected, s ∈ x.world.toClose ∨ (x.world.session s).closed = true

section Run
variable {env : Env} {x x' : TimedWorld} {a : Int × Act}

theorem timed_step_cases (h : x.step env a = some x') :
    ∃ σ, DBMiddleWare.step env x.world a.2 = some σ ∧
      x' = { x.note a.1 a.2 with world := σ, clock := a.1 } := by
  unfold TimedWorld.step at h
  split at h
  · obtain ⟨σ, hσ, rfl⟩ := Option.map_eq_some_iff.mp h
    exact ⟨σ, hσ, rfl⟩
  · cases h

/-- The run of the server without the clock. -/
theorem exec_world {acts : List (Int × Act)} (run : exec (TimedWorld.step env) x acts = some x') :
    exec (DBMiddleWare.step env) x.world (acts.map Prod.snd) = some x'.world := by
  induction acts generalizing x with
  | nil =>
    rw [exec_nil, Option.some.injEq] at run
    rw [run]
    rfl
  | cons a acts ih =>
    obtain ⟨y, hy, hrest⟩ := exec_cons_eq_some.mp run
    obtain ⟨σ, hσ, rfl⟩ := timed_step_cases hy
    exact exec_cons_eq_some.mpr ⟨σ, hσ, ih hrest⟩

theorem TimedWorld.Recorded.mem_registered (h : x.Recorded) {v : ShardVisit} (hv : v ∈ x.visits)
    {s : SessionPtr} (hs : s ∈ v.collected) : s ∈ v.registered := by
  rw [h.collected v hv] at hs
  exact (List.mem_filter.mp hs).1

theorem TimedWorld.Recorded.world (h : x.Recorded) {σ : World} {act : Act}
    (hs : DBMiddleWare.step env x.world act = some σ) (noSession : ∀ now, act ≠ .accept now)
    (clock : Int) (processed : List ProcessedPacket) :
    Recorded { x with world := σ, clock := clock, processed := processed } where
  aged s hlt := by
    have hexisting : s < x.world.nextPtr := by
      by_contra habsent
      obtain ⟨now, hact, _⟩ := created_of_step hs (Nat.le_of_not_lt habsent) hlt
      exact noSession now hact
    exact (step_move hs hexisting).lastAliveTime.trans (h.aged s hexisting)
  registered v hv s hmem := Nat.lt_of_lt_of_le (h.registered v hv s hmem) (nextPtr_le_of_step hs)
  collected := h.collected
  closes v hv s hmem :=
    toClose_step (h.registered v hv s (h.mem_registered hv hmem)) hs (h.closes v hv s hmem)

theorem TimedWorld.Recorded.accept (env : Env) (h : x.Recorded) (clock now : Int) :
    Recorded { x.note clock (.accept now) with world := x.world.accept now, clock := clock } := by
  have hs : DBMiddleWare.step env x.world (.accept now) = some (x.world.accept now) := rfl
  have hsame : ∀ s < x.world.nextPtr, Function.update x.acceptedAt x.world.nextPtr now s =
      x.acceptedAt s :=
    fun s hlt => Function.update_of_ne (Nat.ne_of_lt hlt) ..
  constructor
  case aged =>
    intro s hlt
    change _ = Function.update x.acceptedAt x.world.nextPtr now s
    by_cases hexisting : s < x.world.nextPtr
    · rw [hsame s hexisting]
      exact (step_move hs hexisting).lastAliveTime.trans (h.aged s hexisting)
    · obtain ⟨_, _, rfl, _⟩ := created_of_step hs (Nat.le_of_not_lt hexisting) hlt
      have hnew := accept_loop x.world now x.world.nextPtr
      rw [if_pos rfl] at hnew
      rw [Function.update_self]
      exact (loop_eq_iff.mp hnew).2.2.2
  case registered =>
    exact fun v hv s hmem => Nat.lt_of_lt_of_le (h.registered v hv s hmem) (nextPtr_le_of_step hs)
  case collected =>
    intro v hv
    rw [h.collected v hv]
    apply List.filter_congr
    intro s hmem
    exact congrArg (fun time => decide (v.maxIdleTime < v.now - time))
      (hsame s (h.registered v hv s hmem)).symm
  case closes =>
    intro v hv s hmem
    exact toClose_step (h.registered v hv s (h.mem_registered hv hmem)) hs (h.closes v hv s hmem)

theorem TimedWorld.Recorded.visit (h : x.Recorded) (v : ShardVisit)
    (registered : ∀ s ∈ v.registered, s < x.world.nextPtr)
    (collected : v.collected = v.registered.filter fun s => v.maxIdleTime < v.now - x.acceptedAt s)
    (closes : ∀ s ∈ v.collected, s ∈ x.world.toClose) :
    Recorded { x with visits := x.visits ++ [v] } where
  aged := h.aged
  registered := by
    simp only [List.forall_mem_append, List.forall_mem_singleton]
    exact ⟨h.registered, registered⟩
  collected := by
    simp only [List.forall_mem_append, List.forall_mem_singleton]
    exact ⟨h.collected, collected⟩
  closes := by
    simp only [List.forall_mem_append, List.forall_mem_singleton]
    exact ⟨h.closes, fun s hs => Or.inl (closes s hs)⟩

/-- The sessions that a scan finds are there. -/
theorem shardSessions_lt {shardCount : Nat} {acts : List Act} {σ : World}
    (run : exec (DBMiddleWare.step env) (World.init shardCount) acts = some σ) (shard : Nat) :
    ∀ s ∈ σ.manager.shardSessions shard, s < σ.nextPtr := by
  intro s hs
  have h := filedKnown_of_run run
  exact h.known _ s ((mem_shardSessions h.filed).mp hs).2

theorem recorded_of_run {shardCount : Nat} {clock : Int} {acts : List (Int × Act)}
    (run : exec (TimedWorld.step env) (.begin shardCount clock) acts = some x) : x.Recorded := by
  have hbegin : (TimedWorld.begin shardCount clock).Recorded := by
    refine ⟨fun s hlt => absurd hlt (Nat.not_lt_zero s), ?_, ?_, ?_⟩
    all_goals exact fun v hv => absurd hv List.not_mem_nil
  apply history_invariant (H := fun _ x => x.Recorded) hbegin _ run
  · rintro acts x ⟨time, act⟩ x' run h hs
    obtain ⟨σ, hσ, rfl⟩ := timed_step_cases hs
    have hregistered := shardSessions_lt (exec_world run)
    cases act with
    | accept now =>
      obtain rfl := Option.some.inj hσ
      exact h.accept env time now
    | cleanupInactive shard now maxIdleTime =>
      have hworld := h.world hσ (by simp) time x.processed
      simp only [step, Option.ite_none_right_eq_some, Option.some.injEq] at hσ
      obtain ⟨_, rfl⟩ := hσ
      apply hworld.visit
      · exact hregistered shard
      · apply List.filter_congr
        intro s hmem
        exact congrArg (fun time => decide (maxIdleTime < now - time))
          (h.aged s (hregistered shard s hmem))
      · exact fun s hmem => List.mem_append_right _ hmem
    | cleanupUnauth maxUnauth sorted => exact h.world hσ (by simp) time x.processed
    | on s e =>
      cases e with
      | advance =>
        unfold TimedWorld.note
        dsimp only
        split
        · exact h.world hσ (by simp) time _
        · exact h.world hσ (by simp) time x.processed
      | _ => exact h.world hσ (by simp) time x.processed

end Run

/-- In every run the cleanup spares the sessions that had a packet processed within the idle time
exactly when those that it meets have also connected within it. What it does not spare, it closes. -/
theorem cleanup_spares_active_iff (env : Env) (shardCount : Nat) (clock : Int) (acts : List (Int × Act))
    (x : TimedWorld) (run : exec (TimedWorld.step env) (.begin shardCount clock) acts = some x) :
    (x.SparesActive ↔ x.ConnectedRecently) ∧
    ∀ v ∈ x.visits, ∀ s ∈ v.collected, s ∈ x.world.toClose ∨ (x.world.session s).closed = true := by
  have h := recorded_of_run run
  refine ⟨?_, h.closes⟩
  unfold TimedWorld.SparesActive TimedWorld.ConnectedRecently
  refine forall₂_congr fun v hv => forall₂_congr fun p _ => imp_congr_right fun _ => ?_
  rw [h.collected v hv, List.mem_filter, decide_eq_true_iff, not_and, Int.not_lt]
  refine imp_congr_right fun _ => ?_
  omega

/-- A keepalive as text and as the parser reads it. -/
def keepaliveText : Bytes × Json :=
  (utf8 "\x7b\"type\":\"keepalive\"\x7d", .object [("type", .string "keepalive")])

/-- A client that logs in and sends a keepalive with the secret after 290 seconds. -/
def keepaliveClient : List (Int × Act) :=
  (connects 0).map (Prod.mk 0) ++ (sends 0 [7 :: (loginText "a").1] 8).map (Prod.mk 1) ++
    (sends 0 [7 :: keepaliveText.1] 4).map (Prod.mk 290)

def keepaliveEnv : Env := .ofTable [7] [loginText "a", keepaliveText]

/-- The cleanup of the same second finds it recently connected. -/
theorem cleanup_spares_active_iff_keepalive :
    ∃ x, exec (TimedWorld.step keepaliveEnv) (.begin 4 0)
        (keepaliveClient ++ [(290, .cleanupInactive 0 290 300)]) = some x ∧
      x.processed = [⟨0, 1⟩, ⟨0, 290⟩] ∧ (x.SparesActive ↔ x.ConnectedRecently) := by
  have hrun : (exec (TimedWorld.step keepaliveEnv) (.begin 4 0)
      (keepaliveClient ++ [(290, .cleanupInactive 0 290 300)])).map TimedWorld.processed =
        some [⟨0, 1⟩, ⟨0, 290⟩] := by decide +kernel
  obtain ⟨x, run, hprocessed⟩ := Option.map_eq_some_iff.mp hrun
  exact ⟨x, run, hprocessed, (cleanup_spares_active_iff keepaliveEnv 4 0 _ x run).1⟩

/-- Eleven seconds later the call with five minutes closes it. -/
theorem cleanup_closes_active :
    ∃ x, exec (TimedWorld.step keepaliveEnv) (.begin 4 0)
        (keepaliveClient ++ [(301, .cleanupInactive 0 301 300), (301, .on 0 .sweep)]) = some x ∧
      x.processed = [⟨0, 1⟩, ⟨0, 290⟩] ∧ (x.world.session 0).closed = true ∧ ¬ x.SparesActive := by
  have hrun : (exec (TimedWorld.step keepaliveEnv) (.begin 4 0)
      (keepaliveClient ++ [(301, .cleanupInactive 0 301 300), (301, .on 0 .sweep)])).map
        (fun x => (x.processed, (x.world.session 0).closed, decide x.SparesActive)) =
      some ([⟨0, 1⟩, ⟨0, 290⟩], true, false) := by decide +kernel
  obtain ⟨x, run, hview⟩ := Option.map_eq_some_iff.mp hrun
  obtain ⟨hprocessed, hrest⟩ := Prod.mk.inj hview
  obtain ⟨hclosed, hspares⟩ := Prod.mk.inj hrest
  exact ⟨x, run, hprocessed, hclosed, of_decide_eq_false hspares⟩

end DBMiddleWare
