import DBMiddleWare.Library.Stuttering
import DBMiddleWare.Locality

/-!
# Two servers in step

Two states of the server that agree on some of the sessions and on what these can see of the
rest answer every event of such a session alike. What the events have to preserve for that
is listed once: for the events that touch nothing but the session, and for all of them with
the nickname index, the cleanups and the destruction.
-/

namespace DBMiddleWare

open Execution
set_option autoImplicit false

/-- A relation between servers under which a session looks the same, kept by what only touches
the session and its place in the registry. -/
structure Beside (s : SessionPtr) (R : World → World → Prop) : Prop where
  session : ∀ σ τ, R σ τ → σ.session s = τ.session s
  modify : ∀ σ τ f, R σ τ → (∀ n prev, (f (σ.session s)).phase = .loginEvict n prev →
    (σ.session s).phase = .loginEvict n prev) → R (σ.modify s f) (τ.modify s f)
  close : ∀ σ τ, R σ τ → R (σ.closeSession s) (τ.closeSession s)

/-- The next step of the handler works on the nickname index. -/
def Phase.directory : Phase → Bool
  | .loginLookup _ => true
  | .loginRegister _ => true
  | .loginEvict _ _ => true
  | _ => false

section Beside
variable {s : SessionPtr} {R : World → World → Prop} (h : Beside s R) {σ τ : World} (same : R σ τ)
include h same

theorem Beside.keep {f : Session → Session} (phase : ∀ o, (f o).phase = o.phase) :
    R (σ.modify s f) (τ.modify s f) :=
  h.modify σ τ f same fun _ _ hp => (phase _).symm.trans hp

theorem Beside.goto {f : Session → Session}
    (elsewhere : ∀ n prev, (f (σ.session s)).phase ≠ .loginEvict n prev) :
    R (σ.modify s f) (τ.modify s f) :=
  h.modify σ τ f same fun n prev hp => absurd hp (elsewhere n prev)

theorem Beside.setPhase {phase : Phase} (elsewhere : ∀ n prev, phase ≠ .loginEvict n prev) :
    R (σ.setPhase s phase) (τ.setPhase s phase) := h.goto same elsewhere

theorem Beside.postWrite (cfg : Config) (text : Bytes) :
    R (σ.postWrite s cfg text) (τ.postWrite s cfg text) := by
  apply h.keep same
  intro o
  exact WriteQueue.postWrite_view SessionControl.phase (fun _ => rfl) cfg text o

theorem Beside.dispatch (closure : Closure) : R (σ.dispatch s closure) (τ.dispatch s closure) :=
  h.keep same fun _ => rfl

theorem Beside.postTask (cfg : Config) (fn : Task) : R (σ.postTask s cfg fn) (τ.postTask s cfg fn) := by
  unfold World.postTask
  rw [h.session σ τ same]
  split
  · exact h.close σ τ same
  · exact h.keep same fun o => congrArg SessionControl.phase (pushTask_control fn o)

theorem Beside.doRead (cfg : Config) : R (σ.doRead s cfg) (τ.doRead s cfg) := by
  unfold World.doRead
  rw [h.session σ τ same]
  split
  · exact same
  · split
    · exact same
    · exact h.postTask (h.keep same (f := fun o => { o with readPending := true }) fun _ => rfl)
        cfg .read

theorem Beside.start : R (σ.start s) (τ.start s) := by
  unfold World.start
  rw [h.session σ τ same]
  split
  · exact same
  · split
    · exact same
    · exact h.dispatch (h.keep same (f := fun o => { o with readPending := true }) fun _ => rfl) _

theorem Beside.enter (env : Env) (r : Route) : R (σ.enter env s r) (τ.enter env s r) := by
  have hmoved : R (σ.modify s fun o =>
      { o with handled := o.handled ++ r.handler?.toList, phase := r.phase env })
      (τ.modify s fun o => { o with handled := o.handled ++ r.handler?.toList, phase := r.phase env }) :=
    h.goto same (not_evict_of_pending (Route.phase_pending env r))
  unfold World.enter
  dsimp only
  split
  · exact h.close _ _ hmoved
  · exact hmoved

theorem Beside.drainStep (env : Env) : R (σ.drainStep env s) (τ.drainStep env s) := by
  unfold World.drainStep
  rw [← h.session σ τ same]
  split
  · rename_i packet mgr _
    have htaken : R (σ.modify s fun o => { o with msgBufMgr := mgr })
        (τ.modify s fun o => { o with msgBufMgr := mgr }) := h.keep same fun _ => rfl
    have hnoted : R ((σ.modify s fun o => { o with msgBufMgr := mgr }).noteReceived s packet)
        ((τ.modify s fun o => { o with msgBufMgr := mgr }).noteReceived s packet) :=
      h.keep htaken fun _ => rfl
    dsimp only
    rw [← h.session _ _ hnoted]
    exact h.enter hnoted env _
  · rename_i mgr _
    have htaken : R (σ.modify s fun o => { o with msgBufMgr := mgr })
        (τ.modify s fun o => { o with msgBufMgr := mgr }) := h.keep same fun _ => rfl
    dsimp only
    split
    · exact h.close _ _ (h.setPhase htaken (by simp))
    · exact h.doRead (h.setPhase htaken (by simp)) env.config

theorem Beside.readData (data : Bytes) : R (σ.readData s data) (τ.readData s data) :=
  h.goto same (by simp)

theorem Beside.readError (aborted : Bool) : R (σ.readError s aborted) (τ.readError s aborted) := by
  have hnext : R (σ.modify s fun o =>
      { o with asyncReads := o.asyncReads - 1, readPending := false, phase := .next })
      (τ.modify s fun o =>
        { o with asyncReads := o.asyncReads - 1, readPending := false, phase := .next }) :=
    h.goto same (by simp)
  unfold World.readError
  dsimp only
  split
  · exact hnext
  · exact h.close _ _ hnext

theorem Beside.onWrite (k : Nat) (w : PendingWrite) (ec : Bool) :
    R (σ.onWrite s k w ec) (τ.onWrite s k w ec) := by
  have htaken : R (σ.modify s (Session.takeWrite k)) (τ.modify s (Session.takeWrite k)) :=
    h.keep same fun _ => rfl
  unfold World.onWrite
  dsimp only
  rw [h.session _ _ htaken]
  split
  · exact htaken
  · split
    · exact h.close _ _ htaken
    · exact h.keep htaken fun o => congrArg SessionControl.phase (WriteQueue.doWriteQueue_frame _).1

theorem Beside.advance (env : Env) (own : (σ.session s).phase.directory = false) :
    Option.Rel R (σ.advance env s) (τ.advance env s) := by
  unfold World.advance
  rw [← h.session σ τ same]
  cases hp : (σ.session s).phase with
  | starting => exact .none
  | idle => exact .none
  | drain => exact .some (h.drainStep same env)
  | reply text => exact .some (h.postWrite (h.setPhase same (by simp)) env.config text)
  | loginLookup nickname =>
    rw [hp] at own
    cases own
  | loginSet nickname =>
    have hnamed : R (σ.setNickname s nickname) (τ.setNickname s nickname) := h.keep same fun _ => rfl
    exact .some (h.setPhase hnamed (by simp))
  | loginReady nickname =>
    have hready : R (σ.onNicknameRegistered s) (τ.onNicknameRegistered s) := h.keep same fun _ => rfl
    exact .some (h.setPhase hready (by simp))
  | loginRegister nickname =>
    rw [hp] at own
    cases own
  | loginEvict nickname prev =>
    rw [hp] at own
    cases own
  | loginAck nickname =>
    have hdrain : R (σ.setPhase s .drain) (τ.setPhase s .drain) := h.setPhase same (by simp)
    have hacked := h.keep hdrain (f := fun o => { o with acked := o.acked ++ [nickname] }) fun _ => rfl
    exact .some (h.postWrite hacked env.config loginOk)
  | next =>
    exact .some (h.keep (h.setPhase same (by simp)) fun o =>
      congrArg SessionControl.phase (runNextTask_control o))

/-- Both servers can take the same events that touch only the session. -/
theorem Beside.event (env : Env) (e : Event) (own : e = .advance → (σ.session s).phase.directory = false)
    (kept : e ≠ .sweep ∧ e ≠ .destroy) : Option.Rel R (σ.event env s e) (τ.event env s e) := by
  have hsession := h.session σ τ same
  cases e with
  | start =>
    unfold World.event
    rw [← hsession]
    exact rel_ite Iff.rfl fun _ => h.start (h.setPhase same (by simp))
  | strand =>
    unfold World.event
    dsimp only
    rw [← hsession]
    split
    · exact .none
    · rename_i closure rest _
      refine rel_ite Iff.rfl fun _ => ?_
      have htaken : R (σ.modify s fun o => { o with strand := rest })
          (τ.modify s fun o => { o with strand := rest }) := h.keep same fun _ => rfl
      cases closure with
      | write text => exact h.postWrite htaken env.config text
      | task fn => exact h.postTask htaken env.config fn
  | readData data =>
    unfold World.event
    rw [← hsession]
    exact rel_ite Iff.rfl fun _ => h.readData same data
  | readError aborted =>
    unfold World.event
    rw [← hsession]
    exact rel_ite Iff.rfl fun _ => h.readError same aborted
  | advance => exact h.advance same env (own rfl)
  | postWrite text => exact .some (h.dispatch same _)
  | writeDone k ec =>
    unfold World.event
    dsimp only
    rw [← hsession]
    split
    · cases (σ.session s).asyncWrites[k]? with
      | none => exact .none
      | some w => exact .some (h.onWrite same k w ec)
    · exact .none
  | sweep => exact absurd rfl kept.1
  | destroy => exact absurd rfl kept.2

end Beside

/-- A relation between servers under which the sessions of `P` cannot tell them apart, kept by the
operations on these sessions. -/
structure Twin (P : SessionPtr → Prop) (R : World → World → Prop) : Prop where
  session : ∀ σ τ s, R σ τ → P s → σ.session s = τ.session s
  mutex : ∀ σ τ, R σ τ → σ.nicknameMutex = τ.nicknameMutex
  find : ∀ σ τ n, R σ τ → σ.findSessionByNickname n = τ.findSessionByNickname n
  found : ∀ σ τ n s, R σ τ → σ.findSessionByNickname n = some s → P s
  evicted : ∀ σ τ s n prev, R σ τ → P s → (σ.session s).phase = .loginEvict n prev → P prev
  collected : ∀ σ τ s, R σ τ → P s → (s ∈ σ.toClose ↔ s ∈ τ.toClose)
  owned : ∀ σ τ s, R σ τ → P s → σ.owned s = τ.owned s
  modify : ∀ σ τ s f, R σ τ → P s → (∀ n prev, (f (σ.session s)).phase = .loginEvict n prev → P prev) →
    R (σ.modify s f) (τ.modify s f)
  close : ∀ σ τ s, R σ τ → P s → R (σ.closeSession s) (τ.closeSession s)
  index : ∀ σ τ s n, R σ τ → P s → R (σ.indexNickname s n) (τ.indexNickname s n)
  lock : ∀ σ τ s, R σ τ → P s → R { σ with nicknameMutex := some s } { τ with nicknameMutex := some s }
  unlock : ∀ σ τ, R σ τ → R { σ with nicknameMutex := none } { τ with nicknameMutex := none }
  take : ∀ σ τ s, R σ τ → P s →
    R { σ with toClose := σ.toClose.erase s } { τ with toClose := τ.toClose.erase s }
  destroy : ∀ σ τ s, R σ τ → P s →
    R { σ with live := Function.update σ.live s false } { τ with live := Function.update τ.live s false }

section Twin
variable {P : SessionPtr → Prop} {R : World → World → Prop} (h : Twin P R) {σ τ : World} (same : R σ τ)
  {s : SessionPtr} (hs : P s)

include h hs in
theorem Twin.beside : Beside s R where
  session σ τ same := h.session σ τ s same hs
  modify σ τ f same phase :=
    h.modify σ τ s f same hs fun n prev hp => h.evicted σ τ s n prev same hs (phase n prev hp)
  close σ τ same := h.close σ τ s same hs

include h same hs

theorem Twin.lookupStep (nickname : String) : R (σ.lookupStep s nickname) (τ.lookupStep s nickname) := by
  unfold World.lookupStep
  rw [h.find σ τ nickname same]
  split
  · exact (h.beside hs).setPhase same (by simp)
  · exact (h.beside hs).setPhase same (by simp)

theorem Twin.registerStep (nickname : String) :
    R (σ.registerStep s nickname) (τ.registerStep s nickname) := by
  have hprevious : σ.previousOwner s nickname = τ.previousOwner s nickname := by
    unfold World.previousOwner
    rw [h.find σ τ nickname same]
  unfold World.registerStep
  rw [← hprevious]
  split
  · rename_i prev hprev
    have hprevP : P prev := h.found σ τ nickname prev same (Option.filter_eq_some_iff.mp hprev).1
    have hnoticed := (h.beside hprevP).dispatch same (.write World.loggedInElsewhere)
    refine h.lock _ _ s (h.modify _ _ s _ hnoticed hs fun n prev' hp => ?_) hs
    exact (Phase.loginEvict.inj hp).2 ▸ hprevP
  · exact (h.beside hs).setPhase (h.index σ τ s nickname same hs) (by simp)

theorem Twin.evictStep (nickname : String) {prev : SessionPtr} (hprev : P prev) :
    R (σ.evictStep s nickname prev) (τ.evictStep s nickname prev) := by
  have hindexed := h.index _ _ s nickname (h.close σ τ prev same hprev) hs
  exact h.unlock _ _ ((h.beside hs).setPhase hindexed (by simp))

theorem Twin.advance (env : Env) : Option.Rel R (σ.advance env s) (τ.advance env s) := by
  cases hp : (σ.session s).phase.directory with
  | false => exact (h.beside hs).advance same env hp
  | true =>
    unfold World.advance
    rw [← h.session σ τ s same hs]
    cases hphase : (σ.session s).phase with
    | loginLookup nickname =>
      exact rel_ite (by rw [h.mutex σ τ same]) fun _ => h.lookupStep same hs nickname
    | loginRegister nickname =>
      exact rel_ite (by rw [h.mutex σ τ same]) fun _ => h.registerStep same hs nickname
    | loginEvict nickname prev =>
      exact .some (h.evictStep same hs nickname (h.evicted σ τ s nickname prev same hs hphase))
    | _ =>
      rw [hphase] at hp
      cases hp

/-- Both servers can take the same events of the session, with related results. -/
theorem Twin.event (env : Env) (e : Event) : Option.Rel R (σ.event env s e) (τ.event env s e) := by
  by_cases hadvance : e = .advance
  · subst hadvance
    exact h.advance same hs env
  · by_cases hsweep : e = .sweep
    · subst hsweep
      exact rel_ite (h.collected σ τ s same hs) fun _ => h.close _ _ s (h.take σ τ s same hs) hs
    · by_cases hdestroy : e = .destroy
      · subst hdestroy
        unfold World.event
        rw [h.owned σ τ s same hs]
        dsimp only
        split
        · exact .none
        · exact .some (h.destroy σ τ s same hs)
      · exact (h.beside hs).event same env e (fun hadv => absurd hadv hadvance) ⟨hsweep, hdestroy⟩

end Twin

end DBMiddleWare
