import DBMiddleWare.Framing
import DBMiddleWare.Locality

/-!
# The read loop of a session

What the steps of the server do to the buffer of a session, to the packets it has taken
from it and to the point its handler has reached. Only the handler's own steps take
packets, and only a completed read fills the buffer.
-/

namespace DBMiddleWare

open Execution MessageBufferManager
set_option autoImplicit false

/-- The read handler has not left its drain loop. -/
def Phase.inLoop : Phase → Bool
  | .starting | .idle | .next => false
  | _ => true

/-- The handler has taken a packet and not answered it yet. -/
def Phase.answering : Phase → Bool
  | .starting | .idle | .drain | .next => false
  | _ => true

theorem inLoop_eq_false_iff {phase : Phase} :
    phase.inLoop = false ↔ phase ≠ .drain ∧ phase.answering = false := by
  cases phase <;> simp [Phase.inLoop, Phase.answering]

theorem Route.phase_answering (env : Env) (r : Route) :
    r = .close ∨ (r.phase env).answering = true := by
  cases r with
  | close => exact Or.inl rfl
  | raise e => exact Or.inr rfl
  | unknown => exact Or.inr rfl
  | handler h msg =>
    apply Or.inr
    unfold Route.phase
    cases h with
    | login =>
      dsimp only
      split
      · rfl
      · split
        · rfl
        · rfl
    | insert =>
      dsimp only
      split
      · rfl
      · rfl

namespace Session

def intake (o : Session) : MessageBufferManager × List Bytes × Int :=
  (o.msgBufMgr, o.received, o.lastAliveTime)

def loop (o : Session) : Phase × MessageBufferManager × List Bytes × Int := (o.phase, o.intake)

section Loop
variable (o : Session)

@[simp] theorem loop_shut : o.shut.loop = o.loop := by
  simp only [loop, intake, shut, SessionControl.shut_phase, SessionControl.shut_received]

@[simp] theorem loop_postWrite (cfg : Config) (text : Bytes) : (o.postWrite cfg text).loop = o.loop := by
  obtain ⟨_, hreader, htime⟩ := WriteQueue.postWrite_frame cfg text o
  simp only [loop, intake, hreader, htime, WriteQueue.postWrite_view SessionControl.phase (fun _ => rfl),
    WriteQueue.postWrite_view SessionControl.received (fun _ => rfl)]

@[simp] theorem loop_doWriteQueue : o.doWriteQueue.loop = o.loop := by
  obtain ⟨hcontrol, hreader, htime⟩ := WriteQueue.doWriteQueue_frame o
  simp only [loop, intake, hcontrol, hreader, htime]

end Loop

end Session

/-- Closing the session, its tasks and its completed writes leave the view alone. -/
structure Untouched {α : Type} (view : Session → α) : Prop where
  shut : ∀ o : Session, view o.shut = view o
  tasks : ∀ (o : Session) readPending taskQueue taskRunning asyncReads strand tasksStarted,
    view { o with
      readPending := readPending
      taskQueue := taskQueue
      taskRunning := taskRunning
      asyncReads := asyncReads
      strand := strand
      tasksStarted := tasksStarted } = view o
  take : ∀ k (o : Session), view (o.takeWrite k) = view o
  done : ∀ w (o : Session), view (o.writeDone w) = view o

theorem loop_untouched : Untouched Session.loop where
  shut := Session.loop_shut
  tasks _ _ _ _ _ _ _ := rfl
  take _ _ := rfl
  done _ _ := Session.loop_doWriteQueue _

section Untouched
variable {α : Type} {view : Session → α} (h : Untouched view) (σ : World) (s t : SessionPtr)
include h

theorem Untouched.run (fn : Task) (o : Session) : view (o.run fn) = view o := by
  cases fn with
  | read => exact h.tasks o _ _ _ _ _ _
  | call id => exact h.tasks o _ _ _ _ _ _

theorem Untouched.runNextTask (o : Session) : view o.runNextTask = view o := by
  unfold Session.runNextTask
  split
  · exact h.tasks o _ _ _ _ _ _
  · exact (h.run _ _).trans (h.tasks o _ _ _ _ _ _)

theorem Untouched.pushTask (fn : Task) (o : Session) : view (o.pushTask fn) = view o := by
  unfold Session.pushTask
  dsimp only
  split
  · exact h.tasks o _ _ _ _ _ _
  · exact (h.runNextTask _).trans (h.tasks o _ _ _ _ _ _)

theorem Untouched.closeSession : view ((σ.closeSession s).session t) = view (σ.session t) :=
  World.closeSession_view σ s t view h.shut

theorem Untouched.postTask (cfg : Config) (fn : Task) :
    view ((σ.postTask s cfg fn).session t) = view (σ.session t) := by
  unfold World.postTask
  split
  · exact h.closeSession σ s t
  · exact World.modify_view σ s t _ view (h.pushTask fn)

theorem Untouched.doRead (cfg : Config) : view ((σ.doRead s cfg).session t) = view (σ.session t) := by
  unfold World.doRead
  split
  · rfl
  · split
    · rfl
    · rw [h.postTask]
      exact World.modify_view σ s t _ view fun o => h.tasks o _ _ _ _ _ _

theorem Untouched.start : view ((σ.start s).session t) = view (σ.session t) := by
  unfold World.start
  split
  · rfl
  · split
    · rfl
    · exact (World.modify_view _ s t _ view fun o => h.tasks o _ _ _ _ _ _).trans
        (World.modify_view σ s t _ view fun o => h.tasks o _ _ _ _ _ _)

theorem Untouched.onWrite (k : Nat) (w : PendingWrite) (ec : Bool) :
    view ((σ.onWrite s k w ec).session t) = view (σ.session t) := by
  have htaken : view ((σ.modify s (Session.takeWrite k)).session t) = view (σ.session t) :=
    World.modify_view σ s t _ view (h.take k)
  unfold World.onWrite
  dsimp only
  split
  · exact htaken
  · split
    · exact (h.closeSession _ s t).trans htaken
    · exact (World.modify_view _ s t _ view (h.done w)).trans htaken

end Untouched

section World
variable (σ : World) (s t : SessionPtr)

theorem modify_loop {f : Session → Session} (h : ∀ o, (f o).loop = o.loop) :
    ((σ.modify s f).session t).loop = (σ.session t).loop := World.modify_view σ s t f Session.loop h

theorem setPhase_loop {σ τ : World} {s : SessionPtr} (h : (τ.session s).loop = (σ.session s).loop)
    (phase : Phase) : ((τ.setPhase s phase).session s).loop = (phase, (σ.session s).intake) := by
  rw [World.setPhase, World.modify_session_self]
  exact congrArg (Prod.mk phase) (Prod.mk.inj h).2

end World

inductive LoopMove (env : Env) (t : SessionPtr) (a : Act) (o o' : Session) : Prop where
  | keep (other : a = .on t .advance → o.phase ≠ .drain) (intake : o'.intake = o.intake)
      (stays : o'.phase.inLoop = o.phase.inLoop)
  | read (data : Bytes) (act : a = .on t (.readData data)) (free : o.strandFree = true)
      (loop : o'.loop = (.drain, o.msgBufMgr.append data, o.received, o.lastAliveTime))
  | take (packet : Bytes) (mgr : MessageBufferManager) (act : a = .on t .advance)
    (at_ : o.phase = .drain)
      (extract : o.msgBufMgr.extractMessage env.host = (some packet, mgr))
      (loop : o'.loop = ((route env o.nicknameRegistered packet).phase env, mgr, o.received ++ [packet],
        o.lastAliveTime))
  | leave (mgr : MessageBufferManager) (act : a = .on t .advance) (at_ : o.phase = .drain)
      (extract : o.msgBufMgr.extractMessage env.host = (none, mgr))
      (intake : o'.intake = (mgr, o.received, o.lastAliveTime)) (left : o'.phase.inLoop = false)

section Step
variable {env : Env} {σ σ' : World} {t : SessionPtr} {a : Act} {o o' : Session}

theorem loop_eq_iff {phase : Phase} {mgr : MessageBufferManager} {received : List Bytes} {time : Int} :
    o.loop = (phase, mgr, received, time) ↔ o.phase = phase ∧ o.msgBufMgr = mgr ∧ o.received = received ∧
      o.lastAliveTime = time := by
  simp only [Session.loop, Session.intake, Prod.mk.injEq]

theorem LoopMove.of_loop (other : a ≠ .on t .advance) (h : o'.loop = o.loop) :
    LoopMove env t a o o' := by
  obtain ⟨hphase, hintake⟩ := Prod.mk.inj h
  exact .keep (fun heq => absurd heq other) hintake (congrArg Phase.inLoop hphase)

theorem LoopMove.goto {phase phase' : Phase} (at_ : o.phase = phase)
    (other : a = .on t .advance → phase ≠ .drain) (h : o'.loop = (phase', o.intake))
    (stays : phase'.inLoop = phase.inLoop) :
    LoopMove env t a o o' := by
  obtain ⟨hphase, hintake⟩ := Prod.mk.inj h
  subst at_
  exact .keep other hintake ((congrArg Phase.inLoop hphase).trans stays)

theorem Remote.loop_eq (h : Remote o o') : o'.loop = o.loop := by
  cases h with
  | same => rfl
  | shut => exact o.loop_shut
  | notice text => rfl

theorem inLoop_of_strandFree {o : SessionControl} (free : o.strandFree = true) :
    o.phase.inLoop = false := by
  unfold SessionControl.strandFree at free
  cases hp : o.phase <;> simp_all [Phase.inLoop]

theorem drainStep_move (at_ : (σ.session t).phase = .drain) :
    LoopMove env t (.on t .advance) (σ.session t) ((σ.drainStep env t).session t) := by
  unfold World.drainStep
  split
  · rename_i packet mgr extract
    refine .take packet mgr rfl at_ extract ?_
    have hregistered : (((σ.modify t fun o => { o with msgBufMgr := mgr }).noteReceived t packet).session
        t).nicknameRegistered = (σ.session t).nicknameRegistered := by
      simp [World.noteReceived]
    dsimp only
    rw [hregistered]
    generalize route env (σ.session t).nicknameRegistered packet = r
    unfold World.enter
    dsimp only
    have hmoved : ∀ τ : World, (τ.session t).msgBufMgr = mgr → (τ.session t).received =
        (σ.session t).received ++ [packet] → (τ.session t).lastAliveTime = (σ.session t).lastAliveTime →
        ((τ.modify t fun o =>
          { o with handled := o.handled ++ r.handler?.toList, phase := r.phase env }).session t).loop =
          (r.phase env, mgr, (σ.session t).received ++ [packet], (σ.session t).lastAliveTime) := by
      intro τ hmgr hreceived htime
      rw [World.modify_session_self, ← hmgr, ← hreceived, ← htime]
      rfl
    have htaken := hmoved ((σ.modify t fun o => { o with msgBufMgr := mgr }).noteReceived t packet)
      (by simp [World.noteReceived]) (by simp [World.noteReceived]) (by simp [World.noteReceived])
    split
    · exact (loop_untouched.closeSession _ t t).trans htaken
    · exact htaken
  · rename_i mgr extract
    have hleft : ∀ phase,
        (((σ.modify t fun o => { o with msgBufMgr := mgr }).setPhase t phase).session t).loop =
        (phase, mgr, (σ.session t).received, (σ.session t).lastAliveTime) := by
      intro phase
      rw [World.setPhase, World.modify_modify, World.modify_session_self]
      rfl
    dsimp only
    split
    · obtain ⟨hphase, hintake⟩ := Prod.mk.inj ((loop_untouched.closeSession _ t t).trans (hleft .idle))
      exact .leave mgr rfl at_ extract hintake (congrArg Phase.inLoop hphase)
    · obtain ⟨hphase, hintake⟩ :=
        Prod.mk.inj ((loop_untouched.doRead _ t t env.config).trans (hleft .next))
      exact .leave mgr rfl at_ extract hintake (congrArg Phase.inLoop hphase)

theorem advance_move (h : Advanced env σ t σ') :
    LoopMove env t (.on t .advance) (σ.session t) (σ'.session t) := by
  have hindex : ∀ (τ : World) (nickname : String), ((τ.indexNickname t nickname).session t).loop =
      (τ.session t).loop :=
    fun τ nickname => World.indexNickname_view τ t t nickname Session.loop fun _ _ => rfl
  cases h with
  | drain at_ => exact drainStep_move at_
  | reply text at_ =>
    exact .goto at_ (fun _ => by simp)
      ((modify_loop _ t t fun o => o.loop_postWrite _ _).trans (setPhase_loop rfl .drain)) rfl
  | lookup nickname at_ =>
    unfold World.lookupStep
    split
    · exact .goto at_ (fun _ => by simp) (setPhase_loop rfl _) rfl
    · exact .goto at_ (fun _ => by simp) (setPhase_loop rfl _) rfl
  | name nickname at_ =>
    have hnamed : ((σ.setNickname t nickname).session t).loop = (σ.session t).loop :=
      modify_loop σ t t fun _ => rfl
    exact .goto at_ (fun _ => by simp) (setPhase_loop hnamed _) rfl
  | ready nickname at_ =>
    have hready : ((σ.onNicknameRegistered t).session t).loop = (σ.session t).loop :=
      modify_loop σ t t fun _ => rfl
    exact .goto at_ (fun _ => by simp) (setPhase_loop hready _) rfl
  | register nickname at_ =>
    unfold World.registerStep
    split
    · rename_i prev _
      have hnotice : ((σ.dispatch prev (.write World.loggedInElsewhere)).session t).loop =
          (σ.session t).loop :=
        World.dispatch_view σ prev t _ Session.loop fun _ _ => rfl
      exact .goto at_ (fun _ => by simp) (setPhase_loop hnotice (.loginEvict nickname prev)) rfl
    · exact .goto at_ (fun _ => by simp) (setPhase_loop (hindex σ nickname) _) rfl
  | evict nickname prev at_ =>
    have hindexed := (hindex (σ.closeSession prev) nickname).trans (loop_untouched.closeSession σ prev t)
    exact .goto at_ (fun _ => by simp) (setPhase_loop hindexed (.loginAck nickname)) rfl
  | ack nickname at_ =>
    have hacked : (((σ.setPhase t .drain).modify t
        fun o => { o with acked := o.acked ++ [nickname] }).session t).loop =
        (.drain, (σ.session t).intake) := by
      rw [World.setPhase, World.modify_modify, World.modify_session_self]
      rfl
    exact .goto at_ (fun _ => by simp)
      ((modify_loop _ t t fun o => o.loop_postWrite _ _).trans hacked) rfl
  | next at_ =>
    exact .goto at_ (fun _ => by simp)
      ((modify_loop _ t t loop_untouched.runNextTask).trans (setPhase_loop rfl .idle)) rfl

theorem event_move {e : Event} (h : Happened env σ t e σ') :
    LoopMove env t (.on t e) (σ.session t) (σ'.session t) := by
  cases h with
  | start at_ =>
    exact .goto at_ (by simp) ((loop_untouched.start _ t t).trans (setPhase_loop rfl .idle)) rfl
  | strand closure rest _ _ =>
    have htaken : ((σ.modify t fun o => { o with strand := rest }).session t).loop =
      (σ.session t).loop :=
      modify_loop σ t t fun _ => rfl
    cases closure with
    | write text =>
      exact .of_loop (by simp) ((modify_loop _ t t fun o => o.loop_postWrite _ _).trans htaken)
    | task fn => exact .of_loop (by simp) ((loop_untouched.postTask _ t t env.config fn).trans htaken)
  | readData data free =>
    refine .read data rfl free ?_
    rw [World.readData, World.modify_session_self]
    rfl
  | readError aborted free =>
    have hnext : ((σ.modify t fun o =>
        { o with
          asyncReads := o.asyncReads - 1, readPending := false, phase := .next }).session t).loop =
        (.next, (σ.session t).intake) := by
      rw [World.modify_session_self]
      rfl
    have hstays : Phase.inLoop .next = (σ.session t).phase.inLoop := (inLoop_of_strandFree free).symm
    have hother : Act.on t (.readError aborted) ≠ .on t .advance := by simp
    unfold World.readError
    dsimp only
    split
    · exact .goto rfl (absurd · hother) hnext hstays
    · exact .goto rfl (absurd · hother) ((loop_untouched.closeSession _ t t).trans hnext) hstays
  | advance advanced => exact advance_move advanced
  | postWrite text => exact .of_loop (by simp) (modify_loop σ t t fun _ => rfl)
  | writeDone k w ec _ => exact .of_loop (by simp) (loop_untouched.onWrite σ t t k w ec)
  | sweep =>
    exact .of_loop (by simp) (loop_untouched.closeSession { σ with toClose := σ.toClose.erase t } t t)
  | destroy _ => exact .of_loop (by simp) rfl

theorem accept_loop (σ : World) (now : Int) (t : SessionPtr) : ((σ.accept now).session t).loop =
    if t = σ.nextPtr then (.starting, {}, [], now) else (σ.session t).loop := by
  have hnew : (Function.update σ.session σ.nextPtr (.new σ.sessionCounter now) t).loop =
      if t = σ.nextPtr then (.starting, {}, [], now) else (σ.session t).loop := by
    by_cases ht : t = σ.nextPtr
    · rw [ht, Function.update_self, if_pos rfl]
      rfl
    · rw [Function.update_of_ne ht, if_neg ht]
  rw [World.accept]
  rcases addSession_cases _ σ.nextPtr with heq | ⟨r, _, heq⟩
  · rw [heq]
    exact hnew
  · rw [heq, loop_untouched.closeSession]
    exact hnew

/-- Whatever happens in the server, a session is new or makes one of four moves. -/
theorem step_cases_move (h : step env σ a = some σ') (t : SessionPtr) :
    (∃ now, a = .accept now ∧ t = σ.nextPtr ∧ (σ'.session t).loop = (.starting, {}, [], now)) ∨
      LoopMove env t a (σ.session t) (σ'.session t) := by
  rcases step_cases h with ⟨now, rfl, rfl⟩ | ⟨collected, other, rfl⟩ | ⟨s, e, rfl, _, happened⟩
  · have hloop := accept_loop σ now t
    split at hloop
    · exact Or.inl ⟨now, rfl, by assumption, hloop⟩
    · exact Or.inr (.of_loop (by simp) hloop)
  · exact Or.inr (.of_loop (other t .advance) rfl)
  · by_cases hs : s = t
    · subst hs
      exact Or.inr (event_move happened)
    · exact Or.inr (.of_loop (by simp [hs]) (event_seen happened (Ne.symm hs)).1.loop_eq)

theorem step_move (h : step env σ a = some σ') (existing : t < σ.nextPtr) :
    LoopMove env t a (σ.session t) (σ'.session t) := by
  rcases step_cases_move h t with ⟨_, _, rfl, _⟩ | hmove
  · exact absurd existing (Nat.lt_irrefl _)
  · exact hmove

theorem nextPtr_ownSteps (s : SessionPtr) : OwnSteps s fun σ σ' => σ'.nextPtr = σ.nextPtr where
  beside _ _ _ := rfl
  trans _ _ _ h h' := h'.trans h
  modify _ _ _ := rfl
  close σ := World.closeSession_nextPtr σ s

theorem event_nextPtr {e : Event} {s : SessionPtr} (h : Happened env σ s e σ') :
    σ'.nextPtr = σ.nextPtr := by
  rcases (nextPtr_ownSteps s).event h with hsame | ⟨_, ⟨nickname, _, rfl⟩ | ⟨nickname, prev, _, rfl⟩⟩
  · exact hsame
  · unfold World.registerStep
    split
    · rfl
    · rfl
  · exact World.closeSession_nextPtr σ prev

/-- Only a new connection makes a session. -/
theorem created_of_step (h : step env σ a = some σ') (absent : σ.nextPtr ≤ t)
    (present : t < σ'.nextPtr) :
    ∃ now, a = .accept now ∧ t = σ.nextPtr ∧ σ' = σ.accept now := by
  rcases step_cases h with ⟨now, rfl, rfl⟩ | ⟨collected, _, rfl⟩ | ⟨s, e, rfl, _, happened⟩
  · have hnext : (σ.accept now).nextPtr = σ.nextPtr + 1 := by
      rw [World.accept]
      rcases addSession_cases _ σ.nextPtr with heq | ⟨r, _, heq⟩
      · rw [heq]
      · rw [heq, World.closeSession_nextPtr]
    rw [hnext] at present
    exact ⟨now, rfl, Nat.le_antisymm (Nat.le_of_lt_succ present) absent, rfl⟩
  · exact absurd present (Nat.not_lt_of_le absent)
  · rw [event_nextPtr happened] at present
    exact absurd present (Nat.not_lt_of_le absent)

end Step

end DBMiddleWare
