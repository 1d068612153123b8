import DBMiddleWare.WriteQueue
import DBMiddleWare.Simulation

/-!
# The writers of the running server

For the write queue of one session everything that happens in the server is a run of
the operations of the strand, so what they keep holds of every session of the server.
-/

namespace DBMiddleWare

open Execution
set_option autoImplicit false

/-- What the write path of a session reads and changes. -/
def Session.writePath (o : Session) : SessionWriter × SessionState × Bool :=
  (o.toSessionWriter, o.state, o.closed)

section WritePath
variable {o o' : Session}

theorem writePath_eq_iff : o'.writePath = o.writePath ↔
    o'.toSessionWriter = o.toSessionWriter ∧ o'.state = o.state ∧ o'.closed = o.closed := by
  simp only [Session.writePath, Prod.mk.injEq]

theorem doWriteQueue_writePath (h : o'.writePath = o.writePath) :
    o'.doWriteQueue.writePath = o.doWriteQueue.writePath := by
  obtain ⟨hwriter, hstate, hclosed⟩ := writePath_eq_iff.mp h
  unfold Session.doWriteQueue
  rw [hstate, hwriter]
  split
  · exact h
  · cases o.writeQueue with
    | nil => simp [Session.writePath, hstate, hclosed]
    | cons msg rest => simp [Session.writePath, Session.asyncWrite, hwriter, hstate, hclosed]

theorem enqueueWrite_writePath (h : o'.writePath = o.writePath) (cfg : Config) (msg : Message) :
    (o'.enqueueWrite cfg msg).writePath = (o.enqueueWrite cfg msg).writePath := by
  obtain ⟨hwriter, hstate, hclosed⟩ := writePath_eq_iff.mp h
  by_cases hfull : cfg.maxWriteQueueSize ≤ o.writeQueue.length
  · by_cases hlimit : cfg.writeQueueOverflowLimit ≤ o.writeQueueOverflowCount + 1
    · simp [Session.enqueueWrite, Session.dropFront, Session.pop, Session.writePath, hwriter, hstate,
        hfull, hlimit]
    · simp [Session.enqueueWrite, Session.dropFront, Session.pop, Session.push,
        Session.writePath, hwriter, hstate, hclosed, hfull, hlimit]
  · simp [Session.enqueueWrite, Session.push, Session.writePath, hwriter, hstate, hclosed, hfull]

theorem postWrite_writePath (h : o'.writePath = o.writePath) (cfg : Config) (text : Bytes) :
    (o'.postWrite cfg text).writePath = (o.postWrite cfg text).writePath := by
  obtain ⟨hwriter, hstate, hclosed⟩ := writePath_eq_iff.mp h
  have hqueued : (WriteQueue.queued cfg text o').writePath =
      (WriteQueue.queued cfg text o).writePath := by
    have hmsg : o'.newMessage text = o.newMessage text := by
      rw [Session.newMessage, Session.newMessage, hwriter]
    unfold WriteQueue.queued
    rw [hmsg]
    apply enqueueWrite_writePath
    simp [Session.writePath, hwriter, hstate, hclosed]
  rcases WriteQueue.postWrite_cases cfg text o with ⟨hq, he⟩ | ⟨hq, he⟩
  · rcases WriteQueue.postWrite_cases cfg text o' with ⟨_, he'⟩ | ⟨hq', _⟩
    · rw [he, he']
      apply doWriteQueue_writePath
      obtain ⟨hw, hs, hc⟩ := writePath_eq_iff.mp hqueued
      simp [Session.writePath, hw, hs, hc]
    · exact absurd (hwriter ▸ hq) hq'
  · rcases WriteQueue.postWrite_cases cfg text o' with ⟨hq', _⟩ | ⟨_, he'⟩
    · exact absurd (hwriter ▸ hq') hq
    · rw [he, he']
      exact hqueued

theorem shut_writePath (h : o'.writePath = o.writePath) : o'.shut.writePath = o.shut.writePath := by
  obtain ⟨hwriter, hstate, hclosed⟩ := writePath_eq_iff.mp h
  cases hc : o.closed <;>
    simp [Session.shut, SessionControl.shut, Session.writePath, hwriter, hstate, hclosed, hc]

theorem onWrite_writePath (h : o'.writePath = o.writePath) (w : PendingWrite) (ec : Bool) :
    (WriteQueue.onWrite w ec o').writePath = (WriteQueue.onWrite w ec o).writePath := by
  obtain ⟨hwriter, hstate, hclosed⟩ := writePath_eq_iff.mp h
  unfold WriteQueue.onWrite
  rw [hwriter]
  split
  · exact h
  · split
    · exact shut_writePath h
    · apply doWriteQueue_writePath
      simp [Session.writePath, Session.pop, hwriter, hstate, hclosed]

theorem strand_writePath {cfg : Config} {a : WriteQueue.Act} {p : Session}
    (h : o'.writePath = o.writePath) (hstep : WriteQueue.step cfg o a = some p) :
    ∃ p', WriteQueue.step cfg o' a = some p' ∧ p'.writePath = p.writePath := by
  obtain ⟨hwriter, hstate, hclosed⟩ := writePath_eq_iff.mp h
  cases a with
  | post text => exact ⟨_, rfl, Option.some.inj hstep ▸ postWrite_writePath h cfg text⟩
  | complete k ec =>
    obtain ⟨w, hk, rfl⟩ := Option.map_eq_some_iff.mp hstep
    refine ⟨WriteQueue.onWrite w ec (o'.takeWrite k), ?_, ?_⟩
    · rw [WriteQueue.step, hwriter, hk]
      rfl
    · apply onWrite_writePath
      simp [Session.writePath, Session.takeWrite, hwriter, hstate, hclosed]
  | close => exact ⟨_, rfl, Option.some.inj hstep ▸ shut_writePath h⟩
  | setState state =>
    refine ⟨_, rfl, Option.some.inj hstep ▸ ?_⟩
    simp [Session.writePath, hwriter, hclosed]

end WritePath

/-- Operations on the strand lead from a new session to this write path. -/
def StrandReachable (cfg : Config) (o : Session) : Prop :=
  ∃ acts p, exec (WriteQueue.step cfg) (Session.new 0 0) acts = some p ∧ o.writePath = p.writePath

section StrandReachable
variable {cfg : Config} {o o' : Session}

theorem StrandReachable.new (cfg : Config) (sessionId : Int32) (now : Int) :
    StrandReachable cfg (Session.new sessionId now) := ⟨[], _, rfl, rfl⟩

theorem StrandReachable.of_same (h : StrandReachable cfg o) (same : o'.writePath = o.writePath) :
    StrandReachable cfg o' := by
  obtain ⟨acts, p, run, hp⟩ := h
  exact ⟨acts, p, run, same.trans hp⟩

theorem StrandReachable.step {a : WriteQueue.Act} (h : StrandReachable cfg o)
    (hstep : WriteQueue.step cfg o a = some o') : StrandReachable cfg o' := by
  obtain ⟨acts, p, run, hp⟩ := h
  obtain ⟨p', hstep', hp'⟩ := strand_writePath hp.symm hstep
  exact ⟨acts ++ [a], p', exec_concat_eq_some.mpr ⟨p, run, hstep'⟩, hp'.symm⟩

theorem StrandReachable.postWrite (h : StrandReachable cfg o) (text : Bytes) :
    StrandReachable cfg (o.postWrite cfg text) :=
  h.step (a := .post text) rfl

theorem StrandReachable.shut (h : StrandReachable cfg o) : StrandReachable cfg o.shut :=
  h.step (a := .close) rfl

theorem StrandReachable.setState (h : StrandReachable cfg o) (state : SessionState) :
    StrandReachable cfg { o with state := state } :=
  h.step (a := .setState state) rfl

theorem StrandReachable.runNextTask (h : StrandReachable cfg o) : StrandReachable cfg o.runNextTask := by
  unfold Session.runNextTask
  split
  · exact h.of_same rfl
  · rename_i fn rest _
    cases fn with
    | read => exact h.of_same rfl
    | call id => exact h.of_same rfl

theorem StrandReachable.pushTask (h : StrandReachable cfg o) (fn : Task) :
    StrandReachable cfg (o.pushTask fn) := by
  unfold Session.pushTask
  dsimp only
  split
  · exact h.of_same rfl
  · exact StrandReachable.runNextTask (h.of_same rfl)

end StrandReachable

/-- Every writer of the server is that of a run on its strand. -/
def WritersReachable (cfg : Config) (σ : World) : Prop := ∀ t, StrandReachable cfg (σ.session t)

section World
variable {env : Env} {cfg : Config} {σ σ' : World} {s : SessionPtr}

theorem WritersReachable.modify (h : WritersReachable cfg σ) (s : SessionPtr) {f : Session → Session}
    (hf : StrandReachable cfg (f (σ.session s))) : WritersReachable cfg (σ.modify s f) := by
  intro t
  rw [World.modify_session]
  split
  · exact hf
  · exact h t

theorem WritersReachable.beside (h : WritersReachable cfg σ) (s : SessionPtr) {f : Session → Session}
    (same : ∀ o, (f o).writePath = o.writePath) : WritersReachable cfg (σ.modify s f) :=
  h.modify s ((h s).of_same (same _))

theorem WritersReachable.closeSession (h : WritersReachable cfg σ) (s : SessionPtr) :
    WritersReachable cfg (σ.closeSession s) := by
  intro t
  rw [World.closeSession_session]
  exact h.modify s (h s).shut t

theorem WritersReachable.postWrite (h : WritersReachable cfg σ) (s : SessionPtr) (text : Bytes) :
    WritersReachable cfg (σ.postWrite s cfg text) :=
  h.modify s ((h s).postWrite text)

theorem WritersReachable.postTask (h : WritersReachable cfg σ) (s : SessionPtr) (fn : Task) :
    WritersReachable cfg (σ.postTask s cfg fn) := by
  unfold World.postTask
  split
  · exact h.closeSession s
  · exact h.modify s ((h s).pushTask fn)

theorem WritersReachable.doRead (h : WritersReachable cfg σ) (s : SessionPtr) :
    WritersReachable cfg (σ.doRead s cfg) := by
  unfold World.doRead
  split
  · exact h
  · split
    · exact h
    · exact (h.beside s (f := fun o => { o with readPending := true }) fun _ => rfl).postTask s .read

theorem WritersReachable.setPhase (h : WritersReachable cfg σ) (s : SessionPtr) (phase : Phase) :
    WritersReachable cfg (σ.setPhase s phase) :=
  h.beside s fun _ => rfl

theorem WritersReachable.dispatch (h : WritersReachable cfg σ) (s : SessionPtr) (closure : Closure) :
    WritersReachable cfg (σ.dispatch s closure) :=
  h.beside s fun _ => rfl

theorem WritersReachable.start (h : WritersReachable cfg σ) (s : SessionPtr) :
    WritersReachable cfg (σ.start s) := by
  unfold World.start
  split
  · exact h
  · split
    · exact h
    · exact (h.beside s (f := fun o => { o with readPending := true }) fun _ => rfl).dispatch s _

theorem WritersReachable.indexNickname (h : WritersReachable cfg σ) (s : SessionPtr)
    (nickname : String) :
    WritersReachable cfg (σ.indexNickname s nickname) :=
  h.beside s (f := fun o => { o with registrations := o.registrations ++ [nickname] }) fun _ => rfl

theorem WritersReachable.onWrite (h : WritersReachable cfg σ) {k : Nat} {w : PendingWrite}
    (hk : (σ.session s).asyncWrites[k]? = some w) (ec : Bool) :
    WritersReachable cfg (σ.onWrite s k w ec) := by
  have hstep : StrandReachable cfg (WriteQueue.onWrite w ec ((σ.session s).takeWrite k)) :=
    (h s).step (a := .complete k ec) (by rw [WriteQueue.step, hk]; rfl)
  unfold WriteQueue.onWrite at hstep
  unfold World.onWrite
  dsimp only
  rw [World.modify_session_self]
  split
  · rename_i hstale
    rw [if_pos hstale] at hstep
    exact h.modify s hstep
  · rename_i hcurrent
    rw [if_neg hcurrent] at hstep
    split
    · rename_i hfailed
      rw [if_pos hfailed] at hstep
      intro t
      rw [World.closeSession_session, World.modify_modify]
      exact h.modify s (f := fun o => (o.takeWrite k).shut) hstep t
    · rename_i hdone
      rw [if_neg hdone] at hstep
      rw [World.modify_modify]
      exact h.modify s hstep

theorem WritersReachable.drainStep (h : WritersReachable env.config σ) (s : SessionPtr) :
    WritersReachable env.config (σ.drainStep env s) := by
  have henter : ∀ (σ : World) (r : Route), WritersReachable env.config σ →
      WritersReachable env.config (σ.enter env s r) := by
    intro σ r h
    have hmove := h.beside s
      (f := fun o => { o with handled := o.handled ++ r.handler?.toList, phase := r.phase env })
        fun _ => rfl
    unfold World.enter
    dsimp only
    split
    · exact hmove.closeSession s
    · exact hmove
  unfold World.drainStep
  split
  · rename_i packet mgr _
    have htaken := h.beside s (f := fun o => { o with msgBufMgr := mgr }) fun _ => rfl
    exact henter _ _ (htaken.beside s (f := fun o => { o with received := o.received ++ [packet] })
      fun _ => rfl)
  · rename_i mgr _
    have htaken := h.beside s (f := fun o => { o with msgBufMgr := mgr }) fun _ => rfl
    dsimp only
    split
    · exact (htaken.setPhase s .idle).closeSession s
    · exact (htaken.setPhase s .next).doRead s

theorem WritersReachable.advance (h : WritersReachable env.config σ) (advanced : Advanced env σ s σ') :
    WritersReachable env.config σ' := by
  cases advanced with
  | drain _ => exact h.drainStep s
  | reply text _ => exact (h.setPhase s .drain).postWrite s text
  | lookup nickname _ =>
    unfold World.lookupStep
    split
    · exact h.setPhase s _
    · exact h.setPhase s _
  | name nickname _ =>
    have hnamed := h.beside s (f := fun o => { o with nickname := nickname }) fun _ => rfl
    exact hnamed.setPhase s _
  | ready nickname _ =>
    have hready : WritersReachable env.config (σ.onNicknameRegistered s) :=
      h.modify s (((h s).setState .ready).of_same rfl)
    exact hready.setPhase s _
  | register nickname _ =>
    unfold World.registerStep
    split
    · exact (h.dispatch _ _).setPhase s _
    · exact (h.indexNickname s nickname).setPhase s _
  | evict nickname prev _ => exact ((h.closeSession prev).indexNickname s nickname).setPhase s _
  | ack nickname _ =>
    have hacked := (h.setPhase s .drain).beside s
      (f := fun o => { o with acked := o.acked ++ [nickname] })
      fun _ => rfl
    exact hacked.postWrite s loginOk
  | next _ =>
    have hidle := h.setPhase s .idle
    exact hidle.modify s (hidle s).runNextTask

theorem WritersReachable.event {e : Event} (h : WritersReachable env.config σ)
    (happened : Happened env σ s e σ') : WritersReachable env.config σ' := by
  cases happened with
  | start _ => exact (h.setPhase s .idle).start s
  | strand closure rest _ _ =>
    have htaken := h.beside s (f := fun o => { o with strand := rest }) fun _ => rfl
    cases closure with
    | write text => exact htaken.postWrite s text
    | task fn => exact htaken.postTask s fn
  | readData data _ => exact h.beside s fun _ => rfl
  | readError aborted _ =>
    have hnext := h.beside s (f := fun o =>
      { o with asyncReads := o.asyncReads - 1, readPending := false, phase := .next }) fun _ => rfl
    unfold World.readError
    dsimp only
    split
    · exact hnext
    · exact hnext.closeSession s
  | advance advanced => exact h.advance advanced
  | postWrite text => exact h.dispatch s _
  | writeDone k w ec pending => exact h.onWrite pending ec
  | sweep =>
    have hcollected : WritersReachable env.config { σ with toClose := σ.toClose.erase s } := h
    exact hcollected.closeSession s
  | destroy _ => exact h

theorem WritersReachable.accept (h : WritersReachable cfg σ) (now : Int) :
    WritersReachable cfg (σ.accept now) := by
  have hnew : ∀ t, StrandReachable cfg
      (Function.update σ.session σ.nextPtr (.new σ.sessionCounter now) t) := by
    intro t
    by_cases ht : t = σ.nextPtr
    · subst ht
      rw [Function.update_self]
      exact .new _ _ _
    · rw [Function.update_of_ne ht]
      exact h t
  rw [World.accept]
  rcases addSession_cases _ σ.nextPtr with heq | ⟨r, _, heq⟩
  · rw [heq]
    exact hnew
  · rw [heq]
    refine WritersReachable.closeSession ?_ r
    exact hnew

theorem WritersReachable.step {a : Act} (h : WritersReachable env.config σ)
    (hstep : step env σ a = some σ') : WritersReachable env.config σ' := by
  rcases step_cases hstep with ⟨now, _, rfl⟩ | ⟨collected, _, rfl⟩ | ⟨s, e, _, _, happened⟩
  · exact h.accept now
  · exact h
  · exact h.event happened

end World

/-- The write queue of every session has gone through operations on its strand. -/
theorem writersReachable_of_run {env : Env} {shardCount : Nat} {acts : List Act} {σ : World}
    (run : exec (step env) (World.init shardCount) acts = some σ) : WritersReachable env.config σ :=
  invariant (fun _ _ _ h hs => h.step hs) (fun _ => .new _ _ _) run

/-- Every session of the server has one ordered writer. -/
theorem writerInv_of_run {env : Env} {shardCount : Nat} {acts : List Act} {σ : World}
    (hmax : 2 ≤ env.config.maxWriteQueueSize)
    (run : exec (step env) (World.init shardCount) acts = some σ) (s : SessionPtr) :
    WriteQueue.WriterInv env.config (σ.session s).toSessionWriter := by
  obtain ⟨wacts, p, wrun, hp⟩ := writersReachable_of_run run s
  rw [(writePath_eq_iff.mp hp).1]
  exact invariant (I := fun o : Session => WriteQueue.WriterInv env.config o.toSessionWriter)
    (fun _ _ _ h hs => WriteQueue.inv_step hmax h hs) (WriteQueue.inv_fresh env.config) wrun

end DBMiddleWare
