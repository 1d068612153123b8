import DBMiddleWare.Conversation
import DBMiddleWare.Settling

/-!
# Every request is served

The writer of an open session never stalls: as long as a message waits, a write is under
way. So when the handlers have come to rest and the writes have completed, a client that has
lost nothing to the overflow of its queue has been sent the answers to all its requests.
-/

namespace DBMiddleWare

open Execution WriteQueue
set_option autoImplicit false

/-- What a step can do to the writer of a session. -/
inductive WriteMove (env : Env) (t : SessionPtr) (a : Act) (o o' : Session) : Prop where
  | keep (writer : o'.toSessionWriter = o.toSessionWriter)
  | post (text : Bytes) (act : a = .on t .strand ∨ a = .on t .advance)
      (posted : o'.writePath = (o.postWrite env.config text).writePath)
        (socket : o'.socketOpen = o.socketOpen)
  | done (k : Nat) (w : PendingWrite) (ec : Bool) (act : a = .on t (.writeDone k ec))
      (pending : o.asyncWrites[k]? = some w) (completed : o' = onWrite w ec (o.takeWrite k))

section Frame
variable {env : Env} {σ σ' : World} {t : SessionPtr} {a : Act}

theorem runNextTask_writer (o : Session) : o.runNextTask.toSessionWriter = o.toSessionWriter := by
  unfold Session.runNextTask
  split
  · rfl
  · rename_i fn rest _
    cases fn with
    | read => rfl
    | call id => rfl

theorem pushTask_writer (fn : Task) (o : Session) :
    (o.pushTask fn).toSessionWriter = o.toSessionWriter := by
  unfold Session.pushTask
  dsimp only
  split
  · rfl
  · exact runNextTask_writer _

theorem modify_writer (σ : World) (s t : SessionPtr) {f : Session → Session}
    (h : ∀ o, (f o).toSessionWriter = o.toSessionWriter) :
    ((σ.modify s f).session t).toSessionWriter = (σ.session t).toSessionWriter :=
  World.modify_view σ s t f (fun o => o.toSessionWriter) h

theorem closeSession_writer (σ : World) (s t : SessionPtr) :
    ((σ.closeSession s).session t).toSessionWriter = (σ.session t).toSessionWriter :=
  World.closeSession_view σ s t (fun o => o.toSessionWriter) fun _ => rfl

theorem setPhase_writer (σ : World) (s t : SessionPtr) (phase : Phase) :
    ((σ.setPhase s phase).session t).toSessionWriter = (σ.session t).toSessionWriter :=
  modify_writer σ s t fun _ => rfl

theorem indexNickname_writer (σ : World) (s t : SessionPtr) (nickname : String) :
    ((σ.indexNickname s nickname).session t).toSessionWriter = (σ.session t).toSessionWriter :=
  World.indexNickname_view σ s t nickname (fun o => o.toSessionWriter) fun _ _ => rfl

theorem postTask_writer (σ : World) (s t : SessionPtr) (cfg : Config) (fn : Task) :
    ((σ.postTask s cfg fn).session t).toSessionWriter = (σ.session t).toSessionWriter := by
  unfold World.postTask
  split
  · exact closeSession_writer σ s t
  · exact modify_writer σ s t (pushTask_writer fn)

theorem doRead_writer (σ : World) (s t : SessionPtr) (cfg : Config) :
    ((σ.doRead s cfg).session t).toSessionWriter = (σ.session t).toSessionWriter := by
  unfold World.doRead
  split
  · rfl
  · split
    · rfl
    · exact (postTask_writer _ s t cfg .read).trans (modify_writer σ s t fun _ => rfl)

theorem start_writer (σ : World) (s t : SessionPtr) :
    ((σ.start s).session t).toSessionWriter = (σ.session t).toSessionWriter := by
  unfold World.start
  split
  · rfl
  · split
    · rfl
    · have hpending := modify_writer σ s t (f := fun o => { o with readPending := true }) fun _ => rfl
      exact (World.dispatch_view _ s t _ (fun o => o.toSessionWriter) fun _ _ => rfl).trans hpending

theorem drainStep_writer (σ : World) (t : SessionPtr) :
    ((σ.drainStep env t).session t).toSessionWriter = (σ.session t).toSessionWriter := by
  have henter : ∀ (τ : World) (r : Route),
      ((τ.enter env t r).session t).toSessionWriter = (τ.session t).toSessionWriter := by
    intro τ r
    have hmoved := modify_writer τ t t
      (f := fun o => { o with handled := o.handled ++ r.handler?.toList, phase := r.phase env })
        fun _ => rfl
    unfold World.enter
    dsimp only
    split
    · exact (closeSession_writer _ t t).trans hmoved
    · exact hmoved
  unfold World.drainStep
  split
  · rename_i packet mgr _
    have htaken := modify_writer σ t t (f := fun o => { o with msgBufMgr := mgr }) fun _ => rfl
    refine (henter _ _).trans (Eq.trans ?_ htaken)
    exact modify_writer _ t t fun _ => rfl
  · rename_i mgr _
    have htaken := modify_writer σ t t (f := fun o => { o with msgBufMgr := mgr }) fun _ => rfl
    dsimp only
    split
    · exact (closeSession_writer _ t t).trans ((setPhase_writer _ t t .idle).trans htaken)
    · exact (doRead_writer _ t t env.config).trans ((setPhase_writer _ t t .next).trans htaken)

/-- Answering a packet posts to the session as it is. -/
theorem WriteMove.post_of_same {τ : World} (text : Bytes) (act : a = .on t .strand ∨ a = .on t .advance)
    (same : (τ.session t).writePath = (σ.session t).writePath)
    (socket : (τ.session t).socketOpen = (σ.session t).socketOpen) :
    WriteMove env t a (σ.session t) ((τ.postWrite t env.config text).session t) := by
  rw [World.postWrite, World.modify_session_self]
  refine .post text act (postWrite_writePath same env.config text) (Eq.trans ?_ socket)
  exact WriteQueue.postWrite_view SessionControl.socketOpen (fun _ => rfl) env.config text (τ.session t)

theorem advance_writeMove (h : Advanced env σ t σ') :
    WriteMove env t (.on t .advance) (σ.session t) (σ'.session t) := by
  cases h with
  | drain at_ => exact .keep (drainStep_writer σ t)
  | reply text at_ =>
    have hmoved : (σ.setPhase t .drain).session t = { σ.session t with phase := .drain } :=
      World.modify_session_self ..
    exact .post_of_same text (Or.inr rfl) ((congrArg Session.writePath hmoved).trans rfl)
      ((congrArg (fun o : Session => o.socketOpen) hmoved).trans rfl)
  | lookup nickname at_ =>
    unfold World.lookupStep
    split
    · exact .keep (setPhase_writer σ t t _)
    · exact .keep (setPhase_writer σ t t _)
  | name nickname at_ =>
    exact .keep ((setPhase_writer _ t t _).trans (modify_writer σ t t fun _ => rfl))
  | ready nickname at_ =>
    exact .keep ((setPhase_writer _ t t _).trans (modify_writer σ t t fun _ => rfl))
  | register nickname at_ =>
    unfold World.registerStep
    split
    · rename_i prev _
      exact .keep ((setPhase_writer _ t t (.loginEvict nickname prev)).trans
        (modify_writer σ prev t fun _ => rfl))
    · exact .keep ((setPhase_writer _ t t _).trans (indexNickname_writer σ t t nickname))
  | evict nickname prev at_ =>
    have hindexed := (indexNickname_writer (σ.closeSession prev) t t nickname).trans
      (closeSession_writer σ prev t)
    exact .keep ((setPhase_writer _ t t (.loginAck nickname)).trans hindexed)
  | ack nickname at_ =>
    have hacked : ((σ.setPhase t .drain).modify t
        fun o => { o with acked := o.acked ++ [nickname] }).session t =
        { σ.session t with phase := .drain, acked := (σ.session t).acked ++ [nickname] } := by
      rw [World.setPhase, World.modify_modify, World.modify_session_self]
    exact .post_of_same loginOk (Or.inr rfl) ((congrArg Session.writePath hacked).trans rfl)
      ((congrArg (fun o : Session => o.socketOpen) hacked).trans rfl)
  | next at_ =>
    exact .keep ((modify_writer _ t t runNextTask_writer).trans (setPhase_writer σ t t .idle))

theorem onWrite_session (k : Nat) (w : PendingWrite) (ec : Bool) :
    (σ.onWrite t k w ec).session t = WriteQueue.onWrite w ec ((σ.session t).takeWrite k) := by
  unfold World.onWrite WriteQueue.onWrite
  dsimp only
  rw [World.modify_session_self]
  split
  · rw [World.modify_session_self]
  · split
    · rw [World.closeSession_session_self, World.modify_session_self]
    · rw [World.modify_session_self, World.modify_session_self]

theorem event_writeMove {e : Event} (h : Happened env σ t e σ') :
    WriteMove env t (.on t e) (σ.session t) (σ'.session t) := by
  cases h with
  | start _ => exact .keep ((start_writer _ t t).trans (setPhase_writer σ t t .idle))
  | strand closure rest _ _ =>
    cases closure with
    | write text =>
      have htaken : (σ.modify t fun o => { o with strand := rest }).session t =
          { σ.session t with strand := rest } := World.modify_session_self ..
      exact .post_of_same text (Or.inl rfl) ((congrArg Session.writePath htaken).trans rfl)
        ((congrArg (fun o : Session => o.socketOpen) htaken).trans rfl)
    | task fn =>
      exact .keep ((postTask_writer _ t t env.config fn).trans (modify_writer σ t t fun _ => rfl))
  | readData data _ => exact .keep (modify_writer σ t t fun _ => rfl)
  | readError aborted _ =>
    have hnext := modify_writer σ t t (f := fun o =>
      { o with asyncReads := o.asyncReads - 1, readPending := false, phase := .next }) fun _ => rfl
    unfold World.readError
    dsimp only
    split
    · exact .keep hnext
    · exact .keep ((closeSession_writer _ t t).trans hnext)
  | advance advanced => exact advance_writeMove advanced
  | postWrite text => exact .keep (modify_writer σ t t fun _ => rfl)
  | writeDone k w ec pending => exact .done k w ec rfl pending (onWrite_session k w ec)
  | sweep => exact .keep (closeSession_writer { σ with toClose := σ.toClose.erase t } t t)
  | destroy _ => exact .keep rfl

theorem step_writeMove (hs : step env σ a = some σ') (existing : t < σ.nextPtr) :
    WriteMove env t a (σ.session t) (σ'.session t) := by
  by_cases hself : ∃ e, a = .on t e
  · obtain ⟨e, rfl⟩ := hself
    simp only [step, Option.ite_none_right_eq_some] at hs
    exact event_writeMove (event_cases hs.2)
  · have hremote := (step_seen hs existing fun e he => hself ⟨e, he⟩).1
    generalize σ'.session t = o' at hremote
    cases hremote with
    | same => exact .keep rfl
    | shut => exact .keep rfl
    | notice text => exact .keep rfl

end Frame

/-- An open session with something to send is sending, and the completion will not be taken for a
stale one. -/
structure Sends (o : Session) : Prop where
  current : ∀ w ∈ o.asyncWrites, w.generation = o.generation
  going : o.closed = false → o.writeQueue ≠ [] → o.asyncWrites ≠ []

section Sends
variable {cfg : Config} {o o' : Session}

theorem Sends.doWriteQueue (current : ∀ w ∈ o.asyncWrites, w.generation = o.generation)
    (opened : o.closed = false → o.state ≠ .closed) : Sends o.doWriteQueue := by
  unfold Session.doWriteQueue
  split
  · rename_i hstate
    exact ⟨current, fun hopen => absurd hstate (opened hopen)⟩
  · split
    · rename_i hqueue
      exact ⟨current, fun _ hne => absurd hqueue hne⟩
    · rename_i m rest _
      refine ⟨fun w hw => ?_, fun _ _ => by simp [Session.asyncWrite]⟩
      rcases List.mem_append.mp hw with hw | hw
      · exact current w hw
      · rw [List.mem_singleton.mp hw]
        rfl

theorem queued_writes (cfg : Config) (text : Bytes) (o : Session) :
    (queued cfg text o).asyncWrites = o.asyncWrites ∧ (queued cfg text o).generation = o.generation ∧
      (queued cfg text o).state = o.state ∧ (o.closed = true → (queued cfg text o).closed = true) ∧
      (queued cfg text o).writeQueue.length ≤ o.writeQueue.length + 1 := by
  unfold queued
  rcases enqueueWrite_cases cfg (o.newMessage text)
    { o with posted := o.posted ++ [o.newMessage text] } with ⟨_, he⟩ | ⟨_, _, he⟩ | ⟨_, _, he⟩
  · rw [he]
    exact ⟨rfl, rfl, rfl, id, by simp [Session.push]⟩
  · rw [he]
    exact ⟨rfl, rfl, rfl, fun _ => rfl, by simp [Session.dropFront, Session.pop]; omega⟩
  · rw [he]
    exact ⟨rfl, rfl, rfl, id, by simp [Session.push, Session.dropFront, Session.pop]⟩

theorem Sends.postWrite (h : Sends o) (opened : o.closed = false → o.state ≠ .closed) (text : Bytes) :
    Sends (o.postWrite cfg text) := by
  obtain ⟨hasync, hgeneration, hstate, hclosed, _⟩ := queued_writes cfg text o
  have hcurrent : ∀ w ∈ (queued cfg text o).asyncWrites,
      w.generation = (queued cfg text o).generation := by
    rw [hasync, hgeneration]
    exact h.current
  have hopen : (queued cfg text o).closed = false → o.closed = false := by
    intro hopen
    by_contra hnot
    rw [hclosed (Bool.eq_true_of_not_eq_false hnot)] at hopen
    cases hopen
  rcases postWrite_cases cfg text o with ⟨_, he⟩ | ⟨hq, he⟩
  · rw [he]
    exact Sends.doWriteQueue (o := { queued cfg text o with writeInProgress := true }) hcurrent
      fun h => hstate ▸ opened (hopen h)
  · rw [he]
    exact ⟨hcurrent, fun h' _ => hasync ▸ h.going (hopen h') hq⟩

theorem Sends.onWrite (h : Sends o) (opened : o.closed = false → o.state ≠ .closed) {k : Nat}
    {w : PendingWrite} (pending : o.asyncWrites[k]? = some w) (ec : Bool) :
    Sends (WriteQueue.onWrite w ec (o.takeWrite k)) := by
  have hcurrent : ∀ v ∈ (o.takeWrite k).asyncWrites, v.generation = o.generation := fun v hv =>
    h.current v (List.mem_of_mem_eraseIdx hv)
  have hfresh : ¬ w.generation ≠ (o.takeWrite k).generation :=
    not_not_intro (h.current w (List.mem_of_getElem? pending))
  unfold WriteQueue.onWrite
  rw [if_neg hfresh]
  split
  · refine ⟨hcurrent, fun hopen => ?_⟩
    rw [show (o.takeWrite k).shut.closed = true from SessionControl.shut_closed _] at hopen
    cases hopen
  · exact Sends.doWriteQueue (o := { o.takeWrite k with sent := o.sent ++ [w.msg] }.pop) hcurrent opened

/-- Closing a session sets the flag first. -/
structure Flagged (o : SessionControl) : Prop where
  state : o.state = .closed → o.closed = true

theorem Flagged.touch {env : Env} {o o' : SessionControl} (h : Flagged o)
    (touch : Control.Touch env o o') :
    Flagged o' := by
  cases touch with
  | same => exact h
  | shut => exact ⟨fun _ => o.shut_closed⟩
  | flag => exact ⟨fun _ => rfl⟩
  | ready nickname => exact ⟨fun hstate => by cases hstate⟩
  | goto phase => exact ⟨h.state⟩
  | receive packet => exact ⟨h.state⟩
  | name nickname => exact ⟨h.state⟩
  | index nickname => exact ⟨h.state⟩
  | ack nickname => exact ⟨h.state⟩

theorem Sends.move {env : Env} {t : SessionPtr} {a : Act} (h : Sends o)
    (flagged : Flagged o.toSessionControl) (move : WriteMove env t a o o')
    (closed : o.closed = true → o'.closed = true) : Sends o' := by
  have hopened : o.closed = false → o.state ≠ .closed := by
    intro hopen hstate
    rw [flagged.state hstate] at hopen
    cases hopen
  cases move with
  | keep writer =>
    refine ⟨writer ▸ h.current, fun hopen => ?_⟩
    rw [writer]
    apply h.going
    by_contra hnot
    rw [closed (Bool.eq_true_of_not_eq_false hnot)] at hopen
    cases hopen
  | post text _ posted _ =>
    obtain ⟨hwriter, _, hclosed⟩ := writePath_eq_iff.mp posted
    have hposted : Sends (o.postWrite env.config text) := h.postWrite hopened text
    refine ⟨hwriter ▸ hposted.current, fun hopen => ?_⟩
    rw [hwriter]
    exact hposted.going (hclosed ▸ hopen)
  | done k w ec _ pending completed =>
    rw [completed]
    exact h.onWrite hopened pending ec

end Sends

section Run
variable {env : Env} {shardCount : Nat} {acts : List Act} {σ : World} {t : SessionPtr}

theorem flagged_accept (σ : World) (now : Int) :
    Flagged ((σ.accept now).session σ.nextPtr).toSessionControl := by
  have hnew : Flagged (Function.update σ.session σ.nextPtr (.new σ.sessionCounter now)
      σ.nextPtr).toSessionControl := by
    rw [Function.update_self]
    exact ⟨fun h => by cases h⟩
  rw [World.accept]
  rcases addSession_cases _ σ.nextPtr with heq | ⟨r, _, heq⟩
  · rw [heq]
    exact hnew
  · rw [heq, World.closeSession_session, World.modify_session]
    split
    · exact ⟨fun _ => SessionControl.shut_closed _⟩
    · exact hnew

theorem sends_of_run (run : exec (step env) (World.init shardCount) acts = some σ)
    (existing : t < σ.nextPtr) :
    Sends (σ.session t) := by
  have hboth : Sends (σ.session t) ∧ Flagged (σ.session t).toSessionControl := by
    refine session_history (H := fun _ o => Sends o ∧ Flagged o.toSessionControl) ?_ ?_ run existing
    · intro acts σ now _ ht _
      have hwriter := accept_view (fun o => o.toSessionWriter) (fun _ => rfl) σ now t
      rw [if_pos ht] at hwriter
      refine ⟨⟨fun w hw => ?_, fun _ hne => ?_⟩, ht ▸ flagged_accept σ now⟩
      · rw [hwriter] at hw
        cases hw
      · rw [hwriter] at hne
        exact absurd rfl hne
    · intro acts σ a σ' _ hexisting h hs
      refine ⟨h.1.move h.2 (step_writeMove hs hexisting) (closed_mono hexisting hs), ?_⟩
      have hflagged : t < σ'.control.nextPtr ∧ Flagged (σ'.control.session t) :=
        control_preserved (I := fun c => t < c.nextPtr ∧ Flagged (c.session t))
          (fun _ _ _ hop hc => ⟨Nat.lt_of_lt_of_le hc.1 hop.nextPtr_le, hc.2.touch (hop.touch hc.1)⟩)
          hs ⟨hexisting, h.2⟩
      exact hflagged.2
  exact hboth.1

end Run

/-- The messages that wait and the writes that are under way. -/
def Session.writes (o : Session) : Nat := o.writeQueue.length + o.asyncWrites.length

section Writes
variable {cfg : Config} {o : Session}

theorem writes_doWriteQueue (o : Session) : o.doWriteQueue.writes ≤ o.writes + 1 := by
  rcases doWriteQueue_cases o with he | ⟨_, he⟩ | ⟨m, rest, _, he⟩
  · rw [he]
    exact Nat.le_succ _
  · rw [he]
    exact Nat.le_succ _
  · rw [he]
    simp only [Session.writes, Session.asyncWrite, List.length_append, List.length_singleton]
    omega

theorem writes_postWrite (cfg : Config) (text : Bytes) (o : Session) :
    (o.postWrite cfg text).writes ≤ o.writes + 2 := by
  obtain ⟨hasync, _, _, _, hqueue⟩ := queued_writes cfg text o
  have hqueued : (queued cfg text o).writes ≤ o.writes + 1 := by
    unfold Session.writes
    rw [hasync]
    omega
  rcases postWrite_cases cfg text o with ⟨_, he⟩ | ⟨_, he⟩
  · rw [he]
    exact (writes_doWriteQueue _).trans (Nat.add_le_add_right hqueued 1)
  · rw [he]
    exact hqueued.trans (Nat.le_succ _)

/-- A completed write is one less, and the message it has sent goes with it. -/
theorem writes_onWrite (inv : WriterInv cfg o.toSessionWriter) {k : Nat} {w : PendingWrite}
    (pending : o.asyncWrites[k]? = some w) (ec : Bool) :
    (WriteQueue.onWrite w ec (o.takeWrite k)).writes + 1 ≤ o.writes := by
  obtain ⟨hone, hnone⟩ := takeWrite_of_single inv.single pending
  have htaken : (o.takeWrite k).writes + 1 = o.writes := by
    rw [Session.writes, hnone, Session.writes, hone]
    rfl
  unfold WriteQueue.onWrite
  split
  · exact htaken.le
  · split
    · exact htaken.le
    · obtain ⟨m, rest, hqueue⟩ := List.exists_cons_of_ne_nil (inv.busy (by simp [hone]))
      have hpopped : ({ o.takeWrite k with sent := o.sent ++ [w.msg] }.pop).writes + 1 =
        (o.takeWrite k).writes := by
        simp only [Session.writes, Session.pop, Session.takeWrite, hqueue, List.tail_cons,
          List.length_cons]
        omega
      have hnext := writes_doWriteQueue { o.takeWrite k with sent := o.sent ++ [w.msg] }.pop
      change ({ o.takeWrite k with sent := o.sent ++ [w.msg] }.pop.doWriteQueue).writes + 1 ≤ o.writes
      omega

end Writes

/-- A handler goes on, or a write succeeds; one that fails closes its session. -/
def Act.Serves (a : Act) : Prop := ∃ s, a = .on s .advance ∨ a = .on s (.writeDone 0 false)

/-- No handler can go on and no write is under way. -/
def Served (env : Env) (σ : World) : Prop := ∀ a : Act, a.Serves → step env σ a = none

def World.debt (σ : World) : Nat :=
  ∑ t ∈ Finset.range σ.nextPtr, ((σ.session t).workload + (σ.session t).writes)

section All
variable {env : Env} {shardCount : Nat} {acts more : List Act} {σ σ' : World}
    {s t : SessionPtr} {a : Act}

/-- A step of a handler posts one answer at most, to its own session. -/
theorem advance_writes (existing : t < σ.nextPtr) (hs : step env σ (.on s .advance) = some σ') :
    (σ'.session t).writes ≤ (σ.session t).writes + if s = t then 2 else 0 := by
  cases step_writeMove hs existing with
  | keep writer =>
    rw [Session.writes, writer]
    exact Nat.le_add_right _ _
  | post text act posted _ =>
    have hself : s = t := by simpa using act
    rw [if_pos hself, Session.writes, (writePath_eq_iff.mp posted).1]
    exact writes_postWrite env.config text _
  | done k w ec act => cases act

theorem advance_debt (run : exec (step env) (World.init shardCount) acts = some σ)
    (hs : step env σ (.on s .advance) = some σ') : σ'.debt + 1 ≤ σ.debt := by
  obtain ⟨hexisting, hnext⟩ := existing_of_event run hs
  rw [World.debt, World.debt, hnext]
  refine sum_pays hexisting fun t ht => ?_
  have hwork := step_workload ht hs
  have hwrites := advance_writes ht hs
  simp only [Act.on.injEq, and_true, Act.workload, Event.workload, ite_self] at hwork
  split_ifs at hwork hwrites ⊢ with hself
  · omega
  · omega

theorem writeDone_debt (room : 2 ≤ env.config.maxWriteQueueSize)
    (run : exec (step env) (World.init shardCount) acts = some σ) {k : Nat} {ec : Bool}
    (hs : step env σ (.on s (.writeDone k ec)) = some σ') : σ'.debt + 1 ≤ σ.debt := by
  obtain ⟨hexisting, hnext⟩ := existing_of_event run hs
  rw [World.debt, World.debt, hnext]
  refine sum_pays hexisting fun t ht => ?_
  have hwork := step_workload ht hs
  simp only [Act.workload, Event.workload, ite_self] at hwork
  by_cases hself : s = t
  · subst hself
    have happened := hs
    simp only [step, Option.ite_none_right_eq_some] at happened
    cases event_cases happened.2 with
    | writeDone _ w _ pending =>
      have hwrites := writes_onWrite (writerInv_of_run room run s) pending ec
      rw [← onWrite_session k w ec] at hwrites
      rw [if_pos rfl]
      simp only [Act.on.injEq] at hwork
      omega
  · rw [if_neg hself]
    cases step_writeMove hs ht with
    | keep writer =>
      have hwrites : (σ'.session t).writes = (σ.session t).writes := by
        rw [Session.writes, writer, Session.writes]
      omega
    | post text act => simp at act
    | done _ w _ act => exact absurd (Act.on.inj act).1 hself

theorem serves_debt (room : 2 ≤ env.config.maxWriteQueueSize)
    (run : exec (step env) (World.init shardCount) acts = some σ) (serves : a.Serves)
    (hs : step env σ a = some σ') : σ'.debt + 1 ≤ σ.debt := by
  rcases serves with ⟨s, rfl | rfl⟩
  · exact advance_debt run hs
  · exact writeDone_debt room run hs

/-- An open session with something to send can complete a write. -/
theorem writeDone_enabled (positive : 1 ≤ shardCount) (small : shardCount ≤ 2 ^ 31)
    (run : exec (step env) (World.init shardCount) acts = some σ) (existing : t < σ.nextPtr)
    (free : (σ.session t).strandFree = true) (opened : (σ.session t).closed = false)
    (waiting : (σ.session t).writeQueue ≠ []) :
    ∃ σ', step env σ (.on t (.writeDone 0 false)) = some σ' := by
  have hgoing := (sends_of_run run existing).going opened waiting
  obtain ⟨w, rest, hwrites⟩ := List.exists_cons_of_ne_nil hgoing
  have halive : σ.live t = true := by
    apply (noDangling_of_run positive small run).writes t existing
    simp [hwrites]
  refine ⟨σ.onWrite t 0 w false, ?_⟩
  simp [step, halive, World.event, free, hwrites]

theorem delivered_of_serves (kind : ∀ a ∈ more, a.Serves) (t : SessionPtr) : delivered t more = [] := by
  rw [delivered, List.flatMap_eq_nil_iff]
  intro a ha
  obtain ⟨s, rfl | rfl⟩ := kind a ha
  · rfl
  · rfl

/-- From every reachable state the handlers and the writes come to an end, after a number of steps
that is bounded in advance however they are scheduled. Then every open session has an empty queue,
and one that has dropped nothing has sent its client the answers of the protocol to all its complete
frames. -/
theorem every_request_is_served (env : Env) (room : 2 ≤ env.config.maxWriteQueueSize) (shardCount : Nat)
    (positive : 1 ≤ shardCount) (small : shardCount ≤ 2 ^ 31) (acts : List Act) (σ : World)
    (run : exec (step env) (World.init shardCount) acts = some σ)
    (outside : ∀ t text, .on t (.postWrite text) ∈ acts → text ∉ answerTexts) :
    (∃ more σ', (∀ a ∈ more, a.Serves) ∧ exec (step env) σ more = some σ' ∧ Served env σ') ∧
    ∀ more σ', (∀ a ∈ more, a.Serves) → exec (step env) σ more = some σ' →
      more.length ≤ σ.debt ∧
      (Served env σ' → ∀ t < σ.nextPtr, (σ'.session t).closed = false → (σ'.session t).writeQueue = [] ∧
        ((σ'.session t).dropped = [] → ∃ answers, Protocol env answers ∧
          answers.map Prod.fst = (wire.parse (delivered t acts)).1 ∧
          ((σ'.session t).sent.map Message.text).filter (· ∈ answerTexts) =
            (answers.filterMap fun x => x.2.message?).map Message.text)) := by
  have hreachable : ∀ τ a τ', (∃ acts, exec (step env) (World.init shardCount) acts = some τ) →
      a.Serves → step env τ a = some τ' →
      ∃ acts, exec (step env) (World.init shardCount) acts = some τ' :=
    fun _ _ _ reached _ hs => exists_exec_step reached hs
  have hpays : ∀ τ a τ', (∃ acts, exec (step env) (World.init shardCount) acts = some τ) → a.Serves →
      step env τ a = some τ' → τ'.debt + 1 ≤ τ.debt :=
    fun τ a τ' ⟨acts, h⟩ hserves hs => serves_debt room h hserves hs
  refine ⟨?_, fun more σ' kind run' => ⟨?_, fun served t existing opened => ?_⟩⟩
  · apply exec_settles World.debt hreachable hpays _ ⟨acts, run⟩
    rintro τ _ hgoes
    simp only [Served, not_forall] at hgoes
    obtain ⟨a, hserves, hs⟩ := hgoes
    obtain ⟨τ', hτ'⟩ := Option.ne_none_iff_exists'.mp hs
    exact ⟨a, τ', hserves, hτ'⟩
  · have hbound := exec_potential World.debt (fun _ => 1) (fun _ => 0) hreachable hpays
      ⟨acts, run⟩ kind run'
    simp only [List.map_const', List.sum_replicate_nat] at hbound
    omega
  · have run'' : exec (step env) (World.init shardCount) (acts ++ more) = some σ' :=
      exec_append_eq_some.mpr ⟨σ, run, run'⟩
    have existing' : t < σ'.nextPtr := Nat.lt_of_lt_of_le existing (nextPtr_exec run')
    have hsettled : Settled env σ' := fun s => served _ ⟨s, Or.inl rfl⟩
    have hfree := strandFree_of_settled positive small run'' hsettled t
    have hempty : (σ'.session t).writeQueue = [] := by
      by_contra hwaiting
      obtain ⟨τ, hτ⟩ := writeDone_enabled positive small run'' existing' hfree opened hwaiting
      rw [served _ ⟨t, Or.inr rfl⟩] at hτ
      cases hτ
    refine ⟨hempty, fun kept => ?_⟩
    obtain ⟨answers, pending, hconverses⟩ := converses_of_run run'' existing'
    have hrests := inLoop_of_strandFree hfree
    obtain rfl := hconverses.nothing_pending (inLoop_eq_false_iff.mp hrests).2
    have hpackets := hconverses.packets
    rw [List.append_nil] at hpackets
    refine ⟨answers, hconverses.protocol, ?_, ?_⟩
    · have hdelivered : delivered t (acts ++ more) = delivered t acts := by
        rw [delivered_append, delivered_of_serves kind t, List.append_nil]
      rw [hpackets, ← hdelivered]
      exact received_of_rest run'' existing' hrests
    · obtain ⟨current, htransmits⟩ := transmits_of_run room run'' t
      have hsent : (σ'.session t).sent = (σ'.session t).posted := by
        rw [htransmits.conserved kept, hempty, List.append_nil]
      rw [hsent]
      refine posted_answers run'' existing' (fun text ht => ?_) hconverses
      rcases List.mem_append.mp ht with hold | hnew
      · exact outside t text hold
      · obtain ⟨s, h | h⟩ := kind _ hnew
        · cases h
        · cases h

/-- A client logs in, and eight steps of its handler and one write serve it. -/
theorem every_request_is_served_login :
    let env := Env.ofTable [] [loginText "a"]
    let login := (loginText "a").1
    let acts := connects 0 ++ sends 0 [login] 0
    let more := List.replicate 8 (Act.on 0 .advance) ++ [.on 0 (.writeDone 0 false)]
    ∃ σ σ' answers, exec (step env) (World.init 4) acts = some σ ∧ exec (step env) σ more = some σ' ∧
      more.length ≤ σ.debt ∧ Protocol env answers ∧ answers.map Prod.fst = [login] ∧
      [loginOk] = (answers.filterMap fun x => x.2.message?).map Message.text := by
  intro env login acts more
  have hrun : (exec (step env) (World.init 4) (acts ++ more)).map
      (fun σ' => (σ'.nextPtr, (σ'.session 0).closed,
      (σ'.session 0).dropped, (σ'.session 0).sent, (step env σ' (.on 0 .advance)).isNone,
      (step env σ' (.on 0 (.writeDone 0 false))).isNone)) =
      some (1, false, [], [⟨0, loginOk⟩], true, true) := by decide +kernel
  obtain ⟨σ', run'', hview⟩ := Option.map_eq_some_iff.mp hrun
  simp only [Prod.mk.injEq, Option.isNone_iff_eq_none] at hview
  obtain ⟨hnext, hopened, hdropped, hsent, hrests, hidle⟩ := hview
  obtain ⟨σ, run, run'⟩ := exec_append_eq_some.mp run''
  have hserved : Served env σ' := by
    rintro a ⟨s, ha⟩
    by_cases hs : s = 0
    · subst hs
      rcases ha with rfl | rfl
      · exact hrests
      · exact hidle
    · have hdead : σ'.live s = false := by
        by_contra halive
        have hlt := (known_of_run run'').live s (Bool.eq_true_of_not_eq_false halive)
        change s < σ'.nextPtr at hlt
        rw [hnext] at hlt
        exact hs (Nat.lt_one_iff.mp hlt)
      rcases ha with rfl | rfl
      · simp [step, hdead]
      · simp [step, hdead]
  have hserve := (every_request_is_served env (by decide) 4 (by decide) (by decide) acts σ run
    (by simp [acts, connects, sends])).2 more σ' (by simp [more, Act.Serves]) run'
  have hexisting : 0 < σ.nextPtr := by
    have hcount : (exec (step env) (World.init 4) acts).map (fun σ => σ.nextPtr) = some 1 := by
      decide +kernel
    rw [run, Option.map_some, Option.some.injEq] at hcount
    rw [hcount]
    decide
  obtain ⟨answers, hprotocol, hpackets, hanswers⟩ := (hserve.2 hserved 0 hexisting hopened).2 hdropped
  have hframes : (wire.parse (delivered 0 acts)).1 = [login] := by decide +kernel
  rw [hsent] at hanswers
  exact ⟨σ, σ', answers, run, run', hserve.1, hprotocol, hpackets.trans hframes, hanswers⟩

end All

end DBMiddleWare
