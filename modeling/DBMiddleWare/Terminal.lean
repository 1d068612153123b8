import DBMiddleWare.Locality
import DBMiddleWare.Framing

/-!
# After closing

`close_session` does not stop the handler that is running for the session, empty its
buffer or its task queue. A session that is closed while these hold nothing that acts on
it stays as it is; otherwise frames that wait in the buffer are still dispatched, a login
still registers, and a queued read is still started.
-/

namespace DBMiddleWare

open Execution MessageBufferManager
set_option autoImplicit false

/-- No complete frame of the bytes is one that `dispatch` gives to a handler. -/
def NoHandlerFrames (env : Env) (registered : Bool) (bytes : Bytes) : Prop :=
  ∀ packet ∈ (wire.parse bytes).1, (route env registered packet).handler? = none

/-- A closed session for which nothing is left to do: its handler is not between the lookup and
the registration of a login, no read waits to be started, no frame waits for a handler. -/
structure AtRest (env : Env) (o : Session) : Prop where
  state : o.state = .closed
  login : o.phase.pending = none
  queue : .read ∉ o.taskQueue
  strand : .task .read ∉ o.strand
  frames : NoHandlerFrames env o.nicknameRegistered o.msgBufMgr.buffer

/-- A closed session that was at rest, and what has not changed since. -/
structure Frozen (env : Env) (o o' : Session) : Prop where
  rest : AtRest env o'
  handled : o'.handled = o.handled
  registered : o'.nicknameRegistered = o.nicknameRegistered
  registrations : o'.registrations = o.registrations
  reads : o'.tasksStarted.count .read = o.tasksStarted.count .read

section Session
variable {env : Env} {o o' : Session}

theorem Frozen.refl (h : AtRest env o) : Frozen env o o := ⟨h, rfl, rfl, rfl, rfl⟩

theorem Frozen.trans {o'' : Session} (h : Frozen env o o') (h' : Frozen env o' o'') : Frozen env o o'' :=
  ⟨h'.rest, h'.handled.trans h.handled, h'.registered.trans h.registered,
    h'.registrations.trans h.registrations, h'.reads.trans h.reads⟩

theorem AtRest.of_reader (h : AtRest env o) (reader : o'.toSessionReader = o.toSessionReader)
    (state : o'.state = .closed) (phase : o'.phase = o.phase) (handled : o'.handled = o.handled)
    (registered : o'.nicknameRegistered = o.nicknameRegistered)
    (registrations : o'.registrations = o.registrations) : Frozen env o o' := by
  refine ⟨⟨state, phase ▸ h.login, ?_, ?_, ?_⟩, handled, registered, registrations, ?_⟩
  · rw [reader]
    exact h.queue
  · rw [reader]
    exact h.strand
  · rw [reader, registered]
    exact h.frames
  · rw [reader]

theorem AtRest.shut (h : AtRest env o) : Frozen env o o.shut :=
  h.of_reader rfl (SessionControl.shut_state h.state) (SessionControl.shut_phase _)
    (SessionControl.shut_handled _) (SessionControl.shut_registered _)
      (SessionControl.shut_registrations _)

theorem AtRest.notice (h : AtRest env o) (text : Bytes) :
    Frozen env o { o with strand := o.strand ++ [.write text] } := by
  refine ⟨⟨h.state, h.login, h.queue, ?_, h.frames⟩, rfl, rfl, rfl, rfl⟩
  intro hmem
  rcases List.mem_append.mp hmem with hmem | hmem
  · exact h.strand hmem
  · simp at hmem

theorem AtRest.remote (h : AtRest env o) (hr : Remote o o') : Frozen env o o' := by
  cases hr with
  | same => exact .refl h
  | shut => exact h.shut
  | notice text => exact h.notice text

theorem AtRest.setPhase (h : AtRest env o) {phase : Phase} (outside : phase.pending = none) :
    Frozen env o { o with phase := phase } :=
  ⟨⟨h.state, outside, h.queue, h.strand, h.frames⟩, rfl, rfl, rfl, rfl⟩

theorem AtRest.postWrite (h : AtRest env o) (cfg : Config) (text : Bytes) :
    Frozen env o (o.postWrite cfg text) := by
  have hsame : ∀ {α : Type} (view : SessionControl → α),
      (∀ c : SessionControl, view { c with closed := true } = view c) →
      view (o.postWrite cfg text).toSessionControl = view o.toSessionControl :=
    fun view hview => WriteQueue.postWrite_view view hview cfg text o
  exact h.of_reader (WriteQueue.postWrite_frame cfg text o).2.1
    ((hsame SessionControl.state fun _ => rfl).trans h.state)
    (hsame SessionControl.phase fun _ => rfl) (hsame SessionControl.handled fun _ => rfl)
    (hsame SessionControl.nicknameRegistered fun _ => rfl)
    (hsame SessionControl.registrations fun _ => rfl)

theorem AtRest.runNextTask (h : AtRest env o) : Frozen env o o.runNextTask := by
  unfold Session.runNextTask
  split
  · exact ⟨⟨h.state, h.login, h.queue, h.strand, h.frames⟩, rfl, rfl, rfl, rfl⟩
  · rename_i fn rest hqueue
    have hnot : .read ∉ fn :: rest := hqueue ▸ h.queue
    cases fn with
    | read => exact absurd List.mem_cons_self hnot
    | call id =>
      refine ⟨⟨h.state, h.login, fun hmem => hnot (List.mem_cons_of_mem _ hmem), h.strand, h.frames⟩,
        rfl, rfl, rfl, ?_⟩
      simp [Session.run]

theorem AtRest.pushTask (h : AtRest env o) (id : Nat) : Frozen env o (o.pushTask (.call id)) := by
  have hpushed : ∀ running, Frozen env o
      { o with taskQueue := o.taskQueue ++ [.call id], taskRunning := running } := by
    intro running
    refine ⟨⟨h.state, h.login, fun hmem => ?_, h.strand, h.frames⟩, rfl, rfl, rfl, rfl⟩
    rcases List.mem_append.mp hmem with hmem | hmem
    · exact h.queue hmem
    · simp at hmem
  unfold Session.pushTask
  dsimp only
  split
  · exact hpushed o.taskRunning
  · exact (hpushed true).trans (hpushed true).rest.runNextTask

end Session

/-- What has not changed for a session in the whole server: itself, and that the index has
no new entry in its name. -/
structure FrozenIn (env : Env) (t : SessionPtr) (σ σ' : World) : Prop where
  session : Frozen env (σ.session t) (σ'.session t)
  owner : ∀ n, σ'.manager.owner n = some t → σ.manager.owner n = some t

section World
variable {env : Env} {σ σ' : World} {t : SessionPtr}

theorem FrozenIn.trans {σ'' : World} (h : FrozenIn env t σ σ') (h' : FrozenIn env t σ' σ'') :
    FrozenIn env t σ σ'' :=
  ⟨h.session.trans h'.session, fun n hn => h.owner n (h'.owner n hn)⟩

theorem FrozenIn.refl (h : AtRest env (σ.session t)) : FrozenIn env t σ σ :=
  ⟨.refl h, fun _ hn => hn⟩

theorem frozenIn_modify {f : Session → Session} (h : Frozen env (σ.session t) (f (σ.session t))) :
    FrozenIn env t σ (σ.modify t f) := by
  refine ⟨?_, fun _ hn => hn⟩
  rw [World.modify_session_self]
  exact h

theorem Seen.frozenIn (h : Seen t σ σ') (rest : AtRest env (σ.session t)) : FrozenIn env t σ σ' :=
  ⟨rest.remote h.1, h.2⟩

theorem frozenIn_closeSession (rest : AtRest env (σ.session t)) : FrozenIn env t σ (σ.closeSession t) :=
  (seen_closeSession σ t t).frozenIn rest

theorem frozenIn_setPhase (rest : AtRest env (σ.session t)) (phase : Phase)
    (outside : phase.pending = none) : FrozenIn env t σ (σ.setPhase t phase) :=
  frozenIn_modify (rest.setPhase outside)

theorem frozenIn_postWrite (rest : AtRest env (σ.session t)) (text : Bytes) :
    FrozenIn env t σ (σ.postWrite t env.config text) :=
  frozenIn_modify (rest.postWrite env.config text)

theorem doRead_of_closed {cfg : Config} (closed : (σ.session t).state = .closed) :
    σ.doRead t cfg = σ := by
  rw [World.doRead, if_pos closed]

theorem start_of_closed (closed : (σ.session t).state = .closed) : σ.start t = σ := by
  rw [World.start, if_pos closed]

/-- The packet that the drain loop takes next is one that no handler gets. -/
theorem extract_frames {host : ByteOrder.Endian} {b b' : MessageBufferManager} {packet : Bytes}
    (h : extractMessage host b = (some packet, b')) :
    (wire.parse b.buffer).1 = packet :: (wire.parse b'.buffer).1 := by
  rw [wire.parse_item (extractMessage_some h).1]

theorem extract_none_frames {host : ByteOrder.Endian} {b b' : MessageBufferManager}
    (h : extractMessage host b = (none, b')) : (wire.parse b'.buffer).1 = [] := by
  have hnil : (wire.parse []).1 = [] := by
    rw [wire.parse_more rfl]
  cases hl : wire.look b.buffer with
  | more =>
    rw [extractMessage_of_more hl] at h
    rw [← (Prod.mk.inj h).2]
    exact congrArg Prod.fst (wire.parse_more hl)
  | bad =>
    rw [extractMessage_of_bad hl] at h
    rw [← (Prod.mk.inj h).2]
    exact hnil
  | item m rest =>
    rw [extractMessage_of_item hl] at h
    cases (Prod.mk.inj h).1

theorem frozenIn_enter (rest : AtRest env (σ.session t)) {r : Route} (hr : r.handler? = none) :
    FrozenIn env t σ (σ.enter env t r) := by
  have hmove : FrozenIn env t σ (σ.modify t fun o =>
      { o with handled := o.handled ++ r.handler?.toList, phase := r.phase env }) := by
    refine frozenIn_modify
      ⟨⟨rest.state, Route.phase_pending env r, rest.queue, rest.strand, rest.frames⟩, ?_, rfl, rfl, rfl⟩
    simp [hr]
  unfold World.enter
  dsimp only
  split
  · exact hmove.trans (frozenIn_closeSession hmove.session.rest)
  · exact hmove

theorem frozenIn_drainStep (rest : AtRest env (σ.session t)) : FrozenIn env t σ (σ.drainStep env t) := by
  unfold World.drainStep
  split
  · rename_i packet mgr hextract
    have hframes := rest.frames
    rw [NoHandlerFrames, extract_frames hextract] at hframes
    have htaken : FrozenIn env t σ
        ((σ.modify t fun o => { o with msgBufMgr := mgr }).noteReceived t packet) := by
      rw [World.noteReceived, World.modify_modify]
      exact frozenIn_modify ⟨⟨rest.state, rest.login, rest.queue, rest.strand,
        fun p hp => hframes p (List.mem_cons_of_mem _ hp)⟩, rfl, rfl, rfl, rfl⟩
    refine htaken.trans (frozenIn_enter htaken.session.rest ?_)
    rw [htaken.session.registered]
    exact hframes packet List.mem_cons_self
  · rename_i mgr hextract
    have htaken : FrozenIn env t σ (σ.modify t fun o => { o with msgBufMgr := mgr }) := by
      refine frozenIn_modify ⟨⟨rest.state, rest.login, rest.queue, rest.strand, fun p hp => ?_⟩,
        rfl, rfl, rfl, rfl⟩
      change p ∈ (wire.parse mgr.buffer).1 at hp
      simp [extract_none_frames hextract] at hp
    dsimp only
    split
    · have hidle := htaken.trans (frozenIn_setPhase htaken.session.rest .idle rfl)
      exact hidle.trans (frozenIn_closeSession hidle.session.rest)
    · have hnext := htaken.trans (frozenIn_setPhase htaken.session.rest .next rfl)
      rw [doRead_of_closed hnext.session.rest.state]
      exact hnext

/-- What may still arrive for a closed session: bytes that complete no frame for a handler; and
no login of it may pass its lookup. -/
def StaysAtRest (env : Env) (t : SessionPtr) (σ : World) : Act → Prop
  | .on s (.readData data) => s = t →
      NoHandlerFrames env (σ.session t).nicknameRegistered ((σ.session t).msgBufMgr.buffer ++ data)
  | a => ∀ g ∈ σ.grants a, g.1 ≠ t

theorem frozenIn_advance (rest : AtRest env (σ.session t))
    (refused : ∀ g ∈ σ.grants (.on t .advance), g.1 ≠ t) (h : Advanced env σ t σ') :
    FrozenIn env t σ σ' := by
  have hlogin := rest.login
  cases h with
  | drain _ => exact frozenIn_drainStep rest
  | reply text _ =>
    have hdrain := frozenIn_setPhase rest .drain rfl
    exact hdrain.trans (frozenIn_postWrite hdrain.session.rest text)
  | lookup nickname at_ =>
    unfold World.lookupStep
    split
    · exact frozenIn_setPhase rest _ rfl
    · rename_i hfind
      exact absurd rfl (refused (t, nickname) (by simp [World.grants, at_, hfind]))
  | name nickname at_ =>
    rw [at_] at hlogin
    cases hlogin
  | ready nickname at_ =>
    rw [at_] at hlogin
    cases hlogin
  | register nickname at_ =>
    rw [at_] at hlogin
    cases hlogin
  | evict nickname prev at_ =>
    rw [at_] at hlogin
    cases hlogin
  | ack nickname _ =>
    have hdrain := frozenIn_setPhase rest .drain rfl
    have hacked : FrozenIn env t (σ.setPhase t .drain)
        ((σ.setPhase t .drain).modify t fun o => { o with acked := o.acked ++ [nickname] }) :=
      frozenIn_modify (hdrain.session.rest.of_reader rfl hdrain.session.rest.state rfl rfl rfl rfl)
    have hmoved := hdrain.trans hacked
    exact hmoved.trans (frozenIn_postWrite hmoved.session.rest loginOk)
  | next _ =>
    have hidle := frozenIn_setPhase rest .idle rfl
    exact hidle.trans (frozenIn_modify hidle.session.rest.runNextTask)

theorem frozenIn_strand {closure : Closure} {others : List Closure} (rest : AtRest env (σ.session t))
    (queue : (σ.session t).strand = closure :: others) :
    FrozenIn env t σ ((σ.modify t fun o => { o with strand := others }).runClosure env t closure) := by
  have hnot : .task .read ∉ closure :: others := queue ▸ rest.strand
  have htaken : FrozenIn env t σ (σ.modify t fun o => { o with strand := others }) :=
    frozenIn_modify ⟨⟨rest.state, rest.login, rest.queue,
      fun hmem => hnot (List.mem_cons_of_mem _ hmem), rest.frames⟩, rfl, rfl, rfl, rfl⟩
  refine htaken.trans ?_
  cases closure with
  | write text => exact frozenIn_postWrite htaken.session.rest text
  | task fn =>
    cases fn with
    | read => exact absurd List.mem_cons_self hnot
    | call id =>
      rw [World.runClosure, World.postTask]
      split
      · exact frozenIn_closeSession htaken.session.rest
      · exact frozenIn_modify (htaken.session.rest.pushTask id)

theorem frozenIn_onWrite (rest : AtRest env (σ.session t)) (k : Nat) (w : PendingWrite) (ec : Bool) :
    FrozenIn env t σ (σ.onWrite t k w ec) := by
  have htaken : FrozenIn env t σ (σ.modify t (Session.takeWrite k)) :=
    frozenIn_modify (rest.of_reader rfl rest.state rfl rfl rfl rfl)
  refine htaken.trans ?_
  unfold World.onWrite
  dsimp only
  split
  · exact .refl htaken.session.rest
  · split
    · exact frozenIn_closeSession htaken.session.rest
    · obtain ⟨hcontrol, hreader, _⟩ := WriteQueue.doWriteQueue_frame
        { (σ.modify t (Session.takeWrite k)).session t with
          sent := ((σ.modify t (Session.takeWrite k)).session t).sent ++ [w.msg] }.pop
      exact frozenIn_modify (htaken.session.rest.of_reader hreader
        ((congrArg SessionControl.state hcontrol).trans htaken.session.rest.state)
        (congrArg SessionControl.phase hcontrol) (congrArg SessionControl.handled hcontrol)
        (congrArg SessionControl.nicknameRegistered hcontrol)
        (congrArg SessionControl.registrations hcontrol))

theorem frozenIn_event {e : Event} (rest : AtRest env (σ.session t))
    (stays : StaysAtRest env t σ (.on t e)) (h : Happened env σ t e σ') : FrozenIn env t σ σ' := by
  cases h with
  | start _ =>
    have hidle := frozenIn_setPhase rest .idle rfl
    rw [start_of_closed hidle.session.rest.state]
    exact hidle
  | strand closure others queue _ => exact frozenIn_strand rest queue
  | readData data _ =>
    exact frozenIn_modify ⟨⟨rest.state, rfl, rest.queue, rest.strand, stays rfl⟩, rfl, rfl, rfl, rfl⟩
  | readError aborted _ =>
    have hnext : FrozenIn env t σ (σ.modify t fun o =>
        { o with asyncReads := o.asyncReads - 1, readPending := false, phase := .next }) :=
      frozenIn_modify ⟨⟨rest.state, rfl, rest.queue, rest.strand, rest.frames⟩, rfl, rfl, rfl, rfl⟩
    unfold World.readError
    dsimp only
    split
    · exact hnext
    · exact hnext.trans (frozenIn_closeSession hnext.session.rest)
  | advance advanced => exact frozenIn_advance rest stays advanced
  | postWrite text => exact frozenIn_modify (rest.notice text)
  | writeDone k w ec _ => exact frozenIn_onWrite rest k w ec
  | sweep =>
    have hseen := seen_closeSession { σ with toClose := σ.toClose.erase t } t t
    exact ⟨rest.remote hseen.1, hseen.2⟩
  | destroy _ => exact ⟨.refl rest, fun _ hn => hn⟩

theorem frozenIn_step {a : Act} (rest : AtRest env (σ.session t)) (existing : t < σ.nextPtr)
    (stays : StaysAtRest env t σ a) (h : step env σ a = some σ') : FrozenIn env t σ σ' := by
  by_cases hown : ∃ e, a = .on t e
  · obtain ⟨e, rfl⟩ := hown
    simp only [step, Option.ite_none_right_eq_some] at h
    exact frozenIn_event rest stays (event_cases h.2)
  · exact (step_seen h existing fun e he => hown ⟨e, he⟩).frozenIn rest

end World

/-- Closed is terminal for a session that is at rest, as long as nothing arrives for a handler:
whatever else happens, it stays closed, runs no handler, is not registered, enters no
nickname and starts no read. -/
theorem closed_is_terminal (env : Env) (shardCount : Nat) (acts more : List Act) (σ σ' : World)
    (t : SessionPtr) (run : exec (step env) (World.init shardCount) acts = some σ)
    (alive : σ.live t = true) (rest : AtRest env (σ.session t))
    (stays : Along (step env) (StaysAtRest env t) σ more) (run' : exec (step env) σ more = some σ') :
    (σ'.session t).state = .closed ∧ (σ'.session t).handled = (σ.session t).handled ∧
    (σ'.session t).nicknameRegistered = (σ.session t).nicknameRegistered ∧
    (σ'.session t).registrations = (σ.session t).registrations ∧
    (∀ n, σ'.manager.owner n = some t → σ.manager.owner n = some t) ∧
    (σ'.session t).tasksStarted.count .read = (σ.session t).tasksStarted.count .read := by
  have hinv : t < σ'.nextPtr ∧ FrozenIn env t σ σ' := by
    refine invariant_along (I := fun τ => t < τ.nextPtr ∧ FrozenIn env t σ τ)
      (fun τ a τ' h hg hs => ?_) ⟨(known_of_run run).live t alive, .refl rest⟩ stays run'
    exact ⟨Nat.lt_of_lt_of_le h.1 (nextPtr_le_of_step hs),
      h.2.trans (frozenIn_step h.2.session.rest h.1 hg hs)⟩
  obtain ⟨_, hsession, howner⟩ := hinv
  exact ⟨hsession.rest.state, hsession.handled, hsession.registered, hsession.registrations, howner,
    hsession.reads⟩

instance (env : Env) (t : SessionPtr) (σ : World) (a : Act) : Decidable (StaysAtRest env t σ a) := by
  unfold StaysAtRest NoHandlerFrames
  split <;> infer_instance

theorem noHandlerFrames_nil (env : Env) (registered : Bool) : NoHandlerFrames env registered [] := by
  intro packet hp
  rw [wire.parse_more rfl] at hp
  cases hp

set_option synthInstance.maxSize 1000 in
/-- A cleanup closes a session that waits for its client. -/
theorem closed_is_terminal_inactive :
    ∃ σ σ', exec (step (Env.ofTable [115] [])) (World.init 4)
        (connects 0 ++ [.cleanupInactive 0 301 300, .on 0 .sweep]) = some σ ∧
      exec (step (Env.ofTable [115] [])) σ [.on 0 (.readError true), .on 0 .advance] = some σ' ∧
      (σ'.session 0).state = .closed ∧ (σ'.session 0).handled = (σ.session 0).handled ∧
      (σ'.session 0).nicknameRegistered = (σ.session 0).nicknameRegistered ∧
      (σ'.session 0).registrations = (σ.session 0).registrations ∧
      (∀ n, σ'.manager.owner n = some 0 → σ.manager.owner n = some 0) ∧
      (σ'.session 0).tasksStarted.count .read = (σ.session 0).tasksStarted.count .read := by
  have hclosed : (exec (step (Env.ofTable [115] [])) (World.init 4)
      (connects 0 ++ [.cleanupInactive 0 301 300, .on 0 .sweep])).map (fun σ =>
        (σ.live 0, (σ.session 0).state, (σ.session 0).phase, (σ.session 0).taskQueue,
          (σ.session 0).strand, (σ.session 0).msgBufMgr.buffer,
          decide (Along (step (Env.ofTable [115] [])) (StaysAtRest (Env.ofTable [115] []) 0) σ
            [.on 0 (.readError true), .on 0 .advance]),
          (exec (step (Env.ofTable [115] [])) σ [.on 0 (.readError true), .on 0 .advance]).isSome)) =
      some (true, .closed, .idle, [], [], [], true, true) := by
    decide +kernel
  obtain ⟨σ, run, hσ⟩ := Option.map_eq_some_iff.mp hclosed
  simp only [Prod.mk.injEq, decide_eq_true_eq] at hσ
  obtain ⟨alive, hstate, hphase, hqueue, hstrand, hbuffer, stays, hmore⟩ := hσ
  obtain ⟨σ', run'⟩ := Option.isSome_iff_exists.mp hmore
  have rest : AtRest (Env.ofTable [115] []) (σ.session 0) := by
    refine ⟨hstate, by rw [hphase]; rfl, by simp [hqueue], by simp [hstrand], ?_⟩
    rw [hbuffer]
    exact noHandlerFrames_nil _ _
  exact ⟨σ, σ', run, run', closed_is_terminal _ 4 _ _ σ σ' 0 run alive rest stays run'⟩

set_option synthInstance.maxSize 1000 in
/-- A login behind a packet without the secret, in the same read: the first packet closes
the session, the second one logs it in, and the next read is started. -/
theorem closed_session_logs_in :
    let rejected := connects 0 ++ sends 0 [[120], [115] ++ (loginText "kim").1] 1
    let run := exec (step (Env.ofTable [115] [loginText "kim"])) (World.init 4)
    (run rejected).map (fun σ => ((σ.session 0).state, (σ.session 0).handled,
      (σ.session 0).nicknameRegistered, σ.manager.owner "kim", (σ.session 0).tasksStarted.count .read)) =
        some (.closed, [], false, none, 1) ∧
    (run (rejected ++ List.replicate 8 (.on 0 .advance))).map (fun σ => ((σ.session 0).state,
      (σ.session 0).handled, (σ.session 0).nicknameRegistered, σ.manager.owner "kim",
      (σ.session 0).tasksStarted.count .read)) =
        some (.ready, [.login], true, some 0, 2) := by
  decide +kernel

end DBMiddleWare
