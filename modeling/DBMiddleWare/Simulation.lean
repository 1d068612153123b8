import DBMiddleWare.Control
import DBMiddleWare.WriteQueue

/-!
# The machine refines the control

Every step of the machine is a few operations of the control system. The overflow flag,
a successful lookup and the registration of a nickname happen in it only where the
machine does them, so a guard on these three can be checked on the machine.
-/

namespace DBMiddleWare

open Execution Control
set_option autoImplicit false

def World.control (σ : World) : Control where
  session t := (σ.session t).toSessionControl
  live := σ.live
  nextPtr := σ.nextPtr
  manager := σ.manager

def Route.closes : Route → Bool
  | .close => true
  | _ => false

/-- A call of `do_read` would find the task queue full. -/
def Session.readOverflows (o : Session) (cfg : Config) : Bool :=
  o.state ≠ .closed && !o.readPending && decide (cfg.maxTaskQueue ≤ o.taskQueue.length)

section Simulation
variable (σ : World) (s : SessionPtr)

theorem control_modify {f : Session → Session} {g : SessionControl → SessionControl}
    (h : (f (σ.session s)).toSessionControl = g (σ.session s).toSessionControl) :
    (σ.modify s f).control = σ.control.modify s g := by
  have hsession : (fun t => ((σ.modify s f).session t).toSessionControl) =
      (σ.control.modify s g).session := by
    funext t
    rw [World.modify_session, Control.modify_session]
    split
    · exact h
    · rfl
  simp only [World.control, Control.modify] at hsession ⊢
  rw [hsession]
  rfl

theorem control_modify_same {f : Session → Session}
    (h : (f (σ.session s)).toSessionControl = (σ.session s).toSessionControl) :
    (σ.modify s f).control = σ.control := by
  rw [control_modify σ s (g := fun o => o) h]
  exact Control.modify_eq_self _ _ _ rfl

theorem control_closeSession : (σ.closeSession s).control = σ.control.close s := by
  have hshut : (σ.modify s Session.shut).control = σ.control.modify s .shut :=
    control_modify σ s rfl
  unfold World.closeSession Control.close
  change _ = if (σ.session s).closed then _ else _
  split
  · exact hshut
  · rw [← hshut]
    rfl

theorem control_setPhase (phase : Phase) :
    (σ.setPhase s phase).control = σ.control.modify s (.goto phase) :=
  control_modify σ s rfl

theorem control_postWrite (cfg : Config) (text : Bytes) :
    (σ.postWrite s cfg text).control = σ.control ∨
    ((σ.session s).closed = false ∧ WriteQueue.AtLimit cfg (σ.session s) ∧
      (σ.postWrite s cfg text).control = σ.control.modify s .flag) := by
  rcases (WriteQueue.postWrite_frame cfg text (σ.session s)).1 with ⟨_, h⟩ | ⟨hlimit, h⟩
  · exact Or.inl (control_modify_same σ s h)
  · have hflag : (σ.postWrite s cfg text).control = σ.control.modify s .flag := control_modify σ s h
    cases hclosed : (σ.session s).closed with
    | false => exact Or.inr ⟨rfl, hlimit, hflag⟩
    | true =>
      refine Or.inl (hflag.trans (Control.modify_eq_self _ _ _ ?_))
      change { (σ.session s).toSessionControl with closed := true } = (σ.session s).toSessionControl
      rw [← hclosed]

theorem run_control (fn : Task) (o : Session) : (o.run fn).toSessionControl = o.toSessionControl := by
  cases fn <;> rfl

theorem runNextTask_control (o : Session) : o.runNextTask.toSessionControl = o.toSessionControl := by
  unfold Session.runNextTask
  split
  · rfl
  · exact run_control _ _

theorem pushTask_control (fn : Task) (o : Session) :
    (o.pushTask fn).toSessionControl = o.toSessionControl := by
  unfold Session.pushTask
  dsimp only
  split
  · rfl
  · exact runNextTask_control _

theorem control_postTask (cfg : Config) (fn : Task) :
    (σ.postTask s cfg fn).control = σ.control ∨
    (cfg.maxTaskQueue ≤ (σ.session s).taskQueue.length ∧
      (σ.postTask s cfg fn).control = σ.control.close s) := by
  unfold World.postTask
  split
  · rename_i hfull
    exact Or.inr ⟨hfull, control_closeSession σ s⟩
  · exact Or.inl (control_modify_same σ s (pushTask_control fn _))

theorem control_doRead (cfg : Config) :
    (σ.doRead s cfg).control = σ.control ∨
    ((σ.session s).readOverflows cfg = true ∧ (σ.doRead s cfg).control = σ.control.close s) := by
  unfold World.doRead
  split
  · exact Or.inl rfl
  · rename_i hstate
    split
    · exact Or.inl rfl
    · rename_i hpending
      have hsame : (σ.modify s fun o => { o with readPending := true }).control = σ.control :=
        control_modify_same σ s rfl
      rw [← hsame]
      rcases control_postTask (σ.modify s fun o => { o with readPending := true })
        s cfg .read with h | ⟨hfull, h⟩
      · exact Or.inl h
      · rw [World.modify_session_self] at hfull
        exact Or.inr ⟨by simp [Session.readOverflows, hstate, hpending, hfull], h⟩

theorem control_dispatch (closure : Closure) : (σ.dispatch s closure).control = σ.control :=
  control_modify_same σ s rfl

theorem control_start : (σ.start s).control = σ.control := by
  unfold World.start
  split
  · rfl
  · split
    · rfl
    · exact (control_dispatch _ s _).trans (control_modify_same σ s rfl)

theorem addSession_cases :
    (σ.addSession s = { σ with manager := σ.manager.insertSession (σ.session s).sessionId s }) ∨
    ∃ r, σ.manager.findSession (σ.session s).sessionId = some r ∧ σ.addSession s =
      { σ with manager := σ.manager.insertSession (σ.session s).sessionId s }.closeSession r := by
  unfold World.addSession
  dsimp only
  split
  · rename_i r hfound
    split
    · exact Or.inl rfl
    · exact Or.inr ⟨r, hfound, rfl⟩
  · exact Or.inl rfl

theorem control_accept (now : Int) :
    ∃ σ₁ : World, σ₁.control = σ.control.accept σ.sessionCounter ∧
      (σ.accept now = σ₁ ∨
        ∃ r, σ.manager.findSession σ.sessionCounter = some r ∧ σ.accept now = σ₁.closeSession r) := by
  have hcounter : (Function.update σ.session σ.nextPtr (.new σ.sessionCounter now) σ.nextPtr).sessionId =
      σ.sessionCounter := by
    rw [Function.update_self]
    rfl
  refine ⟨_, ?_, (addSession_cases _ σ.nextPtr).imp_right
    fun ⟨r, hfound, h⟩ => ⟨r, hcounter ▸ hfound, h⟩⟩
  have hsession : (fun t =>
      (Function.update σ.session σ.nextPtr (.new σ.sessionCounter now) t).toSessionControl) =
      Function.update σ.control.session σ.nextPtr { sessionId := σ.sessionCounter } := by
    funext t
    by_cases ht : t = σ.nextPtr
    · subst ht
      rw [Function.update_self, Function.update_self]
      rfl
    · rw [Function.update_of_ne ht, Function.update_of_ne ht]
      rfl
  simp only [World.control, Control.accept] at hsession ⊢
  rw [hsession, Function.update_self]
  rfl

theorem control_enter (env : Env) (packet : Bytes) :
    ∃ σ₁ : World, σ₁.control = σ.control.modify s (.receive env packet) ∧
      ((σ.noteReceived s packet).enter env s
          (route env ((σ.noteReceived s packet).session s).nicknameRegistered packet) = σ₁ ∨
        ((route env (σ.session s).nicknameRegistered packet).closes = true ∧
          (σ.noteReceived s packet).enter env s
            (route env ((σ.noteReceived s packet).session s).nicknameRegistered packet) =
              σ₁.closeSession s)) := by
  have hregistered : ((σ.noteReceived s packet).session s).nicknameRegistered =
      (σ.session s).nicknameRegistered := by
    rw [World.noteReceived, World.modify_session_self]
  rw [hregistered]
  refine ⟨(σ.noteReceived s packet).modify s fun o =>
    { o with
      handled := o.handled ++ (route env (σ.session s).nicknameRegistered packet).handler?.toList
      phase := (route env (σ.session s).nicknameRegistered packet).phase env }, ?_, ?_⟩
  · rw [World.noteReceived, World.modify_modify]
    exact control_modify σ s rfl
  · unfold World.enter
    dsimp only
    split
    · rename_i hroute
      exact Or.inr ⟨by rw [hroute]; rfl, rfl⟩
    · exact Or.inl rfl

theorem control_indexNickname (nickname : String) :
    ((σ.indexNickname s nickname).setPhase s (.loginAck nickname)).control =
      { σ.control.modify s (.index nickname) with
          manager := σ.control.manager.setOwner nickname s } := by
  have hmove : ((σ.modify s
      fun o => { o with registrations := o.registrations ++ [nickname] }).setPhase s
      (.loginAck nickname)).control = σ.control.modify s (.index nickname) := by
    rw [World.setPhase, World.modify_modify]
    exact control_modify σ s rfl
  rw [← hmove]
  rfl

theorem control_find (nickname : String) :
    σ.control.find nickname = σ.findSessionByNickname nickname := by
  unfold Control.find World.findSessionByNickname World.control
  dsimp only
  cases σ.manager.owner nickname with
  | none => rfl
  | some r =>
    simp only [Option.filter_some, Option.bind_some, World.lock]

end Simulation

/-- The session whose `post_write` closure a step runs. -/
def World.posts (σ : World) : Act → Option SessionPtr
  | .on s .advance =>
    match (σ.session s).phase with
    | .reply _ => some s
    | .loginAck _ => some s
    | _ => none
  | .on s .strand =>
    match (σ.session s).strand with
    | .write _ :: _ => some s
    | _ => none
  | _ => none

/-- The login that a step lets pass its lookup. -/
def World.grants (σ : World) : Act → Option (SessionPtr × String)
  | .on s .advance =>
    match (σ.session s).phase with
    | .loginLookup nickname =>
      if (σ.findSessionByNickname nickname).isSome then none else some (s, nickname)
    | _ => none
  | _ => none

/-- The session for which a step calls `on_nickname_registered`. -/
def World.registers (σ : World) : Act → Option SessionPtr
  | .on s .advance =>
    match (σ.session s).phase with
    | .loginReady _ => some s
    | _ => none
  | _ => none

/-- The end of a step of the drain loop closes the session. -/
def World.drainCloses (env : Env) (σ : World) (s : SessionPtr) : Bool :=
  match (σ.session s).msgBufMgr.extractMessage env.host with
  | (some packet, _) => (route env (σ.session s).nicknameRegistered packet).closes
  | (none, mgr) => mgr.lastClearByInvalidLength || (σ.session s).readOverflows env.config

/-- The session on which a step calls `close_session`, apart from an eviction. -/
def World.closes (env : Env) (σ : World) : Act → Option SessionPtr
  | .accept _ => σ.manager.findSession σ.sessionCounter
  | .on s .strand =>
    match (σ.session s).strand with
    | .task _ :: _ => if env.config.maxTaskQueue ≤ (σ.session s).taskQueue.length then some s else none
    | _ => none
  | .on s (.readError aborted) => if aborted then none else some s
  | .on s .advance => if (σ.session s).phase = .drain ∧ σ.drainCloses env s = true then some s else none
  | .on s (.writeDone k ec) =>
    match (σ.session s).asyncWrites[k]? with
    | some w => if ec = true ∧ w.generation = (σ.session s).generation then some s else none
    | none => none
  | .on s .sweep => some s
  | _ => none

/-- The session that a registration closes to take over its nickname. -/
def World.evicts (σ : World) : Act → Option SessionPtr
  | .on s .advance =>
    match (σ.session s).phase with
    | .loginEvict _ prev => some prev
    | _ => none
  | _ => none

/-- The session and the nickname that a step enters into the index. -/
def World.indexes (σ : World) : Act → Option (SessionPtr × String)
  | .on s .advance =>
    match (σ.session s).phase with
    | .loginRegister nickname => if (σ.previousOwner s nickname).isSome then none else some (s, nickname)
    | .loginEvict nickname _ => some (s, nickname)
    | _ => none
  | _ => none

/-- The operations that a guard of `Watch` is not about. -/
def Control.Op.plain : Op → Bool
  | .goto _ => true
  | .receive _ _ => true
  | .name _ _ => true
  | .evict _ _ _ => true
  | .ack _ _ => true
  | _ => false

def Control.SameIndex (c₀ c : Control) : Prop := ∀ n, c.manager.owner n = c₀.manager.owner n

/-- Where a guard on the operations has to be checked: a session is closed in the course of a
step, the other operations can be judged by the state before it. -/
structure Watch (env : Env) (guard : Control → Op → Prop) (σ : World) (a : Act) : Prop where
  plain : ∀ c op, op.plain = true → guard c op
  accept : ∀ now, a = .accept now → guard σ.control (.accept σ.sessionCounter)
  destroy : ∀ s, a = .on s .destroy → guard σ.control (.destroy s)
  close : ∀ s, σ.closes env a = some s ∨ σ.evicts a = some s →
    ∀ c, σ.control.SameIndex c → guard c (.close s)
  flag : ∀ s, σ.posts a = some s → (σ.session s).closed = false →
    WriteQueue.AtLimit env.config (σ.session s) → guard σ.control (.flag s)
  lookup : ∀ s n, σ.grants a = some (s, n) → guard σ.control (.lookup s n)
  ready : ∀ s n, σ.registers a = some s → guard σ.control (.ready s n)
  index : ∀ s n, σ.indexes a = some (s, n) →
    ∀ c, c = σ.control ∨ (∃ prev, σ.evicts a = some prev ∧ c = σ.control.close prev) →
      guard c (.index s n)

/-- The same for a guard that only puts conditions on three of the operations. -/
structure Checks (env : Env) (guard : Control → Op → Prop) (σ : World) (a : Act) : Prop where
  free : ∀ c op, op.checked = false → guard c op
  flag : ∀ s, σ.posts a = some s → (σ.session s).closed = false →
    WriteQueue.AtLimit env.config (σ.session s) → guard σ.control (.flag s)
  lookup : ∀ s n, σ.grants a = some (s, n) → guard σ.control (.lookup s n)
  ready : ∀ s n, σ.registers a = some s → guard σ.control (.ready s n)

theorem Checks.watch {env : Env} {guard : Control → Op → Prop} {σ : World} {a : Act}
    (h : Checks env guard σ a) : Watch env guard σ a where
  plain c op hop := by
    apply h.free
    cases op <;> first | rfl | cases hop
  accept _ _ := h.free _ _ rfl
  destroy _ _ := h.free _ _ rfl
  close _ _ _ _ := h.free _ _ rfl
  flag := h.flag
  lookup := h.lookup
  ready := h.ready
  index _ _ _ _ _ := h.free _ _ rfl

theorem checks_nothing (env : Env) (σ : World) (a : Act) : Checks env (fun _ _ => True) σ a :=
  ⟨fun _ _ _ => trivial, fun _ _ _ _ => trivial, fun _ _ _ => trivial, fun _ _ _ => trivial⟩

section Plain
variable {env : Env} {guard : Control → Op → Prop}

theorem Control.Run.one {c c' : Control} {op : Op} (hg : guard c op) (h : Step env c op c') :
    Run env guard c c' := Relation.ReflTransGen.single ⟨op, hg, h⟩

theorem Control.Run.refl_of_eq {c c' : Control} (h : c' = c) : Run env guard c c' :=
  h ▸ Relation.ReflTransGen.refl

theorem run_closeSession (σ : World) (s : SessionPtr) (close : guard σ.control (.close s)) :
    Run env guard σ.control (σ.closeSession s).control := by
  rw [control_closeSession]
  exact .one close (.close s)

theorem run_postTask (σ : World) (s : SessionPtr) (cfg : Config) (fn : Task)
    (close : cfg.maxTaskQueue ≤ (σ.session s).taskQueue.length → guard σ.control (.close s)) :
    Run env guard σ.control (σ.postTask s cfg fn).control := by
  rcases control_postTask σ s cfg fn with h | ⟨hfull, h⟩
  · exact .refl_of_eq h
  · rw [h]
    exact .one (close hfull) (.close s)

theorem run_doRead (σ : World) (s : SessionPtr) (cfg : Config)
    (close : (σ.session s).readOverflows cfg = true → guard σ.control (.close s)) :
    Run env guard σ.control (σ.doRead s cfg).control := by
  rcases control_doRead σ s cfg with h | ⟨hfull, h⟩
  · exact .refl_of_eq h
  · rw [h]
    exact .one (close hfull) (.close s)

theorem run_accept (σ : World) (now : Int) (accept : guard σ.control (.accept σ.sessionCounter))
    (close : ∀ r, σ.manager.findSession σ.sessionCounter = some r →
      ∀ c, σ.control.SameIndex c → guard c (.close r)) :
    Run env guard σ.control (σ.accept now).control := by
  have hnew : Run env guard σ.control (σ.control.accept σ.sessionCounter) := .one accept (.accept _)
  obtain ⟨σ₁, hσ₁, h⟩ := control_accept σ now
  rw [← hσ₁] at hnew
  rcases h with h | ⟨r, hfound, h⟩
  · rw [h]
    exact hnew
  · rw [h]
    refine hnew.trans (run_closeSession σ₁ r (close r hfound _ ?_))
    rw [hσ₁]
    exact fun _ => rfl

theorem run_onWrite (σ : World) (s : SessionPtr) (k : Nat) (w : PendingWrite) (ec : Bool)
    (close : ec = true → w.generation = (σ.session s).generation → guard σ.control (.close s)) :
    Run env guard σ.control (σ.onWrite s k w ec).control := by
  have htaken : (σ.modify s (Session.takeWrite k)).control = σ.control := control_modify_same σ s rfl
  rw [← htaken] at close ⊢
  unfold World.onWrite
  dsimp only
  split
  · exact .refl_of_eq rfl
  · rename_i hgeneration
    rw [World.modify_session_self, not_ne_iff] at hgeneration
    split
    · rename_i hec
      exact run_closeSession _ s (close hec hgeneration)
    · exact .refl_of_eq (control_modify_same _ s (WriteQueue.doWriteQueue_frame _).1)

theorem run_evictStep (σ : World) (s : SessionPtr) (nickname : String) (prev : SessionPtr)
    (at_ : (σ.session s).phase = .loginEvict nickname prev) (close : guard σ.control (.close prev))
    (index : guard (σ.control.close prev) (.index s nickname)) :
    Run env guard σ.control (σ.evictStep s nickname prev).control := by
  have hphase : ((σ.closeSession prev).session s).phase = .loginEvict nickname prev := by
    rw [World.closeSession_session, World.modify_session]
    split
    · rename_i heq
      subst heq
      exact (SessionControl.shut_phase _).trans at_
    · exact at_
  have hstep : Step env (σ.closeSession prev).control (.index s nickname) _ :=
    .index s nickname (Or.inr ⟨prev, hphase⟩)
  rw [← control_closeSession] at index
  have hindex := Run.one index hstep
  rw [← control_indexNickname] at hindex
  exact (run_closeSession σ prev close).trans hindex

variable (plain : ∀ c op, op.plain = true → guard c op)
include plain

theorem run_setPhase (σ : World) (s : SessionPtr) {phase : Phase} (alive : σ.live s = true)
    (outside : (σ.session s).phase.pending = none) (resting : phase.resting = true) :
    Run env guard σ.control (σ.setPhase s phase).control := by
  rw [control_setPhase]
  exact .one (plain _ _ rfl) (.goto s phase alive outside resting)

theorem run_drainStep (σ : World) (s : SessionPtr) (alive : σ.live s = true)
    (drain : (σ.session s).phase = .drain)
    (close : σ.drainCloses env s = true → ∀ c, σ.control.SameIndex c → guard c (.close s)) :
    Run env guard σ.control (σ.drainStep env s).control := by
  unfold World.drainCloses at close
  unfold World.drainStep
  cases hextract : (σ.session s).msgBufMgr.extractMessage env.host with
  | mk opt mgr =>
    have htaken : (σ.modify s fun o => { o with msgBufMgr := mgr }).control = σ.control :=
      control_modify_same σ s rfl
    rw [hextract] at close
    cases opt with
    | some packet =>
      have hstep : Step env σ.control (.receive s packet) _ := .receive s packet drain
      have hreceive := Run.one (plain _ _ rfl) hstep
      obtain ⟨σ₁, hσ₁, h⟩ :=
        control_enter (σ.modify s fun o => { o with msgBufMgr := mgr }) s env packet
      rw [htaken] at hσ₁
      rw [← hσ₁] at hreceive
      rcases h with h | ⟨hroute, h⟩
      · dsimp only
        rw [h]
        exact hreceive
      · dsimp only
        rw [h]
        rw [World.modify_session_self] at hroute
        refine hreceive.trans (run_closeSession σ₁ s (close hroute _ ?_))
        rw [hσ₁]
        exact fun _ => rfl
    | none =>
      have outside : ((σ.modify s fun o => { o with msgBufMgr := mgr }).session s).phase.pending =
        none := by
        rw [World.modify_session_self, drain]
        rfl
      have alive : (σ.modify s fun o => { o with msgBufMgr := mgr }).live s = true := alive
      have hsame : ∀ phase : Phase, σ.control.SameIndex
          ((σ.modify s fun o => { o with msgBufMgr := mgr }).setPhase s phase).control := fun _ _ => rfl
      simp only [Bool.or_eq_true] at close
      rw [← htaken]
      dsimp only
      split
      · rename_i hinvalid
        exact (run_setPhase plain _ s alive outside rfl).trans
          (run_closeSession _ s (close (Or.inl hinvalid) _ (hsame .idle)))
      · refine (run_setPhase plain _ s alive outside rfl).trans
          (run_doRead _ s env.config fun hfull => ?_)
        refine close (Or.inr ?_) _ (hsame .next)
        rwa [World.setPhase, World.modify_modify, World.modify_session_self] at hfull

theorem run_readError (σ : World) (s : SessionPtr) (aborted : Bool) (alive : σ.live s = true)
    (outside : (σ.session s).phase.pending = none)
    (close : aborted = false → ∀ c, σ.control.SameIndex c → guard c (.close s)) :
    Run env guard σ.control (σ.readError s aborted).control := by
  have hnext : Run env guard σ.control (σ.control.modify s (.goto .next)) :=
    .one (plain _ _ rfl) (.goto s .next alive outside rfl)
  have hread : (σ.modify s fun o =>
      { o with asyncReads := o.asyncReads - 1, readPending := false, phase := .next }).control =
        σ.control.modify s (.goto .next) := control_modify σ s rfl
  rw [← hread] at hnext
  unfold World.readError
  dsimp only
  split
  · exact hnext
  · rename_i haborted
    exact hnext.trans (run_closeSession _ s (close (Bool.eq_false_iff.mpr haborted) _ fun _ => rfl))

theorem run_registerStep (σ : World) (s : SessionPtr) (nickname : String)
    (at_ : (σ.session s).phase = .loginRegister nickname)
    (index : σ.previousOwner s nickname = none → guard σ.control (.index s nickname)) :
    Run env guard σ.control (σ.registerStep s nickname).control := by
  unfold World.registerStep
  split
  · rename_i prev hprev
    obtain ⟨hfind, hother⟩ := Option.filter_eq_some_iff.mp hprev
    have hevict : Step env σ.control (.evict s nickname prev)
        (σ.control.modify s (.goto (.loginEvict nickname prev))) :=
      .evict s nickname prev at_ ((control_find σ nickname).trans hfind) (by simpa using hother)
    have hcontrol : ((σ.dispatch prev (.write World.loggedInElsewhere)).setPhase s
        (.loginEvict nickname prev)).control =
          σ.control.modify s (.goto (.loginEvict nickname prev)) := by
      rw [control_setPhase, control_dispatch]
    exact hcontrol ▸ .one (plain _ _ rfl) hevict
  · rename_i hnone
    have hstep : Step env σ.control (.index s nickname) _ := .index s nickname (Or.inl at_)
    have hindex := Run.one (index hnone) hstep
    rw [← control_indexNickname] at hindex
    exact hindex

end Plain

section Steps
variable {env : Env} {guard : Control → Op → Prop} {σ σ' : World} {s : SessionPtr}

theorem outside_of_strandFree {o : SessionControl} (h : o.strandFree = true) :
    o.phase.pending = none := by
  unfold SessionControl.strandFree at h
  cases hp : o.phase <;> simp_all [Phase.pending]

theorem run_answer {a : Act} (watch : Watch env guard σ a) (posts : σ.posts a = some s)
    (text : Bytes) {f : Session → Session} {g : SessionControl → SessionControl}
    (hf : ∀ o : Session, (f o).toSessionControl = g o.toSessionControl)
    (hw : ∀ o : Session, (f o).toSessionWriter = o.toSessionWriter)
    (hclosed : ∀ o, (g o).closed = o.closed) (hg : ∀ o, g o.flag = (g o).flag)
    (moves : ∀ c : Control, c.live = σ.live → (c.session s).phase = (σ.session s).phase →
      Run env guard c (c.modify s g)) :
    Run env guard σ.control ((σ.modify s f).postWrite s env.config text).control := by
  have hmoved : (σ.modify s f).control = σ.control.modify s g := control_modify σ s (hf _)
  have hmove : Run env guard σ.control (σ.modify s f).control := hmoved ▸ moves _ rfl rfl
  rcases control_postWrite (σ.modify s f) s env.config text with h | ⟨hopen, hlimit, h⟩
  · rw [h]
    exact hmove
  · rw [World.modify_session_self] at hopen hlimit
    have hopen : (σ.session s).closed = false := by
      rw [← hopen, congrArg SessionControl.closed (hf (σ.session s)), hclosed]
    have hlimit : WriteQueue.AtLimit env.config (σ.session s) := by
      unfold WriteQueue.AtLimit at hlimit ⊢
      rwa [hw] at hlimit
    have hflag : Run env guard σ.control (σ.control.modify s .flag) :=
      .one (watch.flag s posts hopen hlimit) (.flag s)
    have hmove : Run env guard (σ.control.modify s .flag) ((σ.control.modify s .flag).modify s g) :=
      moves _ rfl (by rw [Control.modify_session_self]; rfl)
    rw [h, hmoved, Control.modify_modify]
    rw [Control.modify_modify] at hmove
    simp only [hg] at hmove
    exact hflag.trans hmove

theorem run_advance (watch : Watch env guard σ (.on s .advance)) (alive : σ.live s = true)
    (h : Advanced env σ s σ') : Run env guard σ.control σ'.control := by
  have plain := watch.plain
  cases h with
  | drain at_ =>
    refine run_drainStep plain σ s alive at_ fun hcloses => watch.close s (Or.inl ?_)
    simp only [World.closes, if_pos (And.intro at_ hcloses)]
  | reply text at_ =>
    refine run_answer watch (by simp only [World.posts, at_]) text (g := .goto .drain)
      (fun _ => rfl) (fun _ => rfl) (fun _ => rfl) (fun _ => rfl) fun c hlive hc => ?_
    exact .one (plain _ _ rfl) (.goto s .drain (hlive ▸ alive) (by rw [hc, at_]; rfl) rfl)
  | lookup nickname at_ =>
    unfold World.lookupStep
    cases hfind : σ.findSessionByNickname nickname with
    | some r => exact run_setPhase plain σ s alive (by rw [at_]; rfl) rfl
    | none =>
      have hlookup : Step env σ.control (.lookup s nickname)
          (σ.control.modify s (.goto (.loginSet nickname))) :=
        .lookup s nickname at_ ((control_find σ nickname).trans hfind)
      rw [← control_setPhase] at hlookup
      exact .one (watch.lookup s nickname (by simp [World.grants, at_, hfind])) hlookup
  | name nickname at_ =>
    have hname : ((σ.setNickname s nickname).setPhase s (.loginReady nickname)).control =
        σ.control.modify s (.name nickname) := by
      rw [World.setPhase, World.setNickname, World.modify_modify]
      exact control_modify σ s rfl
    exact hname ▸ .one (plain _ _ rfl) (.name s nickname at_)
  | ready nickname at_ =>
    have hready : ((σ.onNicknameRegistered s).setPhase s (.loginRegister nickname)).control =
        σ.control.modify s (.ready nickname) := by
      rw [World.setPhase, World.onNicknameRegistered, World.modify_modify]
      exact control_modify σ s rfl
    exact hready ▸ .one (watch.ready s nickname (by simp [World.registers, at_])) (.ready s nickname at_)
  | register nickname at_ =>
    refine run_registerStep plain σ s nickname at_ fun hnone => watch.index s nickname ?_ _ (Or.inl rfl)
    simp only [World.indexes, at_, hnone, Option.isSome_none, Bool.false_eq_true, if_false]
  | evict nickname prev at_ =>
    have hevicts : σ.evicts (.on s .advance) = some prev := by simp only [World.evicts, at_]
    have hindexes : σ.indexes (.on s .advance) = some (s, nickname) := by simp only [World.indexes, at_]
    exact run_evictStep σ s nickname prev at_ (watch.close prev (Or.inr hevicts) _ fun _ => rfl)
      (watch.index s nickname hindexes _ (Or.inr ⟨prev, hevicts, rfl⟩))
  | ack nickname at_ =>
    rw [World.ackLogin, World.setPhase, World.modify_modify]
    refine run_answer watch (by simp only [World.posts, at_]) _ (g := .ack nickname)
      (fun _ => rfl) (fun _ => rfl) (fun _ => rfl) (fun _ => rfl) fun c _ hc => ?_
    exact .one (plain _ _ rfl) (.ack s nickname (hc.trans at_))
  | next at_ =>
    rw [show ((σ.setPhase s .idle).modify s Session.runNextTask).control =
      (σ.setPhase s .idle).control from
      control_modify_same _ s (runNextTask_control _)]
    exact run_setPhase plain σ s alive (by rw [at_]; rfl) rfl

theorem run_event {e : Event} (watch : Watch env guard σ (.on s e)) (alive : σ.live s = true)
    (h : Happened env σ s e σ') : Run env guard σ.control σ'.control := by
  have plain := watch.plain
  cases h with
  | start at_ =>
    rw [control_start]
    exact run_setPhase plain σ s alive (by rw [at_]; rfl) rfl
  | strand closure rest queue _ =>
    cases closure with
    | write text =>
      refine run_answer watch (by simp only [World.posts, queue]) text (g := fun o => o)
        (fun _ => rfl) (fun _ => rfl) (fun _ => rfl) (fun _ => rfl) fun c _ _ => ?_
      exact .refl_of_eq (Control.modify_eq_self _ _ _ rfl)
    | task fn =>
      have htaken : (σ.modify s fun o => { o with strand := rest }).control = σ.control :=
        control_modify_same σ s rfl
      rw [← htaken]
      refine run_postTask _ s env.config fn fun hfull => ?_
      rw [World.modify_session_self] at hfull
      rw [htaken]
      exact watch.close s (Or.inl (by simp only [World.closes, queue, if_pos hfull])) _ fun _ => rfl
  | readData data hfree =>
    have hdrain : (σ.readData s data).control = σ.control.modify s (.goto .drain) :=
      control_modify σ s rfl
    exact hdrain ▸ .one (plain _ _ rfl) (.goto s .drain alive (outside_of_strandFree hfree) rfl)
  | readError aborted hfree =>
    refine run_readError plain σ s aborted alive (outside_of_strandFree hfree) fun haborted => ?_
    exact watch.close s (Or.inl (by simp only [World.closes, haborted, Bool.false_eq_true, if_false]))
  | advance advanced => exact run_advance watch alive advanced
  | postWrite text =>
    rw [control_dispatch]
    exact .refl_of_eq rfl
  | writeDone k w ec pending =>
    refine run_onWrite σ s k w ec fun hec hgeneration => ?_
    have hcloses : σ.closes env (.on s (.writeDone k ec)) = some s := by
      simp only [World.closes, pending, if_pos (And.intro hec hgeneration)]
    exact watch.close s (Or.inl hcloses) _ fun _ => rfl
  | sweep =>
    exact run_closeSession { σ with toClose := σ.toClose.erase s } s
      (watch.close s (Or.inl rfl) _ fun _ => rfl)
  | destroy unowned =>
    refine .one (watch.destroy s rfl) (.destroy s ?_)
    by_contra hp
    have hbusy : (σ.session s).phase ≠ .idle := hp
    simp [World.owned, Session.busy, hbusy] at unowned

/-- Every step of the machine is a few operations of the control. -/
theorem run_watched {a : Act} (watch : Watch env guard σ a) (h : step env σ a = some σ') :
    Run env guard σ.control σ'.control := by
  rcases step_cases h with ⟨now, rfl, rfl⟩ | ⟨collected, _, rfl⟩ | ⟨s, e, rfl, alive, happened⟩
  · exact run_accept σ now (watch.accept now rfl) fun r hfound => watch.close r (Or.inl hfound)
  · exact .refl_of_eq rfl
  · exact run_event watch alive happened

theorem run_step {a : Act} (checks : Checks env guard σ a) (h : step env σ a = some σ') :
    Run env guard σ.control σ'.control := run_watched checks.watch h

end Steps

/-- What the guarded operations of the control preserve, a watched step of the machine does. -/
theorem watched_preserved {env : Env} {guard : Control → Op → Prop} {I : Control → Prop}
    (preserved : ∀ op c c', guard c op → Step env c op c' → I c → I c') {σ σ' : World} {a : Act}
    (watch : Watch env guard σ a) (hs : step env σ a = some σ') (h : I σ.control) : I σ'.control :=
  star_invariant (fun c c' hc hcc => hcc.elim fun op hop => preserved op c c' hop.1 hop.2 hc)
    (run_watched watch hs) h

theorem control_preserved {env : Env} {I : Control → Prop}
    (preserved : ∀ op c c', Step env c op c' → I c → I c') {σ σ' : World} {a : Act}
    (hs : step env σ a = some σ') (h : I σ.control) : I σ'.control :=
  watched_preserved (fun op c c' _ => preserved op c c') (checks_nothing env σ a).watch hs h

theorem nextPtr_le_of_step {env : Env} {σ σ' : World} {a : Act} (h : step env σ a = some σ') :
    σ.nextPtr ≤ σ'.nextPtr :=
  control_preserved (I := fun c => σ.nextPtr ≤ c.nextPtr)
    (fun _ _ _ hop hc => Nat.le_trans hc hop.nextPtr_le) h (Nat.le_refl _)

theorem nextPtr_exec {env : Env} {σ σ' : World} {more : List Act}
    (run : exec (step env) σ more = some σ') :
    σ.nextPtr ≤ σ'.nextPtr :=
  invariant (I := fun τ => σ.nextPtr ≤ τ.nextPtr)
    (fun _ _ _ h hs => Nat.le_trans h (nextPtr_le_of_step hs)) (Nat.le_refl _) run

theorem known_of_step {env : Env} {σ σ' : World} {a : Act} (h : step env σ a = some σ')
    (known : Known σ.control) : Known σ'.control :=
  control_preserved (fun _ _ _ hop hc => hc.step hop) h known

theorem known_init (shardCount : Nat) : Known (World.init shardCount).control where
  live t h := by simp [World.control, World.init] at h
  begun t h := absurd rfl h
  owner n t h := by simp [World.control, World.init, SessionManager.owner] at h

theorem known_of_run {env : Env} {shardCount : Nat} {acts : List Act} {σ : World}
    (run : exec (step env) (World.init shardCount) acts = some σ) : Known σ.control :=
  invariant (I := fun σ => Known σ.control) (fun _ _ _ h hs => known_of_step hs h)
    (known_init shardCount) run

end DBMiddleWare
