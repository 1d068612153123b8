import DBMiddleWare.Machine

/-!
# A handler that is not interrupted

The machine cuts the handling of a packet into steps. When no other action comes between
them, and nobody holds the nickname mutex, they amount to the body of the drain loop.
-/

namespace DBMiddleWare

open Execution
set_option autoImplicit false

section Phases
variable (σ : World) (s : SessionPtr) (phase phase' : Phase)

@[simp] theorem setPhase_setPhase : (σ.setPhase s phase).setPhase s phase' = σ.setPhase s phase' :=
  World.modify_modify ..

theorem setPhase_eq_self (h : (σ.session s).phase = phase) : σ.setPhase s phase = σ := by
  rw [← h]
  exact congrArg (fun session => { σ with session := session }) (Function.update_eq_self s σ.session)

@[simp] theorem setPhase_phase : ((σ.setPhase s phase).session s).phase = phase :=
  congrArg (fun o : Session => o.phase) (World.modify_session_self ..)

@[simp] theorem setPhase_previousOwner (t : SessionPtr) (nickname : String) :
    (σ.setPhase s phase).previousOwner t nickname = σ.previousOwner t nickname := rfl

theorem setNickname_setPhase (nickname : String) :
    ((σ.setPhase s phase).setNickname s nickname).setPhase s phase' =
      (σ.setNickname s nickname).setPhase s phase' := by
  simp only [World.setNickname, World.setPhase, World.modify_modify]

theorem onNicknameRegistered_setPhase :
    ((σ.setPhase s phase).onNicknameRegistered s).setPhase s phase' =
      (σ.onNicknameRegistered s).setPhase s phase' := by
  simp only [World.onNicknameRegistered, World.setPhase, World.modify_modify]

theorem indexNickname_setPhase (nickname : String) :
    ((σ.setPhase s phase).indexNickname s nickname).setPhase s phase' =
      (σ.indexNickname s nickname).setPhase s phase' := by
  simp only [World.indexNickname, World.setPhase, World.modify, Function.update_self,
    Function.update_idem]

end Phases

/-- Steps of the handler of a session lead from one state to the other. -/
def Advances (env : Env) (s : SessionPtr) (σ σ' : World) : Prop :=
  ∃ n, exec (step env) σ (List.replicate n (.on s .advance)) = some σ'

section Advances
variable {env : Env} {s : SessionPtr} {σ σ' τ : World}

theorem Advances.refl (env : Env) (s : SessionPtr) (σ : World) : Advances env s σ σ := ⟨0, rfl⟩

theorem Advances.cons (alive : σ.live s = true) (h : σ.advance env s = some τ)
    (rest : Advances env s τ σ') : Advances env s σ σ' := by
  obtain ⟨n, run⟩ := rest
  refine ⟨n + 1, exec_cons_eq_some.mpr ⟨τ, ?_, run⟩⟩
  rw [step, if_pos alive]
  exact h

theorem Advances.trans (h : Advances env s σ τ) (h' : Advances env s τ σ') : Advances env s σ σ' := by
  obtain ⟨n, run⟩ := h
  obtain ⟨m, run'⟩ := h'
  exact ⟨n + m, by rw [List.replicate_add]; exact exec_append_eq_some.mpr ⟨τ, run, run'⟩⟩

/-- A session about to post an answer posts it and goes back to the loop. -/
theorem advances_reply (alive : σ.live s = true) (at_ : (σ.session s).phase = .drain) (text : Bytes) :
    Advances env s (σ.setPhase s (.reply text)) (σ.postWrite s env.config text) := by
  refine .cons (τ := σ.postWrite s env.config text) alive ?_ (.refl env s _)
  rw [World.advance, setPhase_phase]
  simp only [setPhase_setPhase, setPhase_eq_self σ s .drain at_]

theorem advances_login (alive : σ.live s = true) (free : σ.nicknameMutex = none)
    (at_ : (σ.session s).phase = .drain) {nickname : String}
    (hfind : σ.findSessionByNickname nickname = none) :
    Advances env s (σ.setPhase s (.loginSet nickname))
      ((((σ.setNickname s nickname).onNicknameRegistered s).registerNickname s nickname).ackLogin env s
        nickname) := by
  have hprevious : ((σ.setNickname s nickname).onNicknameRegistered s).previousOwner s nickname = none :=
    congrArg (Option.filter _) hfind
  have hdrain : ((((σ.setNickname s nickname).onNicknameRegistered s).indexNickname s nickname).session
      s).phase = .drain := by
    simp only [World.indexNickname_session, World.onNicknameRegistered, World.setNickname,
      World.modify_session_self]
    exact at_
  have hset : (σ.setPhase s (.loginSet nickname)).advance env s =
      some ((σ.setNickname s nickname).setPhase s (.loginReady nickname)) := by
    rw [World.advance, setPhase_phase]
    exact congrArg some (setNickname_setPhase ..)
  have hready : ((σ.setNickname s nickname).setPhase s (.loginReady nickname)).advance env s =
      some (((σ.setNickname s nickname).onNicknameRegistered s).setPhase s
        (.loginRegister nickname)) := by
    rw [World.advance, setPhase_phase]
    exact congrArg some (onNicknameRegistered_setPhase ..)
  have hregister : (((σ.setNickname s nickname).onNicknameRegistered s).setPhase s
      (.loginRegister nickname)).advance env s =
      some ((((σ.setNickname s nickname).onNicknameRegistered s).indexNickname s nickname).setPhase s
        (.loginAck nickname)) := by
    rw [World.advance, setPhase_phase]
    refine (if_pos free).trans (congrArg some ?_)
    rw [World.registerStep, setPhase_previousOwner, hprevious]
    exact indexNickname_setPhase ..
  have hack : ((((σ.setNickname s nickname).onNicknameRegistered s).indexNickname s nickname).setPhase s
      (.loginAck nickname)).advance env s =
      some ((((σ.setNickname s nickname).onNicknameRegistered s).indexNickname s nickname).ackLogin env s
        nickname) := by
    rw [World.advance, setPhase_phase]
    simp only [setPhase_setPhase, setPhase_eq_self _ s .drain hdrain]
  have hindex : ((σ.setNickname s nickname).onNicknameRegistered s).registerNickname s nickname =
      ((σ.setNickname s nickname).onNicknameRegistered s).indexNickname s nickname := by
    rw [World.registerNickname, hprevious]
  rw [hindex]
  exact .cons alive hset (.cons alive hready (.cons alive hregister (.cons alive hack (.refl env s _))))

theorem advances_loginHandler (alive : σ.live s = true) (free : σ.nicknameMutex = none)
    (at_ : (σ.session s).phase = .drain) (msg : Json) :
    Advances env s (σ.setPhase s (Route.phase env (.handler .login msg)))
      (World.settle env s (σ.login env s msg)) := by
  cases hvalue : msg.value "nickname" "" with
  | error e =>
    simp only [World.login, Route.phase, hvalue]
    exact advances_reply alive at_ parsingFailed
  | ok nickname =>
    by_cases hempty : nickname = ""
    · simp only [World.login, Route.phase, hvalue, if_pos hempty]
      exact advances_reply alive at_ nicknameRequired
    · simp only [World.login, Route.phase, hvalue, if_neg hempty]
      have hlookup : (σ.setPhase s (.loginLookup nickname)).advance env s =
          some (if (σ.findSessionByNickname nickname).isSome then σ.setPhase s (.reply nicknameInUse)
            else σ.setPhase s (.loginSet nickname)) := by
        rw [World.advance, setPhase_phase]
        refine (if_pos free).trans (congrArg some ?_)
        rw [World.lookupStep, setPhase_setPhase, setPhase_setPhase]
        rfl
      refine .cons alive hlookup ?_
      cases hfind : σ.findSessionByNickname nickname with
      | none => exact advances_login alive free at_ hfind
      | some owner => exact advances_reply alive at_ nicknameInUse

/-- `dispatch` and the catch block, whatever was decided about the packet. -/
theorem advances_enter (alive : σ.live s = true) (free : σ.nicknameMutex = none)
    (at_ : (σ.session s).phase = .drain) (r : Route) :
    Advances env s (σ.enter env s r) (World.settle env s (σ.follow env s r)) := by
  have hquiet : ∀ phase, (σ.modify s fun o => { o with handled := o.handled ++ [], phase := phase }) =
      σ.setPhase s phase := by
    intro phase
    simp only [List.append_nil]
    rfl
  cases r with
  | close =>
    have henter : σ.enter env s .close = σ.closeSession s :=
      congrArg (World.closeSession · s) ((hquiet .drain).trans (setPhase_eq_self σ s .drain at_))
    rw [henter]
    exact .refl env s _
  | raise e =>
    rw [show σ.enter env s (.raise e) = σ.setPhase s (.reply parsingFailed) from hquiet _]
    exact advances_reply alive at_ parsingFailed
  | unknown =>
    rw [show σ.enter env s .unknown = σ.setPhase s (.reply unknownType) from hquiet _]
    exact advances_reply alive at_ unknownType
  | handler h msg =>
    have henter : σ.enter env s (.handler h msg) =
        (σ.noteHandler s h).setPhase s (Route.phase env (.handler h msg)) := by
      rw [World.noteHandler, World.setPhase, World.modify_modify]
      rfl
    have hat : ((σ.noteHandler s h).session s).phase = .drain := by
      rw [World.noteHandler, World.modify_session_self]
      exact at_
    rw [henter]
    cases h with
    | login => exact advances_loginHandler (σ := σ.noteHandler s .login) alive free hat msg
    | insert =>
      rw [World.follow, World.callHandler, World.insert, Route.phase]
      cases insertQuery env msg with
      | error e => exact advances_reply (σ := σ.noteHandler s .insert) alive hat parsingFailed
      | ok query => exact advances_reply (σ := σ.noteHandler s .insert) alive hat insertOk

end Advances

/-- The handler of a session, left alone, does with the next packet what the body of the
drain loop does. -/
theorem advances_handlePacket {env : Env} {σ : World} {s : SessionPtr} {packet : Bytes}
    {mgr : MessageBufferManager} (alive : σ.live s = true) (free : σ.nicknameMutex = none)
    (at_ : (σ.session s).phase = .drain)
    (extract : (σ.session s).msgBufMgr.extractMessage env.host = (some packet, mgr)) :
    Advances env s σ ((σ.modify s fun o => { o with msgBufMgr := mgr }).handlePacket env s packet) := by
  have hdrain : σ.drainStep env s =
      ((σ.modify s fun o => { o with msgBufMgr := mgr }).noteReceived s packet).enter env s
        (route env (σ.session s).nicknameRegistered packet) := by
    simp only [World.drainStep, extract, World.noteReceived, World.modify_session_self]
  have hstep : σ.advance env s = some (σ.drainStep env s) := by
    rw [World.advance, at_]
  have hat : (((σ.modify s fun o => { o with msgBufMgr := mgr }).noteReceived s packet).session
      s).phase = .drain := by
    simp only [World.noteReceived, World.modify_session_self]
    exact at_
  refine .cons alive hstep ?_
  rw [hdrain, handlePacket_eq_settle, World.modify_session_self]
  exact advances_enter (σ := (σ.modify s fun o => { o with msgBufMgr := mgr }).noteReceived s packet)
    alive
    free hat _

end DBMiddleWare
