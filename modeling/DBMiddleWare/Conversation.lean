import DBMiddleWare.Outgoing
import DBMiddleWare.ReadStream

/-!
# The conversation of a client with the server

What a session is for, without buffers, strands and other sessions: it answers one packet
after the other, each as the dispatcher answers it before or after the login. The server
refines this for each of its clients, as far as the frames of the client have been read and
those of the answers have arrived.
-/

namespace DBMiddleWare

open Execution WriteQueue
set_option autoImplicit false

/-- The texts that may still be posted from here for the packet. -/
def Phase.mayAnswer : Phase → Bytes → Prop
  | .reply text, answer => answer = text
  | .loginLookup _, answer => answer = nicknameInUse ∨ answer = loginOk
  | .loginSet _, answer => answer = loginOk
  | .loginReady _, answer => answer = loginOk
  | .loginRegister _, answer => answer = loginOk
  | .loginEvict _ _, answer => answer = loginOk
  | .loginAck _, answer => answer = loginOk
  | _, _ => False

/-- An answer of the dispatcher to a packet, of a session that is logged in or is not. Whether a
nickname is in use depends on the other sessions. -/
def Fits (env : Env) (registered : Bool) (packet : Bytes) : PacketAnswer → Prop
  | .closed => route env registered packet = .close
  | .posted msg => ((route env registered packet).phase env).mayAnswer msg.text

def PacketAnswer.grants : PacketAnswer → Bool
  | .posted msg => msg.text = loginOk
  | .closed => false

def loggedIn (answers : List (Bytes × PacketAnswer)) : Bool := answers.any fun x => x.2.grants

/-- Each packet has an answer that fits what was answered before. -/
inductive Protocol (env : Env) : List (Bytes × PacketAnswer) → Prop where
  | nil : Protocol env []
  | snoc {answers : List (Bytes × PacketAnswer)} {packet : Bytes} {answer : PacketAnswer}
      (before : Protocol env answers) (fits : Fits env (loggedIn answers) packet answer) :
      Protocol env (answers ++ [(packet, answer)])

theorem loggedIn_concat (answers : List (Bytes × PacketAnswer)) (packet : Bytes)
    (answer : PacketAnswer) :
    loggedIn (answers ++ [(packet, answer)]) = (loggedIn answers || answer.grants) := by
  simp [loggedIn]

/-- The login has set the flag and not answered yet. -/
def Phase.granting : Phase → Bool
  | .loginRegister _ => true
  | .loginEvict _ _ => true
  | .loginAck _ => true
  | _ => false

theorem Route.phase_plain {env : Env} {r : Route} {text : Bytes} (h : r.phase env = .reply text) :
    text ≠ loginOk := by
  unfold Route.phase at h
  split at h
  · cases h
  · cases h
    decide
  · cases h
    decide
  · split at h
    · cases h
      decide
    · split at h
      · cases h
        decide
      · cases h
  · split at h
    · cases h
      decide
    · cases h
      decide

theorem Route.not_granting (env : Env) (r : Route) : (r.phase env).granting = false := by
  unfold Route.phase
  split
  · rfl
  · rfl
  · rfl
  · split
    · rfl
    · split <;> rfl
  · split <;> rfl

/-- What a step of the handler does for a packet, in terms of the protocol. -/
inductive ProtocolMove (env : Env) (o o' : Session) : Prop where
  | takes (packet : Bytes) (at_ : o.phase = .drain)
      (account : o'.account = (o.received ++ [packet], o.posted, o.closeCalls))
      (phase : o'.phase = (route env o.nicknameRegistered packet).phase env)
        (working : o'.phase.answering = true)
      (registered : o'.nicknameRegistered = o.nicknameRegistered)
  | refuses (packet : Bytes) (at_ : o.phase = .drain)
      (account : o'.account = (o.received ++ [packet], o.posted, o.closeCalls + 1))
        (done : o'.phase = .drain)
      (refused : route env o.nicknameRegistered packet = .close)
      (registered : o'.nicknameRegistered = o.nicknameRegistered)
  | works (at_ : o.phase.answering = true) (account : o'.account = o.account)
    (working : o'.phase.answering = true)
      (fewer : ∀ text, o'.phase.mayAnswer text → o.phase.mayAnswer text)
      (plain : ∀ text, o'.phase = .reply text → text ≠ loginOk)
      (registered : o'.nicknameRegistered = o.nicknameRegistered ∧ o'.phase.granting = o.phase.granting ∨
        o'.nicknameRegistered = true ∧ o'.phase.granting = true)
  | answers (msg : Message) (at_ : o.phase.answering = true)
      (account : o'.account = (o.received, o.posted ++ [msg], o.closeCalls)) (done : o'.phase = .drain)
      (spoken : o.phase = .reply msg.text ∨ o.phase.granting = true ∧ msg.text = loginOk)
      (registered : o'.nicknameRegistered = o.nicknameRegistered)

section Step
variable {env : Env} {σ σ' : World} {t : SessionPtr} {o o' : Session}

theorem PacketStep.account_of_working (h : PacketStep o o') (at_ : o.phase.answering = true)
    (working : o'.phase.answering = true) : o'.account = o.account := by
  cases h with
  | takes packet drain => simp [drain, Phase.answering] at at_
  | refuses packet drain => simp [drain, Phase.answering] at at_
  | works _ _ account => exact account
  | answers msg _ done => simp [done, Phase.answering] at working

theorem PacketStep.account_of_done (h : PacketStep o o') (at_ : o.phase.answering = true)
    (done : o'.phase = .drain) : ∃ msg, o'.account = (o.received, o.posted ++ [msg], o.closeCalls) := by
  cases h with
  | takes packet drain => simp [drain, Phase.answering] at at_
  | refuses packet drain => simp [drain, Phase.answering] at at_
  | works _ working _ => simp [done, Phase.answering] at working
  | answers msg _ _ account => exact ⟨msg, account⟩

theorem drainStep_registered {packet : Bytes} {mgr : MessageBufferManager}
    (extract : (σ.session t).msgBufMgr.extractMessage env.host = (some packet, mgr)) :
    ((σ.drainStep env t).session t).nicknameRegistered = (σ.session t).nicknameRegistered := by
  simp only [World.drainStep, extract]
  generalize route env _ packet = r
  have hentered : ((((σ.modify t fun o => { o with msgBufMgr := mgr }).noteReceived t packet).modify
      t fun o => { o with handled := o.handled ++ r.handler?.toList, phase := r.phase env }).session
      t).nicknameRegistered = (σ.session t).nicknameRegistered := by
    rw [World.noteReceived, World.modify_modify, World.modify_modify, World.modify_session_self]
  unfold World.enter
  dsimp only
  split
  · exact (World.closeSession_view _ t t (fun o => o.nicknameRegistered)
      fun o => o.toSessionControl.shut_registered).trans hentered
  · exact hentered

/-- The handler takes a packet and decides about it. -/
theorem drain_protocolMove (at_ : (σ.session t).phase = .drain)
    (processing : (σ.session t).processing env.host = true) :
    ProtocolMove env (σ.session t) ((σ.drainStep env t).session t) := by
  rw [Session.processing, if_pos at_] at processing
  obtain ⟨packet, hpacket⟩ := Option.isSome_iff_exists.mp processing
  have extract : (σ.session t).msgBufMgr.extractMessage env.host =
      (some packet, ((σ.session t).msgBufMgr.extractMessage env.host).2) := Prod.ext hpacket rfl
  have hregistered := drainStep_registered extract
  have hloop : ((σ.drainStep env t).session t).phase =
      (route env (σ.session t).nicknameRegistered packet).phase env ∧
      ((σ.drainStep env t).session t).received = (σ.session t).received ++ [packet] := by
    have hmove : LoopMove env t (.on t .advance) (σ.session t) ((σ.drainStep env t).session t) :=
      drainStep_move at_
    cases hmove with
    | keep other => exact absurd at_ (other rfl)
    | read data act => cases act
    | take packet' mgr _ _ extract' loop =>
      rw [extract'] at hpacket
      obtain rfl := Option.some.inj hpacket
      obtain ⟨hphase, _, hreceived, _⟩ := loop_eq_iff.mp loop
      exact ⟨hphase, hreceived⟩
    | leave mgr _ _ extract' =>
      rw [extract'] at hpacket
      cases hpacket
  have hsame : ∀ packet', ((σ.drainStep env t).session t).received = (σ.session t).received ++
      [packet'] → packet' = packet := by
    intro packet' h
    rw [hloop.2] at h
    simpa using h.symm
  cases drainStep_packetStep at_ extract with
  | takes packet' _ working account =>
    obtain rfl := hsame packet' (Session.account_eq_iff.mp account).1
    exact .takes packet' at_ account hloop.1 working hregistered
  | refuses packet' _ done account =>
    obtain rfl := hsame packet' (Session.account_eq_iff.mp account).1
    refine .refuses packet' at_ account done ?_ hregistered
    rcases Route.phase_answering env
      (route env (σ.session t).nicknameRegistered packet') with hclose | hanswering
    · exact hclose
    · rw [← hloop.1, done] at hanswering
      cases hanswering
  | works working => simp [at_, Phase.answering] at working
  | answers msg working => simp [at_, Phase.answering] at working

theorem indexNickname_registered (σ : World) (t : SessionPtr) (nickname : String) :
    ((σ.indexNickname t nickname).session t).nicknameRegistered = (σ.session t).nicknameRegistered :=
  World.indexNickname_view σ t t nickname (fun o => o.nicknameRegistered) fun _ _ => rfl

theorem setPhase_registered (σ : World) (t : SessionPtr) (phase : Phase) :
    ((σ.setPhase t phase).session t).nicknameRegistered = (σ.session t).nicknameRegistered :=
  World.modify_view σ t t _ (fun o => o.nicknameRegistered) fun _ => rfl

theorem postWrite_registered (σ : World) (t : SessionPtr) (cfg : Config) (text : Bytes) :
    ((σ.postWrite t cfg text).session t).nicknameRegistered = (σ.session t).nicknameRegistered := by
  rw [World.postWrite, World.modify_session_self]
  exact WriteQueue.postWrite_view SessionControl.nicknameRegistered (fun _ => rfl) cfg text (σ.session t)

theorem advance_protocolMove (evicts : EvictsOwner σ) (h : Advanced env σ t σ')
    (processing : (σ.session t).processing env.host = true) :
    ProtocolMove env (σ.session t) (σ'.session t) := by
  have hstep := advance_packetStep evicts h processing
  have hworks : ∀ {phase phase' : Phase}, (σ.session t).phase = phase → (σ'.session t).phase = phase' →
      phase.answering = true → phase'.answering = true →
      (∀ text, phase'.mayAnswer text → phase.mayAnswer text) →
      (∀ text, phase' = .reply text → text ≠ loginOk) →
      ((σ'.session t).nicknameRegistered = (σ.session t).nicknameRegistered ∧
        phase'.granting = phase.granting ∨
        (σ'.session t).nicknameRegistered = true ∧ phase'.granting = true) →
      ProtocolMove env (σ.session t) (σ'.session t) := by
    rintro _ _ rfl rfl at_ working fewer plain registered
    exact .works at_ (hstep.account_of_working at_ working) working fewer plain registered
  have hposted : ∀ {msg : Message} {τ : World} {text : Bytes}, (σ'.session t).account =
      ((σ.session t).received, (σ.session t).posted ++ [msg], (σ.session t).closeCalls) →
      σ' = τ.postWrite t env.config text → msg.text = text := by
    rintro msg τ text account rfl
    have hlast := (Session.account_eq_iff.mp account).2.1
    rw [World.postWrite, World.modify_session_self, WriteQueue.postWrite_posted] at hlast
    rw [← List.singleton_inj.mp (List.append_inj' hlast rfl).2]
    rfl
  cases h with
  | drain at_ => exact drain_protocolMove at_ processing
  | reply text at_ =>
    obtain ⟨msg, account⟩ :=
      hstep.account_of_done (by rw [at_]; rfl) ((postWrite_phase ..).trans (setPhase_phase ..))
    have htext : msg.text = text := hposted account rfl
    refine .answers msg (by rw [at_]; rfl) account ((postWrite_phase ..).trans (setPhase_phase ..))
      (Or.inl (by rw [at_, htext])) ?_
    rw [postWrite_registered, setPhase_registered]
  | lookup nickname at_ =>
    unfold World.lookupStep at hstep hworks ⊢
    split
    · rename_i hfound
      rw [if_pos hfound] at hworks
      refine hworks at_ (setPhase_phase ..) rfl rfl (fun text h => Or.inl h) (fun text h => ?_)
        (Or.inl ⟨?_, rfl⟩)
      · cases h
        decide
      · exact setPhase_registered ..
    · rename_i hfree
      rw [if_neg hfree] at hworks
      refine hworks at_ (setPhase_phase ..) rfl rfl (fun text h => Or.inr h) (fun text h => by cases h)
        (Or.inl ⟨setPhase_registered .., rfl⟩)
  | name nickname at_ =>
    refine hworks at_ (setPhase_phase ..) rfl rfl (fun _ h => h) (fun _ h => by cases h)
      (Or.inl ⟨?_, rfl⟩)
    rw [setPhase_registered, World.setNickname, World.modify_session_self]
  | ready nickname at_ =>
    refine hworks at_ (setPhase_phase ..) rfl rfl (fun _ h => h) (fun _ h => by cases h)
      (Or.inr ⟨?_, rfl⟩)
    rw [setPhase_registered, World.onNicknameRegistered, World.modify_session_self]
  | register nickname at_ =>
    unfold World.registerStep at hstep hworks ⊢
    split
    · rename_i prev hprev
      rw [hprev] at hworks
      have hdispatched :
          ((σ.dispatch prev (.write World.loggedInElsewhere)).session t).nicknameRegistered =
            (σ.session t).nicknameRegistered :=
        World.dispatch_view σ prev t _ (fun o => o.nicknameRegistered) fun _ _ => rfl
      exact hworks at_ (setPhase_phase _ t (.loginEvict nickname prev)) rfl rfl (fun _ h => h)
        (fun _ h => by cases h) (Or.inl ⟨(setPhase_registered _ t _).trans hdispatched, rfl⟩)
    · rename_i hprev
      rw [hprev] at hworks
      exact hworks at_ (setPhase_phase ..) rfl rfl (fun _ h => h) (fun _ h => by cases h)
        (Or.inl ⟨(setPhase_registered _ t _).trans (indexNickname_registered σ t nickname), rfl⟩)
  | evict nickname prev at_ =>
    have hclosed : ((σ.closeSession prev).session t).nicknameRegistered =
        (σ.session t).nicknameRegistered :=
      World.closeSession_view σ prev t (fun o => o.nicknameRegistered)
        fun o => o.toSessionControl.shut_registered
    refine hworks at_ (setPhase_phase ((σ.closeSession prev).indexNickname t nickname) t
      (.loginAck nickname)) rfl rfl
      (fun _ h => h) (fun _ h => by cases h) (Or.inl ⟨?_, rfl⟩)
    exact (setPhase_registered ((σ.closeSession prev).indexNickname t nickname) t _).trans
      ((indexNickname_registered _ t nickname).trans hclosed)
  | ack nickname at_ =>
    have hacked : (((σ.setPhase t .drain).modify t
        fun o => { o with acked := o.acked ++ [nickname] }).session t).phase =
        .drain := by
      rw [World.modify_session_self]
      exact setPhase_phase ..
    obtain ⟨msg, account⟩ := hstep.account_of_done (by rw [at_]; rfl) ((postWrite_phase ..).trans hacked)
    have htext : msg.text = loginOk := hposted account rfl
    refine .answers msg (by rw [at_]; rfl) account ((postWrite_phase ..).trans hacked)
      (Or.inr ⟨by rw [at_]; rfl, htext⟩) ?_
    rw [World.ackLogin, postWrite_registered, World.modify_session_self]
    exact setPhase_registered ..
  | next at_ => simp [Session.processing, at_, Phase.answering] at processing

theorem registered_untouched : Untouched fun o => o.nicknameRegistered where
  shut o := o.toSessionControl.shut_registered
  tasks _ _ _ _ _ _ _ := rfl
  take _ _ := rfl
  done _ _ := congrArg SessionControl.nicknameRegistered (WriteQueue.doWriteQueue_frame _).1

theorem event_registered {e : Event} (h : Happened env σ t e σ')
    (rest : ¬ (e = .advance ∧ (σ.session t).processing env.host = true)) :
    (σ'.session t).nicknameRegistered = (σ.session t).nicknameRegistered := by
  have hmodify : ∀ (τ : World) (f : Session → Session),
      (∀ o, (f o).nicknameRegistered = o.nicknameRegistered) →
      ((τ.modify t f).session t).nicknameRegistered = (τ.session t).nicknameRegistered :=
    fun τ f hf => World.modify_view τ t t f (fun o => o.nicknameRegistered) hf
  cases h with
  | start _ => exact (registered_untouched.start _ t t).trans (setPhase_registered σ t .idle)
  | strand closure queue _ _ =>
    have htaken := hmodify σ (fun o => { o with strand := queue }) fun _ => rfl
    cases closure with
    | write text => exact (postWrite_registered _ t env.config text).trans htaken
    | task fn => exact (registered_untouched.postTask _ t t env.config fn).trans htaken
  | readData data _ => exact hmodify σ _ fun _ => rfl
  | readError aborted _ =>
    have hnext := hmodify σ
      (fun o => { o with asyncReads := o.asyncReads - 1, readPending := false, phase := .next })
        fun _ => rfl
    unfold World.readError
    dsimp only
    split
    · exact hnext
    · exact (registered_untouched.closeSession _ t t).trans hnext
  | advance advanced =>
    have hresting : (σ.session t).processing env.host = false :=
      Bool.eq_false_iff.mpr fun h => rest ⟨rfl, h⟩
    cases advanced with
    | drain at_ =>
      rw [Session.processing, if_pos at_] at hresting
      unfold World.drainStep
      split
      · rename_i packet mgr extract
        rw [extract] at hresting
        cases hresting
      · rename_i mgr _
        have hmgr := hmodify σ (fun o => { o with msgBufMgr := mgr }) fun _ => rfl
        dsimp only
        split
        · exact (registered_untouched.closeSession _ t t).trans ((setPhase_registered _ t _).trans hmgr)
        · exact (registered_untouched.doRead _ t t env.config).trans
            ((setPhase_registered _ t _).trans hmgr)
    | next at_ =>
      exact (hmodify _ _ registered_untouched.runNextTask).trans (setPhase_registered σ t .idle)
    | reply text at_ => simp [Session.processing, at_, Phase.answering] at hresting
    | lookup nickname at_ => simp [Session.processing, at_, Phase.answering] at hresting
    | name nickname at_ => simp [Session.processing, at_, Phase.answering] at hresting
    | ready nickname at_ => simp [Session.processing, at_, Phase.answering] at hresting
    | register nickname at_ => simp [Session.processing, at_, Phase.answering] at hresting
    | evict nickname prev at_ => simp [Session.processing, at_, Phase.answering] at hresting
    | ack nickname at_ => simp [Session.processing, at_, Phase.answering] at hresting
  | postWrite text => exact hmodify σ _ fun _ => rfl
  | writeDone k w ec _ => exact registered_untouched.onWrite σ t t k w ec
  | sweep => exact registered_untouched.closeSession { σ with toClose := σ.toClose.erase t } t t
  | destroy _ => rfl

/-- Only the login of a packet of its own registers a session. -/
theorem step_registered (existing : t < σ.nextPtr) {a : Act} (hs : step env σ a = some σ')
    (rest : ¬ (a = .on t .advance ∧ (σ.session t).processing env.host = true)) :
    (σ'.session t).nicknameRegistered = (σ.session t).nicknameRegistered := by
  by_cases hself : ∃ e, a = .on t e
  · obtain ⟨e, rfl⟩ := hself
    simp only [step, Option.ite_none_right_eq_some] at hs
    exact event_registered (event_cases hs.2) fun hown => rest ⟨by rw [hown.1], hown.2⟩
  · have hseen := (step_seen hs existing fun e he => hself ⟨e, he⟩).1
    generalize σ'.session t = o' at hseen
    cases hseen with
    | same => rfl
    | shut => exact SessionControl.shut_registered _
    | notice text => rfl

end Step

/-- The session has answered all packets but one by the protocol, and its handler is about to give
that one an answer of the protocol. -/
structure Converses (env : Env) (o : Session) (trace : List Effect)
    (answers : List (Bytes × PacketAnswer)) (pending : List Bytes) : Prop where
  trace : trace = conversation answers ++ pending.map .took
  packets : answers.map Prod.fst ++ pending = o.received
  one : pending.length = if o.phase.answering then 1 else 0
  protocol : Protocol env answers
  next : ∀ packet ∈ pending, ∀ text, o.phase.mayAnswer text →
    ((route env (loggedIn answers) packet).phase env).mayAnswer text
  plain : ∀ text, o.phase = .reply text → text ≠ loginOk
  registered : o.nicknameRegistered = (loggedIn answers || o.phase.granting)

section Converses
variable {env : Env} {o o' : Session} {trace : List Effect} {answers : List (Bytes × PacketAnswer)}
  {pending : List Bytes}

theorem Phase.mayAnswer_of_granting {phase : Phase} (h : phase.granting = true) :
    phase.mayAnswer loginOk := by
  cases phase with
  | loginRegister nickname => rfl
  | loginEvict nickname prev => rfl
  | loginAck nickname => rfl
  | _ => cases h

theorem not_granting_of_resting {phase : Phase} (h : phase.answering = false) :
    phase.granting = false := by
  cases phase with
  | loginRegister nickname => cases h
  | loginEvict nickname prev => cases h
  | loginAck nickname => cases h
  | _ => rfl

theorem Converses.nothing_pending (h : Converses env o trace answers pending)
    (idle : o.phase.answering = false) : pending = [] := by
  have hone := h.one
  rw [idle] at hone
  exact List.length_eq_zero_iff.mp hone

theorem Converses.move (h : Converses env o trace answers pending) (move : ProtocolMove env o o') :
    ∃ answers pending, Converses env o' (trace ++ o.effects o') answers pending := by
  cases move with
  | takes packet at_ account phase working registered =>
    obtain ⟨hreceived, _, _⟩ := Session.account_eq_iff.mp account
    obtain rfl := h.nothing_pending (by rw [at_]; rfl)
    have heffects : o.effects o' = [.took packet] := by
      apply Session.effects_of_account [packet] [] 0
      rw [account, List.append_nil, Nat.add_zero]
    have hlogged : o.nicknameRegistered = loggedIn answers := by
      rw [h.registered, not_granting_of_resting (by rw [at_]; rfl), Bool.or_false]
    refine ⟨answers, [packet], ?_, ?_, by rw [working]; rfl, h.protocol, ?_, ?_, ?_⟩
    · rw [h.trace, heffects, List.map_nil, List.append_nil]
      rfl
    · rw [hreceived, ← h.packets, List.append_nil]
    · intro packet' hmem text hmay
      rw [List.mem_singleton.mp hmem, ← hlogged, ← phase]
      exact hmay
    · intro text hreply
      rw [phase] at hreply
      exact Route.phase_plain hreply
    · rw [registered, hlogged, phase, Route.not_granting, Bool.or_false]
  | refuses packet at_ account done refused registered =>
    obtain ⟨hreceived, _, _⟩ := Session.account_eq_iff.mp account
    obtain rfl := h.nothing_pending (by rw [at_]; rfl)
    have heffects : o.effects o' = [.took packet, .gave .closed] := by
      apply Session.effects_of_account [packet] [] 1
      rw [account, List.append_nil]
    have hlogged : o.nicknameRegistered = loggedIn answers := by
      rw [h.registered, not_granting_of_resting (by rw [at_]; rfl), Bool.or_false]
    refine ⟨answers ++ [(packet, .closed)], [], ?_, ?_, by rw [done]; rfl, .snoc h.protocol ?_,
      ?_, ?_, ?_⟩
    · rw [h.trace, heffects, conversation_concat, List.map_nil, List.append_nil, List.append_nil]
    · rw [hreceived, ← h.packets, List.map_append, List.append_nil, List.append_nil]
      rfl
    · rw [Fits, ← hlogged]
      exact refused
    · exact fun _ hmem => absurd hmem List.not_mem_nil
    · rw [done]
      exact fun _ h => by cases h
    · rw [registered, hlogged, loggedIn_concat, done]
      simp [PacketAnswer.grants, Phase.granting]
  | works at_ account working fewer plain registered =>
    obtain ⟨hreceived, hposted, hclosed⟩ := Session.account_eq_iff.mp account
    have heffects : o.effects o' = [] := by
      apply Session.effects_of_account [] [] 0
      rw [account, List.append_nil, List.append_nil]
      rfl
    refine ⟨answers, pending, by rw [heffects, List.append_nil, h.trace], hreceived ▸ h.packets, ?_,
      h.protocol, fun packet hmem text hmay => h.next packet hmem text (fewer text hmay), plain, ?_⟩
    · rw [h.one, at_, working]
    · rcases registered with ⟨hsame, hgranting⟩ | ⟨hset, hgranting⟩
      · rw [hsame, hgranting, h.registered]
      · rw [hset, hgranting, Bool.or_true]
  | answers msg at_ account done spoken registered =>
    obtain ⟨hreceived, _, _⟩ := Session.account_eq_iff.mp account
    have heffects : o.effects o' = [.gave (.posted msg)] := by
      apply Session.effects_of_account [] [msg] 0
      rw [account, List.append_nil, Nat.add_zero]
    obtain ⟨packet, rfl⟩ : ∃ packet, pending = [packet] := by
      have hone := h.one
      rw [at_] at hone
      exact List.length_eq_one_iff.mp hone
    have hmay : o.phase.mayAnswer msg.text := by
      rcases spoken with hreply | ⟨hgranting, htext⟩
      · rw [hreply]
        rfl
      · rw [htext]
        exact Phase.mayAnswer_of_granting hgranting
    have hgrants : o.phase.granting = (PacketAnswer.posted msg).grants := by
      rcases spoken with hreply | ⟨hgranting, htext⟩
      · rw [hreply]
        exact (decide_eq_false (h.plain msg.text hreply)).symm
      · rw [hgranting]
        exact (decide_eq_true htext).symm
    refine ⟨answers ++ [(packet, .posted msg)], [], ?_, ?_, by rw [done]; rfl, .snoc h.protocol ?_,
      ?_, ?_, ?_⟩
    · rw [h.trace, heffects, conversation_concat, List.append_assoc, List.map_nil, List.append_nil]
      rfl
    · rw [hreceived, ← h.packets, List.map_append, List.append_nil]
      rfl
    · exact h.next packet (List.mem_singleton_self packet) msg.text hmay
    · exact fun _ hmem => absurd hmem List.not_mem_nil
    · rw [done]
      exact fun _ h => by cases h
    · have hdone : o'.phase.granting = false := not_granting_of_resting (by rw [done]; rfl)
      rw [registered, h.registered, loggedIn_concat, hgrants, hdone, Bool.or_false]

theorem Converses.rest (h : Converses env o trace answers pending) (received : o'.received = o.received)
    (registered : o'.nicknameRegistered = o.nicknameRegistered)
    (phase : o'.phase = o.phase ∨ o.phase.answering = false ∧ o'.phase.answering = false) :
    Converses env o' trace answers pending := by
  rcases phase with hsame | ⟨hresting, hresting'⟩
  · exact ⟨h.trace, received ▸ h.packets, hsame ▸ h.one, h.protocol, hsame ▸ h.next, hsame ▸ h.plain,
      by rw [registered, hsame, h.registered]⟩
  · obtain rfl := h.nothing_pending hresting
    refine ⟨h.trace, received ▸ h.packets, by rw [hresting']; rfl, h.protocol,
      fun _ hmem => absurd hmem List.not_mem_nil, fun text hreply => ?_, ?_⟩
    · rw [hreply] at hresting'
      cases hresting'
    · rw [registered, h.registered, not_granting_of_resting hresting, not_granting_of_resting hresting']

end Converses

section Run
variable {env : Env} {shardCount : Nat} {acts : List Act} {σ : World} {t : SessionPtr} {bytes : Bytes}

theorem converses_of_run (run : exec (step env) (World.init shardCount) acts = some σ)
    (existing : t < σ.nextPtr) :
    ∃ answers pending,
      Converses env (σ.session t) (handlerEffects env t (World.init shardCount) acts)
        answers pending := by
  refine session_history (H := fun acts o => ∃ answers pending,
    Converses env o (handlerEffects env t (World.init shardCount) acts) answers pending)
      ?_ ?_ run existing
  · intro acts σ now run ht _
    have hloop := accept_loop σ now t
    rw [if_pos ht] at hloop
    obtain ⟨hphase, _, hreceived, _⟩ := loop_eq_iff.mp hloop
    have hregistered := accept_view (fun o => o.nicknameRegistered)
      (fun o => o.toSessionControl.shut_registered) σ now t
    rw [if_pos ht] at hregistered
    have hnothing : handlerEffects env t (World.init shardCount) (acts ++ [.accept now]) = [] := by
      rw [handlerEffects_concat run rfl, (dialogue_of_run run).2 (Nat.le_of_eq ht.symm), stepEffects,
        if_neg (by simp)]
      rfl
    rw [hnothing]
    refine ⟨[], [], rfl, hreceived.symm, by rw [hphase]; rfl, .nil,
      fun _ hmem => absurd hmem List.not_mem_nil, fun text hreply => ?_, ?_⟩
    · rw [hphase] at hreply
      cases hreply
    · rw [hregistered, hphase]
      rfl
  · intro acts σ a σ' run hexisting h hs
    obtain ⟨answers, pending, hconverses⟩ := h
    have hevicts : EvictsOwner σ :=
      invariant (fun _ _ _ h hs => h.step hs) (evictsOwner_init shardCount) run
    rw [handlerEffects_concat run hs, stepEffects]
    split
    · rename_i hown
      obtain ⟨rfl, hprocessing⟩ := hown
      exact hconverses.move (advance_protocolMove hevicts (advance_step_cases hs) hprocessing)
    · rename_i hrest
      rw [List.append_nil]
      obtain ⟨hreceived, hanswering⟩ := step_rest hexisting hs hrest
      refine ⟨answers, pending, hconverses.rest hreceived (step_registered hexisting hs hrest) ?_⟩
      cases hbusy : (σ.session t).phase.answering with
      | false => exact Or.inr ⟨rfl, hanswering.trans hbusy⟩
      | true =>
        -- its next own step would belong to the packet
        have hother : a ≠ .on t .advance := by
          rintro rfl
          refine hrest ⟨rfl, ?_⟩
          rw [Session.processing, if_neg fun hdrain => by rw [hdrain] at hbusy; cases hbusy]
          exact hbusy
        refine Or.inl ((step_phase hexisting hs hother).resolve_right fun hfree => ?_)
        rw [(inLoop_eq_false_iff.mp (inLoop_of_strandFree hfree)).2] at hbusy
        cases hbusy

theorem posted_answers (run : exec (step env) (World.init shardCount) acts = some σ)
    (existing : t < σ.nextPtr)
    (outside : ∀ text, .on t (.postWrite text) ∈ acts → text ∉ answerTexts)
    {answers : List (Bytes × PacketAnswer)} {pending : List Bytes} (h : Converses env (σ.session t)
      (handlerEffects env t (World.init shardCount) acts) answers pending) :
    ((σ.session t).posted.map Message.text).filter (· ∈ answerTexts) =
      (answers.filterMap fun x => x.2.message?).map Message.text := by
  rw [List.filter_map, ← answersGiven_conversation answers pending, ← h.trace,
    ← answers_posted run existing outside]
  rfl

/-- A client and its session keep to the protocol from end to end. The answers among what the client has
received are answers to its requests in their order, each as the dispatcher answers that request before
or after the login, and without a drop none is missing in between. -/
theorem responses_answer_requests (env : Env) (room : 2 ≤ env.config.maxWriteQueueSize)
    (shardCount : Nat) (acts : List Act) (σ : World)
    (run : exec (step env) (World.init shardCount) acts = some σ)
    (t : SessionPtr) (existing : t < σ.nextPtr)
    (outside : ∀ text, .on t (.postWrite text) ∈ acts → Wire.validLength text.length ∧
      text ∉ answerTexts)
    (bytes : Bytes) (arrived : Arrived env (σ.session t) bytes) :
    ∃ responses rest answers pending, wire.parse bytes = (responses, some rest) ∧ Protocol env answers ∧
      answers.map Prod.fst ++ pending = (σ.session t).received ∧ pending.length ≤ 1 ∧
      (σ.session t).received <+: (wire.parse (delivered t acts)).1 ∧
      (responses.filter (· ∈ answerTexts)).Sublist
        ((answers.filterMap fun x => x.2.message?).map Message.text) ∧
      ((σ.session t).dropped = [] → responses.filter (· ∈ answerTexts) <+:
        (answers.filterMap fun x => x.2.message?).map Message.text) := by
  obtain ⟨responses, rest, hparse, _, hstarted⟩ :=
    parse_arrived room run existing (fun text ht => (outside text ht).1) arrived
  obtain ⟨answers, pending, hconverses⟩ := converses_of_run run existing
  have hposted := posted_answers run existing (fun text ht => (outside text ht).2) hconverses
  refine ⟨responses, rest, answers, pending, hparse, hconverses.protocol, hconverses.packets, ?_,
    (streamed_of_run run existing).received_front, ?_, fun kept => ?_⟩
  · rw [hconverses.one]
    split
    · exact Nat.le_refl 1
    · exact Nat.zero_le 1
  · rw [← hposted]
    have hsublist := (writerInv_of_run room run t).ordered.started_sublist
    exact (hstarted.sublist.trans (hsublist.map _)).filter _
  · rw [← hposted]
    exact (hstarted.trans ((started_prefix_posted room run kept).map _)).filter _

set_option synthInstance.maxSize 256 in
/-- The second login of a client finds its own nickname in use. -/
theorem responses_answer_requests_again :
    let env := Env.ofTable [] [loginText "a"]
    let login := (loginText "a").1
    let acts := connects 0 ++ sends 0 [login, login] 11 ++ [.on 0 (.writeDone 0 false)]
    let bytes := frames env [⟨0, loginOk⟩, ⟨1, nicknameInUse⟩]
    ∃ σ responses rest answers pending, exec (step env) (World.init 4) acts = some σ ∧
      wire.parse bytes = (responses, some rest) ∧ Protocol env answers ∧
      answers.map Prod.fst ++ pending = [login, login] ∧
      responses.filter (· ∈ answerTexts) <+: (answers.filterMap fun x => x.2.message?).map
        Message.text := by
  intro env login acts bytes
  have hrun : (exec (step env) (World.init 4) acts).map (fun σ => (σ.nextPtr, (σ.session 0).sent,
      (σ.session 0).started, (σ.session 0).received, (σ.session 0).dropped)) =
      some (1, [⟨0, loginOk⟩], [⟨0, loginOk⟩, ⟨1, nicknameInUse⟩], [login, login], []) := by
    decide +kernel
  obtain ⟨σ, run, hview⟩ := Option.map_eq_some_iff.mp hrun
  simp only [Prod.mk.injEq] at hview
  obtain ⟨hnext, hsent, hstarted, hreceived, hdropped⟩ := hview
  have harrived : Arrived env (σ.session 0) bytes := by
    unfold Arrived
    rw [hsent, hstarted]
    decide +kernel
  obtain ⟨responses, rest, answers, pending, hparse, hprotocol, hpackets, _, _, _, hprefix⟩ :=
    responses_answer_requests env (by decide) 4 acts σ run 0 (by rw [hnext]; decide)
      (by simp [acts, connects, sends]) bytes harrived
  exact ⟨σ, responses, rest, answers, pending, run, hparse, hprotocol, hpackets.trans hreceived,
    hprefix hdropped⟩

end Run

end DBMiddleWare
