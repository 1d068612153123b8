import DBMiddleWare.LoginProgress
import DBMiddleWare.NicknameMutex
import DBMiddleWare.ReadLoop
import DBMiddleWare.Writers

/-!
# One answer per packet

Answers carry no request id, so a client matches them to its packets by their position.
Whatever a packet contains, its handling posts one message to the session or calls
`close_session` on it once, and no packet is taken before the one in front of it has its
answer.
-/

namespace DBMiddleWare

open ByteOrder Execution MessageBufferManager
set_option autoImplicit false

inductive PacketAnswer where
  | posted (msg : Message)
  | closed
  deriving Repr, DecidableEq

def PacketAnswer.message? : PacketAnswer → Option Message
  | .posted msg => some msg
  | .closed => none

inductive Effect where
  | took (packet : Bytes)
  | gave (answer : PacketAnswer)
  deriving Repr, DecidableEq

/-- Every packet with its answer behind it. -/
def conversation (answers : List (Bytes × PacketAnswer)) : List Effect :=
  answers.flatMap fun x => [.took x.1, .gave x.2]

namespace Session

def account (o : Session) : List Bytes × List Message × Nat := (o.received, o.posted, o.closeCalls)

/-- What was done to the session between two states of it, read off its record. -/
def effects (o o' : Session) : List Effect :=
  (o'.received.drop o.received.length).map .took ++
    (o'.posted.drop o.posted.length).map (fun msg => .gave (.posted msg)) ++
    List.replicate (o'.closeCalls - o.closeCalls) (.gave .closed)

section Account
variable {o o' : Session}

theorem account_eq_iff {received : List Bytes} {posted : List Message} {closeCalls : Nat} :
    o.account = (received, posted, closeCalls) ↔
      o.received = received ∧ o.posted = posted ∧ o.closeCalls = closeCalls := by
  simp only [account, Prod.mk.injEq]

theorem effects_of_account (packets : List Bytes) (msgs : List Message) (n : Nat)
    (h : o'.account = (o.received ++ packets, o.posted ++ msgs, o.closeCalls + n)) :
    o.effects o' = packets.map .took ++ msgs.map (fun msg => .gave (.posted msg)) ++
      List.replicate n (.gave .closed) := by
  obtain ⟨hreceived, hposted, hclosed⟩ := account_eq_iff.mp h
  rw [effects, hreceived, hposted, hclosed, List.drop_left, List.drop_left, Nat.add_sub_cancel_left]

theorem account_shut (o : Session) : o.shut.account = (o.received, o.posted, o.closeCalls + 1) := by
  rw [account_eq_iff]
  refine ⟨o.toSessionControl.shut_received, rfl, ?_⟩
  rcases o.toSessionControl.shut_cases with ⟨_, h⟩ | ⟨_, h⟩
  · exact congrArg SessionControl.closeCalls h
  · exact congrArg SessionControl.closeCalls h

theorem account_postWrite (cfg : Config) (text : Bytes) (o : Session) :
    (o.postWrite cfg text).account = (o.received, o.posted ++ [o.newMessage text], o.closeCalls) := by
  rw [account_eq_iff]
  exact ⟨WriteQueue.postWrite_view SessionControl.received (fun _ => rfl) cfg text o,
    WriteQueue.postWrite_posted cfg text o,
    WriteQueue.postWrite_view SessionControl.closeCalls (fun _ => rfl) cfg text o⟩

end Account

end Session

/-- A session is answered once, and takes nothing. -/
def Answered (s : SessionPtr) (σ σ' : World) : Prop :=
  (∃ msg, (σ'.session s).account =
    ((σ.session s).received, (σ.session s).posted ++ [msg], (σ.session s).closeCalls)) ∨
  (σ'.session s).account = ((σ.session s).received, (σ.session s).posted, (σ.session s).closeCalls + 1)

section Sequential
variable {env : Env} {σ τ : World} {s : SessionPtr}

theorem modify_account (σ : World) (r s : SessionPtr) {f : Session → Session}
    (h : ∀ o, (f o).account = o.account) : ((σ.modify r f).session s).account = (σ.session s).account :=
  World.modify_view σ r s f Session.account h

theorem Answered.post (same : (τ.session s).account = (σ.session s).account) (cfg : Config)
    (text : Bytes) :
    Answered s σ (τ.postWrite s cfg text) := by
  obtain ⟨hreceived, hposted, hclosed⟩ := Session.account_eq_iff.mp same
  refine Or.inl ⟨(τ.session s).newMessage text, ?_⟩
  rw [World.postWrite, World.modify_session_self, Session.account_postWrite, hreceived, hposted, hclosed]

theorem Answered.close (same : (τ.session s).account = (σ.session s).account) :
    Answered s σ (τ.closeSession s) := by
  obtain ⟨hreceived, hposted, hclosed⟩ := Session.account_eq_iff.mp same
  refine Or.inr ?_
  rw [World.closeSession_session_self, Session.account_shut, hreceived, hposted, hclosed]

theorem indexNickname_account (σ : World) (s : SessionPtr) (nickname : String) :
    ((σ.indexNickname s nickname).session s).account = (σ.session s).account :=
  World.indexNickname_view σ s s nickname Session.account fun _ _ => rfl

theorem dispatch_account (σ : World) (r s : SessionPtr) (closure : Closure) :
    ((σ.dispatch r closure).session s).account = (σ.session s).account :=
  World.dispatch_view σ r s closure Session.account fun _ _ => rfl

/-- The previous owner that a registration closes is another session. -/
theorem registerNickname_account (nickname : String) :
    ((σ.registerNickname s nickname).session s).account = (σ.session s).account := by
  unfold World.registerNickname
  split
  · rename_i prev hprev
    have hother : prev ≠ s := by simpa using (Option.filter_eq_some_iff.mp hprev).2
    rw [indexNickname_account, World.closeSession_session_of_ne _ _ _ (Ne.symm hother), dispatch_account]
  · exact indexNickname_account σ s nickname

theorem answered_login (msg : Json) : Answered s σ (World.settle env s (σ.login env s msg)) := by
  unfold World.login
  split
  · exact .post rfl env.config parsingFailed
  · rename_i nickname _
    split
    · exact .post rfl env.config nicknameRequired
    · split
      · exact .post rfl env.config nicknameInUse
      · apply Answered.post (σ := σ)
        have hnamed : (((σ.setNickname s nickname).onNicknameRegistered s).session s).account =
            (σ.session s).account := by
          rw [World.setNickname, World.onNicknameRegistered, World.modify_modify]
          exact modify_account σ s s fun _ => rfl
        refine Eq.trans ?_ ((registerNickname_account nickname).trans hnamed)
        exact modify_account _ s s fun _ => rfl

theorem answered_follow (env : Env) (σ : World) (s : SessionPtr) (r : Route) :
    Answered s σ (World.settle env s (σ.follow env s r)) := by
  have hnoted : ∀ h, ((σ.noteHandler s h).session s).account = (σ.session s).account :=
    fun _ => modify_account σ s s fun _ => rfl
  cases r with
  | close => exact .close rfl
  | raise e => exact .post rfl env.config parsingFailed
  | unknown => exact .post rfl env.config unknownType
  | handler h msg =>
    cases h with
    | login =>
      have h : Answered s (σ.noteHandler s .login)
          (World.settle env s ((σ.noteHandler s .login).login env s msg)) := answered_login msg
      obtain ⟨hreceived, hposted, hclosed⟩ := Session.account_eq_iff.mp (hnoted .login)
      unfold Answered at h
      rw [hreceived, hposted, hclosed] at h
      exact h
    | insert =>
      rw [World.follow, World.callHandler, World.insert]
      cases insertQuery env msg with
      | error e => exact .post (hnoted .insert) env.config parsingFailed
      | ok query => exact .post (hnoted .insert) env.config insertOk

theorem handlePacket_effects (env : Env) (σ : World) (s : SessionPtr) (packet : Bytes) :
    ∃ answer, (σ.session s).effects ((σ.handlePacket env s packet).session s) =
      [.took packet, .gave answer] := by
  rw [handlePacket_eq_settle]
  have hreceived : (σ.noteReceived s packet).session s =
      { σ.session s with received := (σ.session s).received ++ [packet] } := World.modify_session_self ..
  have h := answered_follow env (σ.noteReceived s packet) s
    (route env (σ.session s).nicknameRegistered packet)
  unfold Answered at h
  rw [hreceived] at h
  rcases h with ⟨msg, h⟩ | h
  · exact ⟨.posted msg, Session.effects_of_account [packet] [msg] 0 h⟩
  · refine ⟨.closed, Session.effects_of_account [packet] [] 1 ?_⟩
    rw [h, List.append_nil]

/-- What the drain loop does to the session for the packets of a read. -/
def readEffects (env : Env) (s : SessionPtr) : World → List Bytes → List Effect
  | _, [] => []
  | σ, packet :: packets =>
    (σ.session s).effects ((σ.handlePacket env s packet).session s) ++
      readEffects env s (σ.handlePacket env s packet) packets

theorem readEffects_conversation (env : Env) (σ : World) (s : SessionPtr) (packets : List Bytes) :
    ∃ answers, answers.map Prod.fst = packets ∧ readEffects env s σ packets = conversation answers := by
  induction packets generalizing σ with
  | nil => exact ⟨[], rfl, rfl⟩
  | cons packet packets ih =>
    obtain ⟨answer, hanswer⟩ := handlePacket_effects env σ s packet
    obtain ⟨answers, hpackets, heffects⟩ := ih (σ.handlePacket env s packet)
    refine ⟨(packet, answer) :: answers, congrArg (packet :: ·) hpackets, ?_⟩
    rw [readEffects, hanswer, heffects]
    rfl

end Sequential

theorem posted_untouched : Untouched fun o => o.posted where
  shut _ := rfl
  tasks _ _ _ _ _ _ _ := rfl
  take _ _ := rfl
  done _ _ := WriteQueue.doWriteQueue_posted _

/-- The next step of the handler belongs to a packet: it takes one or works on one. -/
def Session.processing (host : Endian) (o : Session) : Bool :=
  if o.phase = .drain then (o.msgBufMgr.extractMessage host).1.isSome else o.phase.answering

/-- The effects of the handler of a session in a run, as far as they belong to packets. -/
def stepEffects (env : Env) (t : SessionPtr) (a : Act) (o o' : Session) : List Effect :=
  if a = .on t .advance ∧ o.processing env.host = true then o.effects o' else []

def handlerEffects (env : Env) (t : SessionPtr) : World → List Act → List Effect
  | _, [] => []
  | σ, a :: acts =>
    match step env σ a with
    | none => []
    | some τ => stepEffects env t a (σ.session t) (τ.session t) ++ handlerEffects env t τ acts

/-- What a step of the handler does for a packet. -/
inductive PacketStep (o o' : Session) : Prop where
  | takes (packet : Bytes) (at_ : o.phase = .drain) (working : o'.phase.answering = true)
      (account : o'.account = (o.received ++ [packet], o.posted, o.closeCalls))
  | refuses (packet : Bytes) (at_ : o.phase = .drain) (done : o'.phase = .drain)
      (account : o'.account = (o.received ++ [packet], o.posted, o.closeCalls + 1))
  | works (at_ : o.phase.answering = true) (working : o'.phase.answering = true)
      (account : o'.account = o.account)
  | answers (msg : Message) (at_ : o.phase.answering = true) (done : o'.phase = .drain)
      (account : o'.account = (o.received, o.posted ++ [msg], o.closeCalls))

section Step
variable {env : Env} {σ σ' τ : World} {t : SessionPtr} {a : Act}

theorem setPhase_account (phase : Phase) :
    ((σ.setPhase t phase).session t).account = (σ.session t).account :=
  modify_account σ t t fun _ => rfl

/-- The handler goes on from one phase of its work on a packet to the next. -/
theorem PacketStep.goto {phase : Phase} (phase' : Phase) (at_ : (σ.session t).phase = phase)
    (was : phase.answering = true) (same : (τ.session t).account = (σ.session t).account)
    (working : phase'.answering = true) :
    PacketStep (σ.session t) ((τ.setPhase t phase').session t) :=
  .works (at_ ▸ was) (by rw [World.setPhase, World.modify_session_self, working])
    ((setPhase_account phase').trans same)

theorem PacketStep.post {phase : Phase} (at_ : (σ.session t).phase = phase)
    (was : phase.answering = true) (same : (τ.session t).account = (σ.session t).account)
    (done : (τ.session t).phase = .drain) (cfg : Config)
    (text : Bytes) : PacketStep (σ.session t) ((τ.postWrite t cfg text).session t) := by
  obtain ⟨hreceived, hposted, hclosed⟩ := Session.account_eq_iff.mp same
  refine .answers ((τ.session t).newMessage text) (at_ ▸ was) ?_ ?_
  · rw [World.postWrite, World.modify_session_self,
      WriteQueue.postWrite_view SessionControl.phase (fun _ => rfl), done]
  · rw [World.postWrite, World.modify_session_self, Session.account_postWrite, hreceived,
      hposted, hclosed]

theorem drainStep_packetStep (at_ : (σ.session t).phase = .drain) {packet : Bytes}
    {mgr : MessageBufferManager}
    (extract : (σ.session t).msgBufMgr.extractMessage env.host = (some packet, mgr)) :
    PacketStep (σ.session t) ((σ.drainStep env t).session t) := by
  simp only [World.drainStep, extract]
  generalize route env _ packet = r
  have haccount : ((((σ.modify t fun o => { o with msgBufMgr := mgr }).noteReceived t packet).modify
      t fun o => { o with handled := o.handled ++ r.handler?.toList, phase := r.phase env }).session
      t).account =
      ((σ.session t).received ++ [packet], (σ.session t).posted, (σ.session t).closeCalls) := by
    rw [World.noteReceived, World.modify_modify, World.modify_modify, World.modify_session_self]
    rfl
  have hphase : ((((σ.modify t fun o => { o with msgBufMgr := mgr }).noteReceived t packet).modify
      t fun o => { o with handled := o.handled ++ r.handler?.toList, phase := r.phase env }).session
      t).phase = r.phase env := by
    rw [World.modify_session_self]
  rcases r.phase_answering env with rfl | hworking
  · obtain ⟨hreceived, hposted, hclosed⟩ := Session.account_eq_iff.mp haccount
    refine .refuses packet at_ ?_ ?_
    · rw [World.enter, World.closeSession_view _ _ _ (fun o => o.phase)
        fun o => o.toSessionControl.shut_phase, hphase]
      rfl
    · rw [World.enter, World.closeSession_session_self, Session.account_shut, hreceived,
        hposted, hclosed]
  · have hentered : ∀ τ : World, τ.enter env t r =
        τ.modify t fun o => { o with
          handled := o.handled ++ r.handler?.toList, phase := r.phase env } := by
      intro τ
      cases r with
      | close => cases hworking
      | raise e => rfl
      | unknown => rfl
      | handler h msg => rfl
    rw [hentered]
    refine .takes packet at_ ?_ haccount
    rw [hphase]
    exact hworking

/-- An eviction closes another session. -/
theorem advance_packetStep (evicts : EvictsOwner σ) (h : Advanced env σ t σ')
    (processing : (σ.session t).processing env.host = true) :
    PacketStep (σ.session t) (σ'.session t) := by
  cases h with
  | drain at_ =>
    rw [Session.processing, if_pos at_] at processing
    obtain ⟨packet, hpacket⟩ := Option.isSome_iff_exists.mp processing
    exact drainStep_packetStep at_ (Prod.ext hpacket rfl)
  | reply text at_ =>
    exact .post at_ rfl (setPhase_account .drain) (setPhase_phase σ t .drain) env.config text
  | lookup nickname at_ =>
    unfold World.lookupStep
    split
    · exact .goto _ at_ rfl rfl rfl
    · exact .goto _ at_ rfl rfl rfl
  | name nickname at_ => exact .goto _ at_ rfl (modify_account σ t t fun _ => rfl) rfl
  | ready nickname at_ => exact .goto _ at_ rfl (modify_account σ t t fun _ => rfl) rfl
  | register nickname at_ =>
    unfold World.registerStep
    split
    · rename_i prev _
      exact .goto (.loginEvict nickname prev) at_ rfl (dispatch_account σ prev t _) rfl
    · exact .goto _ at_ rfl (indexNickname_account σ t nickname) rfl
  | evict nickname prev at_ =>
    have hother : prev ≠ t := (evicts t nickname prev at_).2.2
    have hindexed : (((σ.closeSession prev).indexNickname t nickname).session t).account =
        (σ.session t).account := by
      rw [indexNickname_account, World.closeSession_session_of_ne _ _ _ (Ne.symm hother)]
    exact .goto (.loginAck nickname) at_ rfl hindexed rfl
  | ack nickname at_ =>
    refine .post at_ rfl ?_ ?_ env.config loginOk
    · rw [World.setPhase, World.modify_modify]
      exact modify_account σ t t fun _ => rfl
    · rw [World.setPhase, World.modify_modify, World.modify_session_self]
  | next at_ => simp [Session.processing, at_, Phase.answering] at processing

theorem PacketStep.posted {o o' : Session} (h : PacketStep o o') : o.posted <+: o'.posted := by
  cases h with
  | takes packet _ _ account => exact (Session.account_eq_iff.mp account).2.1 ▸ List.prefix_refl _
  | refuses packet _ _ account => exact (Session.account_eq_iff.mp account).2.1 ▸ List.prefix_refl _
  | works _ _ account => exact (Session.account_eq_iff.mp account).2.1 ▸ List.prefix_refl _
  | answers msg _ _ account => exact (Session.account_eq_iff.mp account).2.1 ▸ List.prefix_append _ _

/-- Outside of its packets the handler posts nothing. -/
theorem advance_posted (h : Advanced env σ t σ') (rest : (σ.session t).processing env.host = false) :
    (σ'.session t).posted = (σ.session t).posted := by
  have hrun : ∀ o : Session, o.runNextTask.posted = o.posted := posted_untouched.runNextTask
  have hphase : ∀ (τ : World) phase, ((τ.setPhase t phase).session t).posted = (τ.session t).posted :=
    fun τ phase => World.modify_view τ t t _ (fun o => o.posted) fun _ => rfl
  cases h with
  | drain at_ =>
    unfold World.drainStep
    split
    · rename_i packet mgr extract
      rw [Session.processing, if_pos at_, extract] at rest
      cases rest
    · rename_i mgr extract
      have hmgr : ((σ.modify t fun o => { o with msgBufMgr := mgr }).session t).posted =
        (σ.session t).posted :=
        World.modify_view σ t t _ (fun o => o.posted) fun _ => rfl
      dsimp only
      split
      · exact (posted_untouched.closeSession _ t t).trans ((hphase _ _).trans hmgr)
      · exact (posted_untouched.doRead _ t t env.config).trans ((hphase _ _).trans hmgr)
  | next at_ => exact (World.modify_view _ t t _ (fun o => o.posted) hrun).trans (hphase σ .idle)
  | reply text at_ => simp [Session.processing, at_, Phase.answering] at rest
  | lookup nickname at_ => simp [Session.processing, at_, Phase.answering] at rest
  | name nickname at_ => simp [Session.processing, at_, Phase.answering] at rest
  | ready nickname at_ => simp [Session.processing, at_, Phase.answering] at rest
  | register nickname at_ => simp [Session.processing, at_, Phase.answering] at rest
  | evict nickname prev at_ => simp [Session.processing, at_, Phase.answering] at rest
  | ack nickname at_ => simp [Session.processing, at_, Phase.answering] at rest

theorem posted_of_eq {o o' : Session} (h : o'.posted = o.posted) : o.posted <+: o'.posted :=
  h ▸ List.prefix_refl _

theorem event_posted {e : Event} (evicts : EvictsOwner σ) (h : Happened env σ t e σ') :
    (σ.session t).posted <+: (σ'.session t).posted := by
  have hmodify : ∀ (τ : World) (f : Session → Session), (∀ o, (f o).posted = o.posted) →
      ((τ.modify t f).session t).posted = (τ.session t).posted :=
    fun τ f hf => World.modify_view τ t t f (fun o => o.posted) hf
  cases h with
  | start _ =>
    exact posted_of_eq ((posted_untouched.start _ t t).trans (hmodify σ _ fun _ => rfl))
  | strand closure rest _ _ =>
    have htaken := hmodify σ (fun o => { o with strand := rest }) fun _ => rfl
    cases closure with
    | write text =>
      rw [World.runClosure, World.postWrite, World.modify_session_self,
        WriteQueue.postWrite_posted, htaken]
      exact List.prefix_append _ _
    | task fn => exact posted_of_eq ((posted_untouched.postTask _ t t env.config fn).trans htaken)
  | readData data _ => exact posted_of_eq (hmodify σ _ fun _ => rfl)
  | readError aborted _ =>
    have hnext := hmodify σ
      (fun o => { o with asyncReads := o.asyncReads - 1, readPending := false, phase := .next })
        fun _ => rfl
    unfold World.readError
    dsimp only
    split
    · exact posted_of_eq hnext
    · exact posted_of_eq ((posted_untouched.closeSession _ t t).trans hnext)
  | advance advanced =>
    cases hprocessing : (σ.session t).processing env.host with
    | true => exact (advance_packetStep evicts advanced hprocessing).posted
    | false => exact posted_of_eq (advance_posted advanced hprocessing)
  | postWrite text => exact posted_of_eq (hmodify σ _ fun _ => rfl)
  | writeDone k w ec _ => exact posted_of_eq (posted_untouched.onWrite σ t t k w ec)
  | sweep =>
    exact posted_of_eq (posted_untouched.closeSession { σ with toClose := σ.toClose.erase t } t t)
  | destroy _ => exact List.prefix_refl _

theorem step_posted (evicts : EvictsOwner σ) (existing : t < σ.nextPtr) (hs : step env σ a = some σ') :
    (σ.session t).posted <+: (σ'.session t).posted := by
  by_cases hother : ∀ e, a ≠ .on t e
  · have hremote := (step_seen hs existing hother).1
    generalize σ'.session t = o' at hremote ⊢
    cases hremote with
    | same => exact List.prefix_refl _
    | shut => exact List.prefix_refl _
    | notice text => exact List.prefix_refl _
  · push Not at hother
    obtain ⟨e, rfl⟩ := hother
    simp only [step, Option.ite_none_right_eq_some] at hs
    exact event_posted evicts (event_cases hs.2)

/-- A step that does not belong to a packet of the session takes none and leaves its answer open. -/
theorem step_rest (existing : t < σ.nextPtr) (hs : step env σ a = some σ')
    (rest : ¬ (a = .on t .advance ∧ (σ.session t).processing env.host = true)) :
    (σ'.session t).received = (σ.session t).received ∧
      (σ'.session t).phase.answering = (σ.session t).phase.answering := by
  cases step_move hs existing with
  | keep other intake stays =>
    refine ⟨congrArg (fun x => x.2.1) intake, ?_⟩
    by_cases hown : a = .on t .advance
    · have hquiet : (σ.session t).phase.answering = false := by
        have := fun h => rest ⟨hown, h⟩
        rw [Session.processing, if_neg (other hown)] at this
        exact Bool.eq_false_iff.mpr this
      have hbefore := inLoop_eq_false_iff.mpr ⟨other hown, hquiet⟩
      rw [hquiet, (inLoop_eq_false_iff.mp (stays.trans hbefore)).2]
    · rcases step_phase existing hs hown with hphase | hfree
      · rw [hphase]
      · have hbefore := inLoop_of_strandFree hfree
        rw [(inLoop_eq_false_iff.mp hbefore).2, (inLoop_eq_false_iff.mp (stays.trans hbefore)).2]
  | read data act free loop =>
    obtain ⟨hphase, _, hreceived, _⟩ := loop_eq_iff.mp loop
    rw [hphase, (inLoop_eq_false_iff.mp (inLoop_of_strandFree free)).2]
    exact ⟨hreceived, rfl⟩
  | take packet mgr act at_ extract loop =>
    refine absurd ⟨act, ?_⟩ rest
    rw [Session.processing, if_pos at_, extract]
    rfl
  | leave mgr act at_ extract intake left =>
    rw [(inLoop_eq_false_iff.mp left).2, at_]
    exact ⟨congrArg (fun x => x.2.1) intake, rfl⟩

theorem handlerEffects_concat {acts : List Act} (run : exec (step env) τ acts = some σ)
    (hs : step env σ a = some σ') : handlerEffects env t τ (acts ++ [a]) =
      handlerEffects env t τ acts ++ stepEffects env t a (σ.session t) (σ'.session t) := by
  induction acts generalizing τ with
  | nil =>
    rw [exec_nil, Option.some.injEq] at run
    subst run
    simp only [List.nil_append, handlerEffects, hs, List.append_nil]
  | cons b acts ih =>
    obtain ⟨ρ, hρ, hrest⟩ := exec_cons_eq_some.mp run
    simp only [List.cons_append, handlerEffects, hρ, ih hrest, List.append_assoc]

end Step

/-- All packets of the session have been answered, each once and in order, but for the one that the
handler is at work on. -/
structure Dialogue (o : Session) (trace : List Effect) (answers : List (Bytes × PacketAnswer))
    (pending : List Bytes) : Prop where
  trace : trace = conversation answers ++ pending.map .took
  packets : answers.map Prod.fst ++ pending = o.received
  one : pending.length = if o.phase.answering then 1 else 0
  posted : (answers.filterMap fun x => x.2.message?).Sublist o.posted

section Dialogue
variable {o o' : Session} {trace : List Effect} {answers : List (Bytes × PacketAnswer)}
    {pending : List Bytes}

theorem conversation_concat (x : Bytes × PacketAnswer) :
    conversation (answers ++ [x]) = conversation answers ++ [.took x.1, .gave x.2] := by
  rw [conversation, List.flatMap_append, List.flatMap_singleton]
  rfl

theorem Dialogue.nothing_pending (h : Dialogue o trace answers pending)
    (idle : o.phase.answering = false) :
    pending = [] := by
  have hone := h.one
  rw [idle] at hone
  exact List.length_eq_zero_iff.mp hone

theorem Dialogue.rest (h : Dialogue o trace answers pending) (received : o'.received = o.received)
    (same : o'.phase.answering = o.phase.answering) (posted : o.posted <+: o'.posted) :
    Dialogue o' trace answers pending where
  trace := h.trace
  packets := received ▸ h.packets
  one := same ▸ h.one
  posted := h.posted.trans posted.sublist

theorem Dialogue.packetStep (h : Dialogue o trace answers pending) (step : PacketStep o o') :
    ∃ answers pending, Dialogue o' (trace ++ o.effects o') answers pending := by
  cases step with
  | takes packet at_ working account =>
    obtain ⟨hreceived, hposted, _⟩ := Session.account_eq_iff.mp account
    obtain rfl := h.nothing_pending (by rw [at_]; rfl)
    have heffects : o.effects o' = [.took packet] := by
      apply Session.effects_of_account [packet] [] 0
      rw [account, List.append_nil, Nat.add_zero]
    refine ⟨answers, [packet], ?_, ?_, by rw [working]; rfl, hposted ▸ h.posted⟩
    · rw [h.trace, heffects, List.map_nil, List.append_nil]
      rfl
    · rw [hreceived, ← h.packets, List.append_nil]
  | refuses packet at_ done account =>
    obtain ⟨hreceived, hposted, _⟩ := Session.account_eq_iff.mp account
    obtain rfl := h.nothing_pending (by rw [at_]; rfl)
    have heffects : o.effects o' = [.took packet, .gave .closed] := by
      apply Session.effects_of_account [packet] [] 1
      rw [account, List.append_nil]
    refine ⟨answers ++ [(packet, .closed)], [], ?_, ?_, by rw [done]; rfl, ?_⟩
    · rw [h.trace, heffects, conversation_concat, List.map_nil, List.append_nil, List.append_nil]
    · rw [hreceived, ← h.packets, List.map_append, List.append_nil, List.append_nil]
      rfl
    · rw [hposted, List.filterMap_append]
      exact (List.append_nil _).symm ▸ h.posted
  | works at_ working account =>
    obtain ⟨hreceived, hposted, hclosed⟩ := Session.account_eq_iff.mp account
    have heffects : o.effects o' = [] := by
      apply Session.effects_of_account [] [] 0
      rw [account, List.append_nil, List.append_nil]
      rfl
    rw [heffects, List.append_nil]
    exact ⟨answers, pending, h.rest hreceived (working.trans at_.symm) (hposted ▸ List.prefix_refl _)⟩
  | answers msg at_ done account =>
    obtain ⟨hreceived, hposted, _⟩ := Session.account_eq_iff.mp account
    have heffects : o.effects o' = [.gave (.posted msg)] := by
      apply Session.effects_of_account [] [msg] 0
      rw [account, List.append_nil, Nat.add_zero]
    obtain ⟨packet, rfl⟩ : ∃ packet, pending = [packet] := by
      have hone := h.one
      rw [at_] at hone
      exact List.length_eq_one_iff.mp hone
    refine ⟨answers ++ [(packet, .posted msg)], [], ?_, ?_, by rw [done]; rfl, ?_⟩
    · rw [h.trace, heffects, conversation_concat, List.append_assoc, List.map_nil, List.append_nil]
      rfl
    · rw [hreceived, ← h.packets, List.map_append, List.append_nil]
      rfl
    · rw [hposted, List.filterMap_append]
      exact h.posted.append (.refl _)

/-- In every run each session has such a conversation with its handler. -/
theorem dialogue_of_run {env : Env} {shardCount : Nat} {acts : List Act} {σ : World} {t : SessionPtr}
    (run : exec (step env) (World.init shardCount) acts = some σ) :
    (t < σ.nextPtr → ∃ answers pending,
      Dialogue (σ.session t) (handlerEffects env t (World.init shardCount) acts) answers pending) ∧
    (σ.nextPtr ≤ t → handlerEffects env t (World.init shardCount) acts = []) := by
  refine history_invariant (H := fun acts σ => (t < σ.nextPtr → ∃ answers pending,
    Dialogue (σ.session t) (handlerEffects env t (World.init shardCount) acts) answers pending) ∧
    (σ.nextPtr ≤ t → handlerEffects env t (World.init shardCount) acts = [])) ?_ ?_ run
  · exact ⟨fun h => absurd h (Nat.not_lt_zero t), fun _ => rfl⟩
  · intro acts σ a σ' run ⟨hdialogue, hnone⟩ hs
    rw [handlerEffects_concat run hs, stepEffects]
    have hlive : a = .on t .advance → t < σ.nextPtr := by
      rintro rfl
      simp only [step, Option.ite_none_right_eq_some] at hs
      exact (known_of_run run).live t hs.1
    have hevicts : EvictsOwner σ :=
      invariant (fun _ _ _ h hs => h.step hs) (evictsOwner_init shardCount) run
    by_cases hexisting : t < σ.nextPtr
    · refine ⟨fun _ => ?_, fun habsent => ?_⟩
      · obtain ⟨answers, pending, hd⟩ := hdialogue hexisting
        split
        · rename_i hown
          obtain ⟨rfl, hprocessing⟩ := hown
          exact hd.packetStep (advance_packetStep hevicts (advance_step_cases hs) hprocessing)
        · rename_i hrest
          rw [List.append_nil]
          obtain ⟨hreceived, hanswering⟩ := step_rest hexisting hs hrest
          exact ⟨answers, pending, hd.rest hreceived hanswering (step_posted hevicts hexisting hs)⟩
      · exact absurd (Nat.lt_of_lt_of_le hexisting (nextPtr_le_of_step hs)) (Nat.not_lt_of_le habsent)
    · have habsent := Nat.le_of_not_lt hexisting
      rw [if_neg fun hown => hexisting (hlive hown.1), List.append_nil, hnone habsent]
      refine ⟨fun hcreated => ?_, fun _ => rfl⟩
      obtain ⟨now, _, rfl, rfl⟩ := created_of_step hs habsent hcreated
      have hnew := accept_loop σ now σ.nextPtr
      rw [if_pos rfl] at hnew
      obtain ⟨hphase, _, hreceived, _⟩ := loop_eq_iff.mp hnew
      exact ⟨[], [], rfl, hreceived.symm, by rw [hphase]; rfl, List.nil_sublist _⟩

end Dialogue

/-- Posts are numbered in the order of the calls, and wait in the queue in that order. -/
structure PostsInOrder (o : Session) : Prop where
  numbered : o.posted.map Message.number = List.range o.posted.length
  queued : o.writeQueue.Sublist o.posted

section Queue
variable {cfg : Config} {o o' : Session}

/-- A post goes to the end of the queue, unless it meets the overflow limit. -/
theorem postWrite_writeQueue (cfg : Config) (text : Bytes) (o : Session) :
    ∃ kept, kept.Sublist o.writeQueue ∧ (o.postWrite cfg text).writeQueue =
      kept ++ if WriteQueue.AtLimit cfg o then [] else [o.newMessage text] := by
  have hqueued : ∃ kept, kept.Sublist o.writeQueue ∧ (WriteQueue.queued cfg text o).writeQueue =
      kept ++ if WriteQueue.AtLimit cfg o then [] else [o.newMessage text] := by
    unfold WriteQueue.queued
    rcases WriteQueue.enqueueWrite_cases cfg (o.newMessage text)
      { o with posted := o.posted ++ [o.newMessage text] } with
      ⟨hroom, h⟩ | ⟨hfull, hlimit, h⟩ | ⟨_, hbelow, h⟩
    · refine ⟨o.writeQueue, .refl _, ?_⟩
      rw [h, if_neg fun hlimit => Nat.not_le_of_lt hroom hlimit.1]
      rfl
    · refine ⟨o.writeQueue.tail, List.tail_sublist _, ?_⟩
      rw [h, if_pos ⟨hfull, hlimit⟩, List.append_nil]
      rfl
    · refine ⟨o.writeQueue.tail, List.tail_sublist _, ?_⟩
      rw [h, if_neg fun hlimit => Nat.not_le_of_lt hbelow hlimit.2]
      rfl
  rcases WriteQueue.postWrite_cases cfg text o with ⟨_, h⟩ | ⟨_, h⟩
  · rw [h, WriteQueue.doWriteQueue_writeQueue]
    exact hqueued
  · rw [h]
    exact hqueued

theorem PostsInOrder.postWrite (h : PostsInOrder o) (text : Bytes) :
    PostsInOrder (o.postWrite cfg text) := by
  obtain ⟨kept, hkept, hqueue⟩ := postWrite_writeQueue cfg text o
  constructor
  · rw [WriteQueue.postWrite_posted, List.map_append, h.numbered, List.length_append,
      List.length_singleton, List.range_succ]
    rfl
  · rw [WriteQueue.postWrite_posted, hqueue]
    refine (hkept.trans h.queued).append ?_
    split
    · exact List.nil_sublist _
    · exact .refl _

theorem PostsInOrder.step {a : WriteQueue.Act} (h : PostsInOrder o)
    (hs : WriteQueue.step cfg o a = some o') :
    PostsInOrder o' := by
  cases a with
  | post text => exact Option.some.inj hs ▸ h.postWrite text
  | complete k ec =>
    obtain ⟨w, _, rfl⟩ := Option.map_eq_some_iff.mp hs
    unfold WriteQueue.onWrite
    split
    · exact ⟨h.numbered, h.queued⟩
    · split
      · exact ⟨h.numbered, h.queued⟩
      · have htail := (List.tail_sublist o.writeQueue).trans h.queued
        constructor
        · exact (WriteQueue.doWriteQueue_posted _).symm ▸ h.numbered
        · rw [Session.writeDone, WriteQueue.doWriteQueue_writeQueue, WriteQueue.doWriteQueue_posted]
          exact htail
  | close => exact Option.some.inj hs ▸ ⟨h.numbered, h.queued⟩
  | setState state => exact Option.some.inj hs ▸ ⟨h.numbered, h.queued⟩

theorem postsInOrder_of_run {env : Env} {shardCount : Nat} {acts : List Act} {σ : World}
    (run : exec (DBMiddleWare.step env) (World.init shardCount) acts = some σ) (t : SessionPtr) :
    PostsInOrder (σ.session t) := by
  obtain ⟨wacts, p, wrun, hp⟩ := writersReachable_of_run run t
  have hposts : PostsInOrder p :=
    invariant (I := PostsInOrder) (fun _ _ _ h hs => h.step hs) ⟨rfl, List.nil_sublist _⟩ wrun
  have hwriter := (writePath_eq_iff.mp hp).1
  exact ⟨by rw [hwriter]; exact hposts.numbered, by rw [hwriter]; exact hposts.queued⟩

end Queue

/-- Whatever the packets of a read contain, and whether their handlers throw or not, each gets one
answer, and in every run of the server, however it is interleaved, the handler of a session answers a
packet before it takes the next. The messages are put into the queue in the order of the answers. -/
theorem one_answer_per_packet (env : Env) :
    (∀ (σ : World) (s : SessionPtr) (packets : List Bytes), ∃ answers,
      answers.map Prod.fst = packets ∧ readEffects env s σ packets = conversation answers) ∧
    (∀ (shardCount : Nat) (acts : List Act) (σ : World),
      exec (step env) (World.init shardCount) acts = some σ → ∀ t < σ.nextPtr,
        (∃ answers pending,
          Dialogue (σ.session t) (handlerEffects env t (World.init shardCount) acts) answers pending) ∧
        PostsInOrder (σ.session t)) ∧
    ∀ (text : Bytes) (o : Session),
      (o.postWrite env.config text).posted = o.posted ++ [o.newMessage text] ∧
      (¬ WriteQueue.AtLimit env.config o →
        (o.postWrite env.config text).writeQueue.getLast? = some (o.newMessage text)) := by
  refine ⟨fun σ s packets => readEffects_conversation env σ s packets,
    fun shardCount acts σ run t existing => ⟨(dialogue_of_run run).1 existing,
      postsInOrder_of_run run t⟩,
    fun text o => ⟨WriteQueue.postWrite_posted env.config text o, fun below => ?_⟩⟩
  obtain ⟨kept, _, hqueue⟩ := postWrite_writeQueue env.config text o
  rw [hqueue, if_neg below, List.getLast?_concat]

/-- A login and a packet that is no JSON arrive in one read. -/
theorem one_answer_per_packet_two :
    ∃ σ answers pending, exec (step (.ofTable [] [loginText "a"])) (World.init 4)
        (connects 0 ++ sends 0 [(loginText "a").1, [120]] 7) = some σ ∧
      Dialogue (σ.session 0) (handlerEffects (.ofTable [] [loginText "a"]) 0 (World.init 4)
        (connects 0 ++ sends 0 [(loginText "a").1, [120]] 7)) answers pending ∧
      (σ.session 0).received.length = 2 := by
  have hrun : (exec (step (.ofTable [] [loginText "a"])) (World.init 4)
      (connects 0 ++ sends 0 [(loginText "a").1, [120]] 7)).map
        (fun σ => (σ.nextPtr, (σ.session 0).received.length)) = some (1, 2) := by decide +kernel
  obtain ⟨σ, run, hview⟩ := Option.map_eq_some_iff.mp hrun
  obtain ⟨hnext, hreceived⟩ := Prod.mk.inj hview
  have hall := (one_answer_per_packet (.ofTable [] [loginText "a"])).2.1 4 _ σ run 0
    (hnext ▸ Nat.zero_lt_one)
  obtain ⟨answers, pending, h⟩ := hall.1
  exact ⟨σ, answers, pending, run, h, hreceived⟩

end DBMiddleWare
