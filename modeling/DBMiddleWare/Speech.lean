import DBMiddleWare.Answers
import DBMiddleWare.Reader

/-!
# What a session says

The handler of a session answers its packets, and a registration elsewhere leaves a notice
on its strand. Nothing else is posted, so what a session has posted is its answers in order,
with the notices in between.
-/

namespace DBMiddleWare

open Execution
set_option autoImplicit false

/-- The texts of the dispatcher and of the catch block. -/
def answerTexts : List Bytes :=
  [parsingFailed, unknownType, nicknameRequired, nicknameInUse, insertOk, loginOk]

theorem Route.phase_reply {env : Env} {r : Route} {text : Bytes} (h : r.phase env = .reply text) :
    text ∈ answerTexts := by
  unfold Route.phase at h
  split at h
  · cases h
  · cases h
    decide
  · cases h
    decide
  · split at h
    · cases h
      decide
    · split at h
      · cases h
        decide
      · cases h
  · split at h
    · cases h
      decide
    · cases h
      decide

/-- Nothing is posted, left on the strand to be posted, or chosen as an answer. -/
structure Mute (o o' : Session) : Prop where
  posted : o'.posted = o.posted
  strand : ∀ text, .write text ∈ o'.strand → .write text ∈ o.strand
  reply : ∀ text, o'.phase = .reply text → o.phase = .reply text

section Mute
variable {o o₁ o₂ : Session}

theorem Mute.of_eq (posted : o₁.posted = o.posted) (strand : o₁.strand = o.strand)
    (phase : o₁.phase = o.phase) :
    Mute o o₁ :=
  ⟨posted, fun _ h => strand ▸ h, fun _ h => phase.symm.trans h⟩

theorem Mute.trans (h : Mute o o₁) (h' : Mute o₁ o₂) : Mute o o₂ :=
  ⟨h'.posted.trans h.posted, fun text ht => h.strand text (h'.strand text ht),
    fun text ht => h.reply text (h'.reply text ht)⟩

theorem mute_shut (o : Session) : Mute o o.shut := .of_eq rfl rfl o.toSessionControl.shut_phase

theorem mute_run (fn : Task) (o : Session) : Mute o (o.run fn) := by
  cases fn <;> exact .of_eq rfl rfl rfl

theorem mute_runNextTask (o : Session) : Mute o o.runNextTask := by
  unfold Session.runNextTask
  split
  · exact .of_eq rfl rfl rfl
  · rename_i fn rest _
    have hrun := mute_run fn { o with taskQueue := rest }
    exact ⟨hrun.posted, hrun.strand, hrun.reply⟩

theorem mute_pushTask (fn : Task) (o : Session) : Mute o (o.pushTask fn) := by
  unfold Session.pushTask
  dsimp only
  split
  · exact .of_eq rfl rfl rfl
  · have hstarted := mute_runNextTask { o with taskQueue := o.taskQueue ++ [fn], taskRunning := true }
    exact ⟨hstarted.posted, hstarted.strand, hstarted.reply⟩

end Mute

section World
variable (σ : World) (s t : SessionPtr)

theorem mute_modify {f : Session → Session} (h : ∀ o, Mute o (f o)) :
    Mute (σ.session t) ((σ.modify s f).session t) := by
  rw [World.modify_session]
  split
  · rename_i heq
    exact heq ▸ h (σ.session s)
  · exact .of_eq rfl rfl rfl

theorem mute_closeSession : Mute (σ.session t) ((σ.closeSession s).session t) := by
  rw [World.closeSession_session]
  exact mute_modify σ s t mute_shut

theorem mute_setPhase {phase : Phase} (h : ∀ text, phase ≠ .reply text) :
    Mute (σ.session t) ((σ.setPhase s phase).session t) :=
  mute_modify σ s t fun _ => ⟨rfl, fun _ h => h, fun text ht => absurd ht (h text)⟩

theorem mute_postTask (cfg : Config) (fn : Task) :
    Mute (σ.session t) ((σ.postTask s cfg fn).session t) := by
  unfold World.postTask
  split
  · exact mute_closeSession σ s t
  · exact mute_modify σ s t (mute_pushTask fn)

theorem mute_doRead (cfg : Config) : Mute (σ.session t) ((σ.doRead s cfg).session t) := by
  unfold World.doRead
  split
  · exact .of_eq rfl rfl rfl
  · split
    · exact .of_eq rfl rfl rfl
    · exact .trans (mute_modify σ s t (f := fun o => { o with readPending := true })
        fun _ => .of_eq rfl rfl rfl)
        (mute_postTask _ s t cfg .read)

theorem mute_start : Mute (σ.session t) ((σ.start s).session t) := by
  unfold World.start
  split
  · exact .of_eq rfl rfl rfl
  · split
    · exact .of_eq rfl rfl rfl
    · refine .trans (mute_modify σ s t (f := fun o => { o with readPending := true })
        fun _ => .of_eq rfl rfl rfl)
        (mute_modify _ s t fun o => ⟨rfl, fun text ht => ?_, fun _ h => h⟩)
      simpa using ht

theorem mute_indexNickname (nickname : String) :
    Mute (σ.session t) ((σ.indexNickname s nickname).session t) := by
  rw [World.indexNickname_session]
  exact mute_modify σ s t fun _ => .of_eq rfl rfl rfl

theorem mute_onWrite (k : Nat) (w : PendingWrite) (ec : Bool) :
    Mute (σ.session t) ((σ.onWrite s k w ec).session t) := by
  have htaken : Mute (σ.session t) ((σ.modify s (Session.takeWrite k)).session t) :=
    mute_modify σ s t fun _ => .of_eq rfl rfl rfl
  unfold World.onWrite
  dsimp only
  split
  · exact htaken
  · split
    · exact htaken.trans (mute_closeSession _ s t)
    · refine htaken.trans (mute_modify _ s t fun o => ?_)
      obtain ⟨hcontrol, hreader, _⟩ :=
        WriteQueue.doWriteQueue_frame { o with sent := o.sent ++ [w.msg] }.pop
      exact .of_eq (WriteQueue.doWriteQueue_posted _) (congrArg SessionReader.strand hreader)
        (congrArg SessionControl.phase hcontrol)

theorem mute_readError (aborted : Bool) : Mute (σ.session t) ((σ.readError s aborted).session t) := by
  have hnext : Mute (σ.session t) ((σ.modify s fun o =>
      { o with asyncReads := o.asyncReads - 1, readPending := false, phase := .next }).session t) :=
    mute_modify σ s t fun _ => ⟨rfl, fun _ h => h, fun text ht => by cases ht⟩
  unfold World.readError
  dsimp only
  split
  · exact hnext
  · exact hnext.trans (mute_closeSession _ s t)

end World

/-- What a step makes a session say, and what it leaves it to say. -/
structure SpeechMove (t : SessionPtr) (a : Act) (o o' : Session) : Prop where
  reply : ∀ text, o'.phase = .reply text → o.phase = .reply text ∨ text ∈ answerTexts
  strand : ∀ text, .write text ∈ o'.strand →
    .write text ∈ o.strand ∨ a = .on t (.postWrite text) ∨ text = World.loggedInElsewhere
  posted : o'.posted = o.posted ∨
    (a = .on t .advance ∧ ∃ text, (o.phase = .reply text ∨ text = loginOk) ∧
      o'.posted = o.posted ++ [o.newMessage text]) ∨
    a = .on t .strand ∧ ∃ text, .write text ∈ o.strand ∧ o'.posted = o.posted ++ [o.newMessage text]

section Step
variable {env : Env} {σ σ' : World} {s t : SessionPtr} {a : Act} {o o' : Session}

theorem Mute.move (h : Mute o o') : SpeechMove t a o o' :=
  ⟨fun text ht => Or.inl (h.reply text ht), fun text ht => Or.inl (h.strand text ht), Or.inl h.posted⟩

/-- The handler posts an answer. -/
theorem speechMove_post {text : Bytes} (spoken : o.phase = .reply text ∨ text = loginOk) (cfg : Config)
    {o₁ : Session} (posted : o₁.posted = o.posted) (strand : o₁.strand = o.strand)
    (phase : ∀ text, o₁.phase ≠ .reply text) :
    SpeechMove t (.on t .advance) o (o₁.postWrite cfg text) where
  reply text' h := by
    rw [show (o₁.postWrite cfg text).phase = o₁.phase from
      WriteQueue.postWrite_view SessionControl.phase (fun _ => rfl) cfg text o₁] at h
    exact absurd h (phase text')
  strand text' h := by
    rw [show (o₁.postWrite cfg text).strand = o₁.strand from
      congrArg SessionReader.strand (WriteQueue.postWrite_frame cfg text o₁).2.1, strand] at h
    exact Or.inl h
  posted := by
    refine Or.inr (Or.inl ⟨rfl, text, spoken, ?_⟩)
    rw [WriteQueue.postWrite_posted, Session.newMessage, Session.newMessage, posted]

theorem speechMove_drain (σ : World) (t : SessionPtr) :
    SpeechMove t (.on t .advance) (σ.session t) ((σ.drainStep env t).session t) := by
  unfold World.drainStep
  split
  · rename_i packet mgr _
    dsimp only
    generalize route env _ packet = r
    have hentered : ∀ τ : World, (τ.session t).posted = (σ.session t).posted →
        (τ.session t).strand = (σ.session t).strand →
        SpeechMove t (.on t .advance) (σ.session t) ((τ.enter env t r).session t) := by
      intro τ hposted hstrand
      have hmoved : SpeechMove t (.on t .advance) (σ.session t) ((τ.modify t fun o =>
          { o with handled := o.handled ++ r.handler?.toList, phase := r.phase env }).session t) := by
        rw [World.modify_session_self]
        exact ⟨fun _ h => Or.inr (Route.phase_reply h), fun _ h => Or.inl (hstrand ▸ h), Or.inl hposted⟩
      unfold World.enter
      dsimp only
      split
      · have hclosed := mute_closeSession (τ.modify t fun o =>
          { o with
            handled := o.handled ++ Route.close.handler?.toList, phase := Route.close.phase env }) t t
        exact ⟨fun text h => hmoved.reply text (hclosed.reply text h),
          fun text h => hmoved.strand text (hclosed.strand text h), by
            rw [hclosed.posted]; exact hmoved.posted⟩
      · exact hmoved
    apply hentered
    · rw [World.noteReceived, World.modify_modify, World.modify_session_self]
    · rw [World.noteReceived, World.modify_modify, World.modify_session_self]
  · rename_i mgr _
    have htaken : Mute (σ.session t) ((σ.modify t fun o => { o with msgBufMgr := mgr }).session t) :=
      mute_modify σ t t fun _ => .of_eq rfl rfl rfl
    dsimp only
    split
    · exact ((htaken.trans (mute_setPhase _ t t (by simp))).trans (mute_closeSession _ t t)).move
    · exact ((htaken.trans (mute_setPhase _ t t (by simp))).trans (mute_doRead _ t t env.config)).move

theorem dispatch_notice (σ : World) (s t : SessionPtr) (text : Bytes) :
    let o' := (σ.dispatch s (.write text)).session t
    o'.posted = (σ.session t).posted ∧ o'.phase = (σ.session t).phase ∧
      ∀ text', .write text' ∈ o'.strand → .write text' ∈ (σ.session t).strand ∨
        (t = s ∧ text' = text) := by
  intro o'
  unfold o' World.dispatch
  rw [World.modify_session]
  split
  · rename_i heq
    subst heq
    refine ⟨rfl, rfl, fun text' h => ?_⟩
    rcases List.mem_append.mp h with h | h
    · exact Or.inl h
    · exact Or.inr ⟨rfl, Closure.write.inj (List.mem_singleton.mp h)⟩
  · exact ⟨rfl, rfl, fun _ h => Or.inl h⟩

theorem speechMove_register (σ : World) (s t : SessionPtr) (nickname : String) (a : Act) :
    SpeechMove t a (σ.session t) ((σ.registerStep s nickname).session t) := by
  unfold World.registerStep
  split
  · rename_i prev _
    obtain ⟨hposted, hphase, hstrand⟩ := dispatch_notice σ prev t World.loggedInElsewhere
    have hset : Mute ((σ.dispatch prev (.write World.loggedInElsewhere)).session t)
        (((σ.dispatch prev (.write World.loggedInElsewhere)).setPhase s
          (.loginEvict nickname prev)).session t) :=
      mute_setPhase _ s t (by simp)
    refine ⟨fun text h => ?_, fun text h => ?_, Or.inl (hset.posted.trans hposted)⟩
    · have hreply := hset.reply text h
      rw [hphase] at hreply
      exact Or.inl hreply
    · rcases hstrand text (hset.strand text h) with h | h
      · exact Or.inl h
      · exact Or.inr (Or.inr h.2)
  · exact ((mute_indexNickname σ s t nickname).trans (mute_setPhase _ s t (by simp))).move

theorem mute_evictStep (σ : World) (s t : SessionPtr) (nickname : String) (prev : SessionPtr) :
    Mute (σ.session t) ((σ.evictStep s nickname prev).session t) :=
  ((mute_closeSession σ prev t).trans (mute_indexNickname _ s t nickname)).trans
    (mute_setPhase ((σ.closeSession prev).indexNickname s nickname) s t (by simp))

theorem advance_speechMove (h : Advanced env σ t σ') :
    SpeechMove t (.on t .advance) (σ.session t) (σ'.session t) := by
  cases h with
  | drain at_ => exact speechMove_drain σ t
  | reply text at_ =>
    rw [World.postWrite, World.modify_session_self]
    refine speechMove_post (Or.inl at_) env.config ?_ ?_ ?_
    · rw [World.setPhase, World.modify_session_self]
    · rw [World.setPhase, World.modify_session_self]
    · simp [World.setPhase]
  | lookup nickname at_ =>
    unfold World.lookupStep
    split
    · rw [World.setPhase, World.modify_session_self]
      refine ⟨fun text h => Or.inr ?_, fun _ h => Or.inl h, Or.inl rfl⟩
      cases h
      decide
    · exact (mute_setPhase σ t t (by simp)).move
  | name nickname at_ =>
    have hnamed : Mute (σ.session t) ((σ.setNickname t nickname).session t) :=
      mute_modify σ t t fun _ => .of_eq rfl rfl rfl
    exact (hnamed.trans (mute_setPhase _ t t (by simp))).move
  | ready nickname at_ =>
    have hready : Mute (σ.session t) ((σ.onNicknameRegistered t).session t) :=
      mute_modify σ t t fun _ => .of_eq rfl rfl rfl
    exact (hready.trans (mute_setPhase _ t t (by simp))).move
  | register nickname at_ => exact speechMove_register σ t t nickname _
  | evict nickname prev at_ => exact (mute_evictStep σ t t nickname prev).move
  | ack nickname at_ =>
    have hacked : (((σ.setPhase t .drain).modify t
        fun o => { o with acked := o.acked ++ [nickname] }).session t) =
        { σ.session t with phase := .drain, acked := (σ.session t).acked ++ [nickname] } := by
      rw [World.setPhase, World.modify_modify, World.modify_session_self]
    rw [World.ackLogin, World.postWrite, World.modify_session_self, hacked]
    exact speechMove_post (Or.inr rfl) env.config rfl rfl (by simp)
  | next at_ =>
    exact ((mute_setPhase σ t t (by simp)).trans (mute_modify _ t t mute_runNextTask)).move

theorem event_speechMove {e : Event} (h : Happened env σ t e σ') :
    SpeechMove t (.on t e) (σ.session t) (σ'.session t) := by
  cases h with
  | start at_ => exact ((mute_setPhase σ t t (by simp)).trans (mute_start _ t t)).move
  | strand closure rest queue free =>
    have htaken : (σ.modify t fun o => { o with strand := rest }).session t =
        { σ.session t with strand := rest } :=
      World.modify_session_self ..
    have hrest : ∀ text, Closure.write text ∈ rest → .write text ∈ (σ.session t).strand := by
      intro text h
      rw [queue]
      exact List.mem_cons_of_mem closure h
    cases closure with
    | write text =>
      have hphase : ({ σ.session t with strand := rest }.postWrite env.config text).phase =
        (σ.session t).phase :=
        WriteQueue.postWrite_view SessionControl.phase (fun _ => rfl) env.config text
          { σ.session t with strand := rest }
      rw [World.runClosure, World.postWrite, World.modify_session_self, htaken]
      refine ⟨fun text' h => Or.inl ?_, fun text' h => Or.inl (hrest text' ?_),
        Or.inr (Or.inr ⟨rfl, text, ?_, ?_⟩)⟩
      · exact hphase.symm.trans h
      · rwa [(WriteQueue.postWrite_frame env.config text _).2.1] at h
      · rw [queue]
        exact List.mem_cons_self
      · rw [WriteQueue.postWrite_posted]
        rfl
    | task fn =>
      have hposted := mute_postTask (σ.modify t fun o => { o with strand := rest }) t t env.config fn
      rw [htaken] at hposted
      exact Mute.move ⟨hposted.posted, fun text h => hrest text (hposted.strand text h), hposted.reply⟩
  | readData data _ =>
    rw [World.readData, World.modify_session_self]
    exact Mute.move ⟨rfl, fun _ h => h, fun text h => by cases h⟩
  | readError aborted _ => exact (mute_readError σ t t aborted).move
  | advance advanced => exact advance_speechMove advanced
  | postWrite text =>
    obtain ⟨hposted, hphase, hstrand⟩ := dispatch_notice σ t t text
    refine ⟨fun _ h => Or.inl (hphase.symm.trans h), fun text' h => ?_, Or.inl hposted⟩
    rcases hstrand text' h with h | ⟨_, rfl⟩
    · exact Or.inl h
    · exact Or.inr (Or.inl rfl)
  | writeDone k w ec _ => exact (mute_onWrite σ t t k w ec).move
  | sweep => exact (mute_closeSession { σ with toClose := σ.toClose.erase t } t t).move
  | destroy _ => exact Mute.move (.of_eq rfl rfl rfl)

/-- The other sessions leave a session the notice of an eviction at most. -/
theorem step_speechMove (hs : step env σ a = some σ') (existing : t < σ.nextPtr) :
    SpeechMove t a (σ.session t) (σ'.session t) := by
  rcases step_cases hs with ⟨now, rfl, rfl⟩ | ⟨collected, _, rfl⟩ | ⟨s, e, rfl, _, happened⟩
  · have hview := accept_view (fun o => (o.posted, o.strand, o.phase))
      (fun o => by rw [show o.shut.phase = o.phase from SessionControl.shut_phase _]; rfl) σ now t
    rw [if_neg (Nat.ne_of_lt existing)] at hview
    simp only [Prod.mk.injEq] at hview
    exact Mute.move (.of_eq hview.1 hview.2.1 hview.2.2)
  · exact Mute.move (.of_eq rfl rfl rfl)
  · by_cases hself : s = t
    · exact hself ▸ event_speechMove happened
    · rcases (local_ownSteps s).event happened with hlocal | ⟨_, ⟨n, _, rfl⟩ | ⟨n, prev, _, rfl⟩⟩
      · rw [(hlocal t (Ne.symm hself)).1]
        exact Mute.move (.of_eq rfl rfl rfl)
      · exact speechMove_register σ s t n _
      · exact (mute_evictStep σ s t n prev).move

end Step

/-- All that a session has said, is about to say, or has been told to say. -/
structure Speaks (t : SessionPtr) (acts : List Act) (o : Session) : Prop where
  replying : ∀ text, o.phase = .reply text → text ∈ answerTexts
  waiting : ∀ text, .write text ∈ o.strand →
    text = World.loggedInElsewhere ∨ .on t (.postWrite text) ∈ acts
  posted : ∀ m ∈ o.posted, m.text ∈ answerTexts ∨ m.text = World.loggedInElsewhere ∨
    .on t (.postWrite m.text) ∈ acts

section Run
variable {env : Env} {shardCount : Nat} {acts : List Act} {σ σ' : World} {t : SessionPtr} {a : Act}
    {o o' : Session}

theorem Speaks.move (h : Speaks t acts o) (move : SpeechMove t a o o') : Speaks t (acts ++ [a]) o' where
  replying text ht := (move.reply text ht).elim (h.replying text) id
  waiting text ht := by
    rcases move.strand text ht with hold | rfl | hnotice
    · exact (h.waiting text hold).imp_right (List.mem_append_left [a])
    · exact Or.inr (List.mem_append_right acts (List.mem_singleton_self _))
    · exact Or.inl hnotice
  posted m hm := by
    have hold : ∀ m ∈ o.posted, m.text ∈ answerTexts ∨ m.text = World.loggedInElsewhere ∨
        .on t (.postWrite m.text) ∈ acts ++ [a] :=
      fun m hm => (h.posted m hm).imp_right (Or.imp_right (List.mem_append_left [a]))
    rcases move.posted with hsame | ⟨_, text, hspoken, hposted⟩ | ⟨_, text, hwaiting, hposted⟩
    · exact hold m (hsame ▸ hm)
    · rw [hposted] at hm
      rcases List.mem_append.mp hm with hm | hm
      · exact hold m hm
      · rw [List.mem_singleton.mp hm]
        refine Or.inl (hspoken.elim (h.replying text) fun htext => ?_)
        change text ∈ answerTexts
        rw [htext]
        decide
    · rw [hposted] at hm
      rcases List.mem_append.mp hm with hm | hm
      · exact hold m hm
      · rw [List.mem_singleton.mp hm]
        exact Or.inr ((h.waiting text hwaiting).imp_right (List.mem_append_left [a]))

theorem speaks_of_run (run : exec (step env) (World.init shardCount) acts = some σ)
    (existing : t < σ.nextPtr) :
    Speaks t acts (σ.session t) := by
  refine session_history (H := Speaks t) ?_ ?_ run existing
  · intro acts σ now _ ht _
    have hview := accept_view (fun o => (o.posted, o.strand, o.phase))
      (fun o => by rw [show o.shut.phase = o.phase from SessionControl.shut_phase _]; rfl) σ now t
    rw [if_pos ht] at hview
    simp only [Prod.mk.injEq] at hview
    obtain ⟨hposted, hstrand, hphase⟩ := hview
    refine ⟨fun text h => ?_, fun text h => ?_, fun m h => ?_⟩
    · rw [hphase] at h
      cases h
    · rw [hstrand] at h
      cases h
    · rw [hposted] at h
      cases h
  · exact fun acts σ a σ' _ hexisting h hs => h.move (step_speechMove hs hexisting)

/-- The messages among the effects. -/
def answersGiven (effects : List Effect) : List Message :=
  effects.filterMap fun
    | .gave answer => answer.message?
    | .took _ => none

theorem answersGiven_append (effects effects' : List Effect) :
    answersGiven (effects ++ effects') = answersGiven effects ++ answersGiven effects' :=
  List.filterMap_append

theorem answersGiven_took (packets : List Bytes) : answersGiven (packets.map .took) = [] := by
  simp [answersGiven]

theorem answersGiven_conversation (answers : List (Bytes × PacketAnswer)) (pending : List Bytes) :
    answersGiven (conversation answers ++ pending.map .took) = answers.filterMap
      fun x => x.2.message? := by
  rw [answersGiven_append, answersGiven_took, List.append_nil]
  induction answers with
  | nil => rfl
  | cons x answers ih =>
    rw [List.filterMap_cons, ← ih]
    obtain ⟨packet, answer⟩ := x
    cases answer <;> rfl

theorem answersGiven_effects (o o' : Session) :
    answersGiven (o.effects o') = o'.posted.drop o.posted.length := by
  have hposted : ∀ msgs : List Message, answersGiven (msgs.map fun msg => .gave (.posted msg)) =
      msgs := by
    intro msgs
    induction msgs with
    | nil => rfl
    | cons m msgs ih => exact congrArg (m :: ·) ih
  have hclosed : ∀ n, answersGiven (List.replicate n (.gave .closed)) = [] := by
    simp [answersGiven, PacketAnswer.message?]
  rw [Session.effects, answersGiven_append, answersGiven_append, answersGiven_took, hposted, hclosed,
    List.nil_append, List.append_nil]

/-- Apart from the notices a session has posted the answers of its handler, each as it was given. -/
theorem answers_posted (run : exec (step env) (World.init shardCount) acts = some σ)
    (existing : t < σ.nextPtr)
    (outside : ∀ text, .on t (.postWrite text) ∈ acts → text ∉ answerTexts) :
    (σ.session t).posted.filter (fun m => m.text ∈ answerTexts) =
      answersGiven (handlerEffects env t (World.init shardCount) acts) := by
  revert outside
  refine session_history
    (H := fun acts o => (∀ text, .on t (.postWrite text) ∈ acts → text ∉ answerTexts) →
    o.posted.filter (fun m => m.text ∈ answerTexts) =
      answersGiven (handlerEffects env t (World.init shardCount) acts)) ?_ ?_ run existing
  · intro acts σ now run ht hnone _
    have hposted := accept_view (fun o => o.posted) (fun _ => rfl) σ now t
    rw [if_pos ht] at hposted
    rw [hposted, handlerEffects_concat run rfl, (dialogue_of_run run).2 (Nat.le_of_eq ht.symm),
      stepEffects, if_neg (by simp)]
    rfl
  · intro acts σ a σ' run hexisting h hs outside
    have hbefore := h fun text ht => outside text (List.mem_append_left [a] ht)
    have hspeaks := speaks_of_run run hexisting
    rw [handlerEffects_concat run hs, answersGiven_append, ← hbefore]
    have hanswers : answersGiven (stepEffects env t a (σ.session t) (σ'.session t)) =
        if a = .on t .advance ∧ (σ.session t).processing env.host = true then
          (σ'.session t).posted.drop (σ.session t).posted.length else [] := by
      rw [stepEffects]
      split
      · exact answersGiven_effects _ _
      · rfl
    rw [hanswers]
    rcases (step_speechMove hs hexisting).posted with hsame | ⟨rfl, text, hspoken, hposted⟩ |
      ⟨rfl, text, hwaiting, hposted⟩
    · rw [hsame, List.drop_length, ite_self, List.append_nil]
    · have hmem : text ∈ answerTexts := hspoken.elim (hspeaks.replying text) fun htext => by
        rw [htext]
        decide
      have hprocessing : (σ.session t).processing env.host = true := by
        by_contra hrest
        have hsame := advance_posted (advance_step_cases hs) (Bool.eq_false_iff.mpr hrest)
        rw [hsame] at hposted
        simpa using congrArg List.length hposted
      rw [if_pos ⟨rfl, hprocessing⟩, hposted, List.drop_left, List.filter_append]
      simp [Session.newMessage, hmem]
    · have hnotice : text ∉ answerTexts := by
        rcases hspeaks.waiting text hwaiting with rfl | hout
        · decide
        · exact outside text (List.mem_append_left _ hout)
      rw [if_neg (by simp), hposted, List.filter_append]
      simp [Session.newMessage, hnotice]

end Run

end DBMiddleWare
