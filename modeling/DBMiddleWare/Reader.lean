import DBMiddleWare.DrainBound
import DBMiddleWare.LoginProgress

/-!
# The read of a session

A read is asked for on the strand, waits in the task queue behind the running handler, and
is outstanding until data or an error ends it. Only `start` and the end of the drain loop
ask for one, and only a session that is not between the two has one.
-/

namespace DBMiddleWare

open Execution
set_option autoImplicit false

/-- Before `start`, with a handler at work, and between two handlers. -/
inductive Stage where
  | starting
  | working
  | waiting
  deriving Repr, DecidableEq

def Phase.stage : Phase → Stage
  | .starting => .starting
  | .idle | .next => .waiting
  | _ => .working

theorem inLoop_iff {phase : Phase} : phase.inLoop = true ↔ phase.stage = .working := by
  cases phase <;> simp [Phase.inLoop, Phase.stage]

namespace Session

/-- The reads that are outstanding, queued, or dispatched and not queued yet. -/
def reads (o : Session) : Nat := o.asyncReads + o.taskQueue.count .read + o.strand.count (.task .read)

section Queue
variable (o : Session)

theorem reads_run (fn : Task) : (o.run fn).reads = o.reads + [fn].count .read := by
  cases fn with
  | read =>
    simp only [reads, run, List.count_singleton_self]
    omega
  | call id => rfl

theorem reads_runNextTask : o.runNextTask.reads = o.reads := by
  unfold runNextTask
  cases hqueue : o.taskQueue with
  | nil =>
    dsimp only
    unfold reads
    rw [hqueue]
  | cons fn rest =>
    dsimp only
    rw [reads_run]
    simp only [reads, hqueue, List.count_cons, List.count_nil]
    omega

theorem reads_pushTask (fn : Task) : (o.pushTask fn).reads = o.reads + [fn].count .read := by
  have hpushed : { o with taskQueue := o.taskQueue ++ [fn] }.reads = o.reads + [fn].count .read := by
    simp only [reads, List.count_append]
    omega
  unfold pushTask
  dsimp only
  split
  · exact hpushed
  · rw [reads_runNextTask]
    exact hpushed

end Queue

end Session

/-- The read stays what it is, unless the session is closed. -/
structure Kept (o o' : Session) : Prop where
  reads : o'.reads ≤ o.reads
  same : o'.closed = false → o'.reads = o.reads
  pending : o'.readPending = o.readPending
  closed : o.closed = true → o'.closed = true

/-- The next read is asked for, unless the session is closed. -/
structure Asked (o o' : Session) : Prop where
  reads : o'.reads ≤ o.reads + 1
  one_more : o'.closed = false → o.state ≠ .closed → o.readPending = false →
    o'.reads = o.reads + 1 ∧ o'.readPending = true
  closed : o.closed = true → o'.closed = true

section Moves
variable {o o₁ o₂ : Session}

theorem Kept.of_eq (reads : o₁.reads = o.reads) (pending : o₁.readPending = o.readPending)
    (closed : o₁.closed = o.closed) : Kept o o₁ :=
  ⟨reads.le, fun _ => reads, pending, fun h => closed.trans h⟩

theorem Kept.trans (h : Kept o o₁) (h' : Kept o₁ o₂) : Kept o o₂ where
  reads := h'.reads.trans h.reads
  same hopen := by
    have hopen₁ : o₁.closed = false := Bool.eq_false_iff.mpr fun hclosed => by
      rw [h'.closed hclosed] at hopen
      cases hopen
    rw [h'.same hopen, h.same hopen₁]
  pending := h'.pending.trans h.pending
  closed hclosed := h'.closed (h.closed hclosed)

theorem Asked.of_eq (h : Asked o₁ o₂) (reads : o₁.reads = o.reads)
    (pending : o₁.readPending = o.readPending)
    (control : o₁.state = o.state ∧ o₁.closed = o.closed) : Asked o o₂ where
  reads := reads ▸ h.reads
  one_more hopen hstate hfree := by
    rw [← reads]
    exact h.one_more hopen (control.1 ▸ hstate) (pending ▸ hfree)
  closed hclosed := h.closed (control.2.trans hclosed)

theorem kept_shut (o : Session) : Kept o o.shut where
  reads := Nat.le_refl _
  same _ := rfl
  pending := rfl
  closed _ := o.shut_closed

theorem kept_postWrite (cfg : Config) (text : Bytes) (o : Session) : Kept o (o.postWrite cfg text) := by
  obtain ⟨hcontrol, hreader, _⟩ := WriteQueue.postWrite_frame cfg text o
  have hreads : (o.postWrite cfg text).reads = o.reads := by
    unfold Session.reads
    rw [hreader]
  refine ⟨hreads.le, fun _ => hreads, congrArg SessionReader.readPending hreader, fun hclosed => ?_⟩
  rcases hcontrol with ⟨_, h⟩ | ⟨_, h⟩
  · rw [h]
    exact hclosed
  · rw [h]

theorem kept_runNextTask (o : Session) : Kept o o.runNextTask := by
  have hpending : o.runNextTask.readPending = o.readPending := by
    unfold Session.runNextTask
    split
    · rfl
    · rename_i fn rest _
      cases fn <;> rfl
  exact .of_eq o.reads_runNextTask hpending (congrArg SessionControl.closed (runNextTask_control o))

end Moves

section World
variable {σ : World} {s t : SessionPtr}

theorem kept_modify (σ : World) (s t : SessionPtr) {f : Session → Session} (h : ∀ o, Kept o (f o)) :
    Kept (σ.session t) ((σ.modify s f).session t) := by
  rw [World.modify_session]
  split
  · rename_i heq
    exact heq ▸ h (σ.session s)
  · exact .of_eq rfl rfl rfl

theorem kept_closeSession (σ : World) (s t : SessionPtr) :
    Kept (σ.session t) ((σ.closeSession s).session t) := by
  rw [World.closeSession_session]
  exact kept_modify σ s t kept_shut

theorem kept_setPhase (σ : World) (s : SessionPtr) (phase : Phase) :
    Kept (σ.session s) ((σ.setPhase s phase).session s) :=
  kept_modify σ s s fun _ => .of_eq rfl rfl rfl

theorem kept_indexNickname (σ : World) (s : SessionPtr) (nickname : String) :
    Kept (σ.session s) ((σ.indexNickname s nickname).session s) := by
  rw [World.indexNickname_session]
  exact kept_modify σ s s fun _ => .of_eq rfl rfl rfl

/-- The task takes the read along, or the session is closed. -/
theorem postTask_reads (σ : World) (s : SessionPtr) (cfg : Config) (fn : Task) :
    let o' := (σ.postTask s cfg fn).session s
    o'.reads ≤ (σ.session s).reads + [fn].count .read ∧
    (o'.closed = false → o'.reads = (σ.session s).reads + [fn].count .read) ∧
    o'.readPending = (σ.session s).readPending ∧ ((σ.session s).closed = true → o'.closed = true) := by
  intro o'
  unfold o' World.postTask
  split
  · rw [World.closeSession_session_self]
    refine ⟨Nat.le_add_right _ _, fun hopen => ?_, rfl, fun _ => (σ.session s).shut_closed⟩
    rw [show (σ.session s).shut.closed = true from (σ.session s).shut_closed] at hopen
    cases hopen
  · rw [World.modify_session_self]
    have hpending : ((σ.session s).pushTask fn).readPending = (σ.session s).readPending := by
      unfold Session.pushTask
      dsimp only
      split
      · rfl
      · exact (kept_runNextTask _).pending
    refine ⟨((σ.session s).reads_pushTask fn).le, fun _ => (σ.session s).reads_pushTask fn, hpending,
      fun h => ?_⟩
    rw [pushTask_control]
    exact h

theorem asked_doRead (σ : World) (s : SessionPtr) (cfg : Config) :
    Asked (σ.session s) ((σ.doRead s cfg).session s) := by
  unfold World.doRead
  split
  · rename_i hstate
    exact ⟨Nat.le_succ _, fun _ hne => absurd hstate hne, id⟩
  · split
    · rename_i hpending
      exact ⟨Nat.le_succ _, fun _ _ hfree => absurd hpending (by rw [hfree]; decide), id⟩
    · have hmarked : ((σ.modify s fun o => { o with readPending := true }).session s) =
          { σ.session s with readPending := true } := World.modify_session_self ..
      obtain ⟨hle, hsame, hpending, hclosed⟩ :=
        postTask_reads (σ.modify s fun o => { o with readPending := true }) s cfg .read
      rw [hmarked] at hle hsame hpending hclosed
      exact ⟨hle, fun hopen _ _ => ⟨hsame hopen, hpending⟩, hclosed⟩

theorem asked_start (σ : World) (s : SessionPtr) : Asked (σ.session s) ((σ.start s).session s) := by
  unfold World.start
  split
  · rename_i hstate
    exact ⟨Nat.le_succ _, fun _ hne => absurd hstate hne, id⟩
  · split
    · rename_i hpending
      exact ⟨Nat.le_succ _, fun _ _ hfree => absurd hpending (by rw [hfree]; decide), id⟩
    · have hstarted : ((σ.modify s fun o => { o with readPending := true }).dispatch s
        (.task .read)).session s =
          { σ.session s with readPending := true, strand := (σ.session s).strand ++ [.task .read] } := by
        rw [World.dispatch, World.modify_modify, World.modify_session_self]
      have hreads : (((σ.modify s fun o => { o with readPending := true }).dispatch s
        (.task .read)).session
          s).reads = (σ.session s).reads + 1 := by
        rw [hstarted]
        simp only [Session.reads, List.count_append, List.count_singleton_self]
        omega
      refine ⟨hreads.le, fun _ _ _ => ⟨hreads, ?_⟩, fun hclosed => ?_⟩
      · rw [hstarted]
      · rw [hstarted]
        exact hclosed

end World

/-- What a step can do to the read of a session. -/
inductive ReadMove (env : Env) (t : SessionPtr) (a : Act) (o o' : Session) : Prop where
  | keep (kept : Kept o o') (stage : o'.phase.stage = o.phase.stage)
  /-- `start`, or the end of a drain loop -/
  | ask (asked : Asked o o') (before : o.phase.stage ≠ .waiting) (after : o'.phase.stage = .waiting)
      (valid : a = .on t .advance →
        (o.msgBufMgr.extractMessage env.host).2.lastClearByInvalidLength = false)
  | get (data : Bytes) (act : a = .on t (.readData data)) (reads : o'.reads + 1 = o.reads)
      (released : o'.readPending = false) (at_ : o'.phase = .drain)
  | fail (aborted : Bool) (act : a = .on t (.readError aborted)) (reads : o'.reads + 1 = o.reads)
      (released : o'.readPending = false) (closed : aborted = false → o'.closed = true)
      (at_ : o'.phase = .next)
  /-- the early return -/
  | quit (kept : Kept o o') (at_ : o.phase = .drain)
      (invalid : (o.msgBufMgr.extractMessage env.host).2.lastClearByInvalidLength = true)
      (closed : o'.closed = true) (idle : o'.phase = .idle)

section Step
variable {env : Env} {σ σ' : World} {t : SessionPtr} {a : Act}

theorem ReadMove.goto {phase : Phase} (phase' : Phase) {o o' : Session} (kept : Kept o o')
    (at_ : o.phase = phase) (then_ : o'.phase = phase')
    (same : phase'.stage = phase.stage) : ReadMove env t a o o' :=
  .keep kept (by rw [then_, at_, same])

theorem Remote.kept {o o' : Session} (h : Remote o o') : Kept o o' := by
  cases h with
  | same => exact .of_eq rfl rfl rfl
  | shut => exact kept_shut o
  | notice text =>
    refine .of_eq ?_ rfl rfl
    simp only [Session.reads, List.count_append, List.count_singleton]
    rfl

theorem kept_dispatch (σ : World) (s t : SessionPtr) (text : Bytes) :
    Kept (σ.session t) ((σ.dispatch s (.write text)).session t) :=
  (seen_dispatch σ s t text).1.kept

theorem postWrite_phase (σ : World) (s : SessionPtr) (cfg : Config) (text : Bytes) :
    ((σ.postWrite s cfg text).session s).phase = (σ.session s).phase := by
  rw [World.postWrite, World.modify_session_self]
  exact WriteQueue.postWrite_view SessionControl.phase (fun _ => rfl) cfg text (σ.session s)

theorem drainStep_readMove (at_ : (σ.session t).phase = .drain) :
    ReadMove env t (.on t .advance) (σ.session t) ((σ.drainStep env t).session t) := by
  unfold World.drainStep
  split
  · rename_i packet mgr extract
    have htaken : Kept (σ.session t) (((σ.modify t fun o => { o with msgBufMgr := mgr }).noteReceived t
        packet).session t) := by
      rw [World.noteReceived, World.modify_modify]
      exact kept_modify σ t t fun _ => .of_eq rfl rfl rfl
    generalize (σ.modify t fun o => { o with msgBufMgr := mgr }).noteReceived t packet = τ at htaken
    dsimp only
    generalize route env (τ.session t).nicknameRegistered packet = r
    have hentered : Kept (σ.session t) ((τ.modify t fun o =>
        { o with handled := o.handled ++ r.handler?.toList, phase := r.phase env }).session t) :=
      htaken.trans (kept_modify τ t t fun _ => .of_eq rfl rfl rfl)
    have hphase : ((τ.modify t fun o =>
        { o with handled := o.handled ++ r.handler?.toList, phase := r.phase env }).session t).phase =
        r.phase env := by
      rw [World.modify_session_self]
    have hstage : (r.phase env).stage = .working := inLoop_iff.mp (r.phase_inLoop env)
    unfold World.enter
    dsimp only
    split
    · refine .goto _ (hentered.trans (kept_closeSession _ t t)) at_ ?_ hstage
      rw [World.closeSession_session_self]
      exact (SessionControl.shut_phase _).trans hphase
    · exact .goto _ hentered at_ hphase hstage
  · rename_i mgr extract
    have htaken : ∀ phase,
        ((σ.modify t fun o => { o with msgBufMgr := mgr }).setPhase t phase).session t =
        { σ.session t with msgBufMgr := mgr, phase := phase } := by
      intro phase
      rw [World.setPhase, World.modify_modify, World.modify_session_self]
    have hkept : ∀ phase, Kept (σ.session t)
        (((σ.modify t fun o => { o with msgBufMgr := mgr }).setPhase t phase).session t) := by
      intro phase
      rw [htaken]
      exact .of_eq rfl rfl rfl
    dsimp only
    split
    · rename_i hbad
      refine .quit ((hkept .idle).trans (kept_closeSession _ t t)) at_ (by rw [extract, hbad]) ?_ ?_
      · rw [World.closeSession_session_self]
        exact SessionControl.shut_closed _
      · rw [World.closeSession_session_self]
        exact (SessionControl.shut_phase _).trans (setPhase_phase _ t .idle)
    · rename_i hgood
      have hasked := asked_doRead ((σ.modify t fun o => { o with msgBufMgr := mgr }).setPhase t .next)
        t env.config
      rw [htaken] at hasked
      refine .ask (hasked.of_eq rfl rfl ⟨rfl, rfl⟩) (by rw [at_]; decide) ?_ fun _ => ?_
      · have hloop := loop_untouched.doRead
          ((σ.modify t fun o => { o with msgBufMgr := mgr }).setPhase t .next)
          t t env.config
        rw [congrArg Phase.stage (show (World.session _ t).phase = _ from congrArg Prod.fst hloop)]
        exact congrArg Phase.stage (setPhase_phase _ t .next)
      · rw [extract]
        exact Bool.eq_false_iff.mpr hgood

theorem advance_readMove (h : Advanced env σ t σ') :
    ReadMove env t (.on t .advance) (σ.session t) (σ'.session t) := by
  cases h with
  | drain at_ => exact drainStep_readMove at_
  | reply text at_ =>
    exact .goto .drain ((kept_setPhase σ t .drain).trans
      (kept_modify _ t t fun o => kept_postWrite _ _ o)) at_
      ((postWrite_phase ..).trans (setPhase_phase ..)) rfl
  | lookup nickname at_ =>
    unfold World.lookupStep
    split
    · exact .goto _ (kept_setPhase σ t _) at_ (setPhase_phase ..) rfl
    · exact .goto _ (kept_setPhase σ t _) at_ (setPhase_phase ..) rfl
  | name nickname at_ =>
    have hnamed : Kept (σ.session t) ((σ.setNickname t nickname).session t) :=
      kept_modify σ t t fun _ => .of_eq rfl rfl rfl
    exact .goto _ (hnamed.trans (kept_setPhase _ t _)) at_ (setPhase_phase ..) rfl
  | ready nickname at_ =>
    have hready : Kept (σ.session t) ((σ.onNicknameRegistered t).session t) :=
      kept_modify σ t t fun _ => .of_eq rfl rfl rfl
    exact .goto _ (hready.trans (kept_setPhase _ t _)) at_ (setPhase_phase ..) rfl
  | register nickname at_ =>
    unfold World.registerStep
    split
    · rename_i prev _
      exact .goto _ ((kept_dispatch σ prev t _).trans (kept_setPhase _ t (.loginEvict nickname prev)))
        at_
        (setPhase_phase ..) rfl
    · exact .goto _ ((kept_indexNickname σ t nickname).trans (kept_setPhase _ t _)) at_
        (setPhase_phase ..) rfl
  | evict nickname prev at_ =>
    have hindexed := (kept_closeSession σ prev t).trans
      (kept_indexNickname (σ.closeSession prev) t nickname)
    exact .goto _ (hindexed.trans (kept_setPhase _ t (.loginAck nickname))) at_ (setPhase_phase ..) rfl
  | ack nickname at_ =>
    have hacked : Kept (σ.session t)
        (((σ.setPhase t .drain).modify t
          fun o => { o with acked := o.acked ++ [nickname] }).session t) :=
      (kept_setPhase σ t .drain).trans (kept_modify _ t t fun _ => .of_eq rfl rfl rfl)
    refine .goto .drain (hacked.trans (kept_modify _ t t fun o => kept_postWrite _ _ o)) at_
      ((postWrite_phase ..).trans ?_) rfl
    rw [World.modify_session_self]
    exact setPhase_phase ..
  | next at_ =>
    refine .goto .idle ((kept_setPhase σ t .idle).trans (kept_modify _ t t kept_runNextTask)) at_ ?_ rfl
    rw [World.modify_session_self, runNextTask_control]
    exact setPhase_phase ..

theorem strand_kept {closure : Closure} {rest : List Closure}
    (queue : (σ.session t).strand = closure :: rest) :
    Kept (σ.session t) (((σ.modify t fun o => { o with strand := rest }).runClosure env t
      closure).session t) := by
  have htaken : (σ.modify t fun o => { o with strand := rest }).session t =
      { σ.session t with strand := rest } :=
    World.modify_session_self ..
  cases closure with
  | write text =>
    refine .trans ?_ (kept_modify _ t t fun o => kept_postWrite _ _ o)
    rw [htaken]
    refine .of_eq ?_ rfl rfl
    simp [Session.reads, queue]
  | task fn =>
    obtain ⟨hle, hsame, hpending, hclosed⟩ :=
      postTask_reads (σ.modify t fun o => { o with strand := rest }) t env.config fn
    have hreads : { σ.session t with strand := rest }.reads + [fn].count .read =
      (σ.session t).reads := by
      cases fn with
      | read =>
        simp only [Session.reads, queue, List.count_cons_self, List.count_nil]
        omega
      | call id => simp [Session.reads, queue]
    rw [htaken] at hle hsame hpending hclosed
    rw [hreads] at hle hsame
    exact ⟨hle, hsame, hpending, hclosed⟩

theorem runClosure_phase (closure : Closure) (rest : List Closure) :
    (((σ.modify t fun o => { o with strand := rest }).runClosure env t closure).session t).phase =
      (σ.session t).phase := by
  have htaken : ((σ.modify t fun o => { o with strand := rest }).session t).phase =
    (σ.session t).phase :=
    World.modify_view σ t t _ (fun o => o.phase) fun _ => rfl
  cases closure with
  | write text => exact (postWrite_phase ..).trans htaken
  | task fn => exact (congrArg Prod.fst (loop_untouched.postTask _ t t env.config fn)).trans htaken

theorem onWrite_kept (k : Nat) (w : PendingWrite) (ec : Bool) :
    Kept (σ.session t) ((σ.onWrite t k w ec).session t) := by
  have htaken : Kept (σ.session t) ((σ.modify t (Session.takeWrite k)).session t) :=
    kept_modify σ t t fun _ => .of_eq rfl rfl rfl
  unfold World.onWrite
  dsimp only
  split
  · exact htaken
  · split
    · exact htaken.trans (kept_closeSession _ t t)
    · refine htaken.trans (kept_modify _ t t fun o => ?_)
      obtain ⟨hcontrol, hreader, _⟩ :=
        WriteQueue.doWriteQueue_frame { o with sent := o.sent ++ [w.msg] }.pop
      refine .of_eq ?_ (congrArg SessionReader.readPending hreader)
        (congrArg SessionControl.closed hcontrol)
      exact congrArg (fun r : SessionReader => r.asyncReads + r.taskQueue.count .read +
        r.strand.count (.task .read)) hreader

theorem event_readMove {e : Event} (h : σ.event env t e = some σ') :
    ReadMove env t (.on t e) (σ.session t) (σ'.session t) := by
  have hends : (σ.session t).asyncReads ≠ 0 →
      ∀ o : Session, o.asyncReads = (σ.session t).asyncReads - 1 →
      o.taskQueue = (σ.session t).taskQueue → o.strand = (σ.session t).strand →
      o.reads + 1 = (σ.session t).reads := by
    intro hpending o hreads hqueue hstrand
    unfold Session.reads
    rw [hreads, hqueue, hstrand]
    omega
  cases e with
  | start =>
    simp only [World.event, Option.ite_none_right_eq_some, Option.some.injEq] at h
    obtain ⟨at_, rfl⟩ := h
    have hidle : (σ.setPhase t .idle).session t = { σ.session t with phase := .idle } :=
      World.modify_session_self ..
    have hasked := asked_start (σ.setPhase t .idle) t
    rw [hidle] at hasked
    refine .ask (hasked.of_eq rfl rfl ⟨rfl, rfl⟩) (by rw [at_]; decide) ?_ (by simp)
    have hloop := loop_untouched.start (σ.setPhase t .idle) t t
    rw [congrArg Phase.stage (show (World.session _ t).phase = _ from congrArg Prod.fst hloop)]
    exact congrArg Phase.stage (setPhase_phase σ t .idle)
  | strand =>
    cases event_cases h with
    | strand closure rest queue free =>
      exact .keep (strand_kept queue) (congrArg Phase.stage (runClosure_phase closure rest))
  | readData data =>
    simp only [World.event, Option.ite_none_right_eq_some, Option.some.injEq] at h
    obtain ⟨⟨_, hpending, _⟩, rfl⟩ := h
    rw [World.readData, World.modify_session_self]
    exact .get data rfl (hends hpending _ rfl rfl rfl) rfl rfl
  | readError aborted =>
    simp only [World.event, Option.ite_none_right_eq_some, Option.some.injEq] at h
    obtain ⟨⟨_, hpending⟩, rfl⟩ := h
    have hnext : (σ.modify t fun o =>
        { o with asyncReads := o.asyncReads - 1, readPending := false, phase := .next }).session t =
        { σ.session t with
          asyncReads := (σ.session t).asyncReads - 1, readPending := false, phase := .next } :=
      World.modify_session_self ..
    unfold World.readError
    dsimp only
    split
    · rename_i haborted
      rw [hnext]
      exact .fail aborted rfl (hends hpending _ rfl rfl rfl)
        rfl (fun h => by rw [haborted] at h; cases h) rfl
    · rw [World.closeSession_session_self, hnext]
      exact .fail aborted rfl (hends hpending _ rfl rfl rfl) rfl (fun _ => SessionControl.shut_closed _)
        (SessionControl.shut_phase _)
  | advance => exact advance_readMove (advance_cases h)
  | postWrite text =>
    simp only [World.event, Option.some.injEq] at h
    subst h
    have hphase : ((σ.dispatch t (.write text)).session t).phase = (σ.session t).phase :=
      World.modify_view σ t t _ (fun o => o.phase) fun _ => rfl
    exact .keep (kept_dispatch σ t t text) (congrArg Phase.stage hphase)
  | writeDone k ec =>
    cases event_cases h with
    | writeDone _ w _ _ =>
      exact .keep (onWrite_kept k w ec) (congrArg Phase.stage (onWrite_phase σ t k w ec))
  | sweep =>
    simp only [World.event, Option.ite_none_right_eq_some, Option.some.injEq] at h
    obtain ⟨_, rfl⟩ := h
    refine .keep (kept_closeSession { σ with toClose := σ.toClose.erase t } t t) ?_
    rw [World.closeSession_session_self]
    exact congrArg Phase.stage (SessionControl.shut_phase _)
  | destroy =>
    cases event_cases h with
    | destroy _ => exact .keep (.of_eq rfl rfl rfl) rfl

theorem ReadMove.begun {o o' : Session} (move : ReadMove env t a o o') (h : o.phase ≠ .starting) :
    o'.phase ≠ .starting := by
  have hstage : ∀ phase : Phase, phase.stage = .starting ↔ phase = .starting := by
    intro phase
    cases phase <;> simp [Phase.stage]
  cases move with
  | keep _ stage =>
    intro hstarting
    exact h ((hstage _).mp (stage.symm.trans ((hstage _).mpr hstarting)))
  | ask _ _ after _ =>
    intro hstarting
    cases after.symm.trans ((hstage _).mpr hstarting)
  | get data _ _ _ at_ => simp [at_]
  | fail aborted _ _ _ _ at_ => simp [at_]
  | quit _ _ _ _ idle => simp [idle]

/-- What a step of the server does to the read of a session that has been accepted. -/
theorem step_readMove (hs : step env σ a = some σ') (existing : t < σ.nextPtr) :
    ReadMove env t a (σ.session t) (σ'.session t) := by
  by_cases hself : ∃ e, a = .on t e
  · obtain ⟨e, rfl⟩ := hself
    simp only [step, Option.ite_none_right_eq_some] at hs
    exact event_readMove hs.2
  · have hseen := (step_seen hs existing fun e he => hself ⟨e, he⟩).1
    exact .keep hseen.kept (congrArg Phase.stage hseen.phase_eq)

end Step

section Run
variable {env : Env} {shardCount : Nat} {acts : List Act} {σ : World} {t : SessionPtr}

theorem accept_view {α : Type} (view : Session → α) (h : ∀ o, view o.shut = view o) (σ : World)
    (now : Int) (t : SessionPtr) : view ((σ.accept now).session t) =
      if t = σ.nextPtr then view (.new σ.sessionCounter now) else view (σ.session t) := by
  have hnew : view (Function.update σ.session σ.nextPtr (.new σ.sessionCounter now) t) =
      if t = σ.nextPtr then view (.new σ.sessionCounter now) else view (σ.session t) := by
    by_cases ht : t = σ.nextPtr
    · rw [ht, Function.update_self, if_pos rfl]
    · rw [Function.update_of_ne ht, if_neg ht]
  rw [World.accept]
  rcases addSession_cases _ σ.nextPtr with heq | ⟨r, _, heq⟩
  · rw [heq]
    exact hnew
  · rw [heq, World.closeSession_view _ r t view h]
    exact hnew

/-- What holds of a session when it is accepted, and is preserved with each step, holds of it with every
history that has led to it. -/
theorem session_history {H : List Act → Session → Prop}
    (created : ∀ acts σ now, exec (step env) (World.init shardCount) acts = some σ → t = σ.nextPtr →
      (∀ e, .on t e ∉ acts) → H (acts ++ [.accept now]) ((σ.accept now).session t))
    (preserved : ∀ acts σ a σ', exec (step env) (World.init shardCount) acts = some σ → t < σ.nextPtr →
      H acts (σ.session t) → step env σ a = some σ' → H (acts ++ [a]) (σ'.session t))
    (run : exec (step env) (World.init shardCount) acts = some σ) (existing : t < σ.nextPtr) :
    H acts (σ.session t) := by
  revert existing
  refine (history_invariant (H := fun acts σ => (t < σ.nextPtr → H acts (σ.session t)) ∧
    (σ.nextPtr ≤ t → ∀ e, .on t e ∉ acts)) ?_ ?_ run).1
  · exact ⟨fun h => absurd h (Nat.not_lt_zero t), fun _ _ => List.not_mem_nil⟩
  · intro acts σ a σ' run ⟨hhistory, hnone⟩ hs
    by_cases hexisting : t < σ.nextPtr
    · refine ⟨fun _ => preserved acts σ a σ' run hexisting (hhistory hexisting) hs, fun habsent => ?_⟩
      exact absurd (Nat.lt_of_lt_of_le hexisting (nextPtr_le_of_step hs)) (Nat.not_lt_of_le habsent)
    · have habsent := Nat.le_of_not_lt hexisting
      constructor
      · intro hcreated
        obtain ⟨now, rfl, ht, rfl⟩ := created_of_step hs habsent hcreated
        exact created acts σ now run ht (hnone habsent)
      · intro _ e hmem
        rcases List.mem_append.mp hmem with hold | hlast
        · exact hnone habsent e hold
        · obtain rfl := List.mem_singleton.mp hlast
          simp only [step, Option.ite_none_right_eq_some] at hs
          exact hexisting ((known_of_run run).live t hs.1)

/-- A session has one read at most, and none while its handler works. -/
structure OneRead (o : Session) : Prop where
  one : o.reads ≤ 1
  working : o.phase.stage ≠ .waiting → o.reads = 0 ∧ o.readPending = false

theorem OneRead.move {a : Act} {o o' : Session} (h : OneRead o) (move : ReadMove env t a o o') :
    OneRead o' := by
  cases move with
  | keep kept stage =>
    refine ⟨kept.reads.trans h.one, fun hworking => ?_⟩
    obtain ⟨hreads, hpending⟩ := h.working (stage ▸ hworking)
    exact ⟨Nat.le_zero.mp (hreads ▸ kept.reads), kept.pending.trans hpending⟩
  | ask asked before after valid =>
    refine ⟨?_, fun hworking => ?_⟩
    · have hreads := asked.reads
      rw [(h.working before).1] at hreads
      exact hreads
    · exact absurd after hworking
  | get data act reads released at_ =>
    have hone := h.one
    exact ⟨by omega, fun _ => ⟨by omega, released⟩⟩
  | fail aborted act reads released closed at_ =>
    have hone := h.one
    exact ⟨by omega, fun _ => ⟨by omega, released⟩⟩
  | quit kept at_ invalid closed idle =>
    refine ⟨kept.reads.trans h.one, fun hworking => ?_⟩
    exact absurd (congrArg Phase.stage idle) hworking

theorem oneRead_of_run (run : exec (step env) (World.init shardCount) acts = some σ)
    (existing : t < σ.nextPtr) :
    OneRead (σ.session t) := by
  refine session_history (H := fun _ o => OneRead o) ?_ ?_ run existing
  · intro acts σ now _ ht _
    have hview := accept_view (fun o => (o.reads, o.readPending)) (fun _ => rfl) σ now t
    rw [if_pos ht] at hview
    obtain ⟨hreads, hpending⟩ := Prod.mk.inj hview
    exact ⟨hreads ▸ Nat.zero_le 1, fun _ => ⟨hreads, hpending⟩⟩
  · exact fun acts σ a σ' _ hexisting h hs => h.move (step_readMove hs hexisting)

end Run

end DBMiddleWare
