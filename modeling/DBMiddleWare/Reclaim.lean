import DBMiddleWare.Serving

/-!
# The end of a session

A session that is registered nowhere lives on in what is under way for it: closures on its
strand, its task queue, reads and writes. When its socket has been closed all of this comes
to an end, and nothing keeps the session from being destroyed.
-/

namespace DBMiddleWare

open Execution Control WriteQueue
set_option autoImplicit false

/-- The task queue, and what is waiting on the strand. -/
def Session.queues (o : Session) : List Task × Bool × List Closure :=
  (o.taskQueue, o.taskRunning, o.strand)

/-- Only the one read of the session is ever queued: it waits for the read handler to end, and no
task has run before the first one. -/
structure Tasks (o : Session) : Prop where
  reads : ∀ fn, fn ∈ o.taskQueue ∨ .task fn ∈ o.strand → fn = .read
  waits : o.taskQueue ≠ [] → o.phase = .next
  first : o.phase = .starting ∨ .task .read ∈ o.strand → o.taskRunning = false

section Queues
variable {o o' : Session}

theorem queues_eq_iff {queue : List Task} {running : Bool} {strand : List Closure} :
    o.queues = (queue, running, strand) ↔ o.taskQueue = queue ∧ o.taskRunning = running ∧
    o.strand = strand := by
  simp only [Session.queues, Prod.mk.injEq]

theorem queues_of_reader (h : o'.toSessionReader = o.toSessionReader) : o'.queues = o.queues :=
  congrArg (fun r : SessionReader => (r.taskQueue, r.taskRunning, r.strand)) h

theorem queues_postWrite (cfg : Config) (text : Bytes) (o : Session) :
    (o.postWrite cfg text).queues = o.queues :=
  queues_of_reader (postWrite_frame cfg text o).2.1

theorem queues_run (fn : Task) (o : Session) : (o.run fn).queues = o.queues := by
  cases fn with
  | read => rfl
  | call id => rfl

/-- With an empty queue a task starts, or waits alone. -/
theorem queues_pushTask (h : o.taskQueue = []) (fn : Task) :
    (o.pushTask fn).queues = (if o.taskRunning then [fn] else [], true, o.strand) := by
  unfold Session.pushTask
  dsimp only
  cases hrunning : o.taskRunning with
  | true =>
    simp only [if_true, Session.queues, h, List.nil_append]
  | false =>
    simp only [Bool.false_eq_true, if_false, Session.runNextTask, h, List.nil_append]
    rw [queues_run]
    rfl

theorem pushTask_starts (h : o.taskQueue = []) (idle : o.taskRunning = false) (fn : Task) :
    (o.pushTask fn).taskQueue = [] ∧ (o.pushTask fn).strand = o.strand := by
  have hpushed := queues_pushTask h fn
  rw [idle, if_neg Bool.false_ne_true] at hpushed
  obtain ⟨hqueue, _, hstrand⟩ := queues_eq_iff.mp hpushed
  exact ⟨hqueue, hstrand⟩

theorem queues_runNextTask (o : Session) :
    (o.taskQueue = [] ∧ o.runNextTask.queues = ([], false, o.strand)) ∨
    ∃ fn rest, o.taskQueue = fn :: rest ∧ o.runNextTask.queues = (rest, o.taskRunning, o.strand) := by
  unfold Session.runNextTask
  cases hqueue : o.taskQueue with
  | nil => exact Or.inl ⟨rfl, by simp only [Session.queues]⟩
  | cons fn rest => exact Or.inr ⟨fn, rest, rfl, queues_run fn _⟩

theorem Tasks.of_queues (h : Tasks o) (queues : o'.queues = o.queues)
    (next : o.phase = .next → o'.phase = .next)
    (started : o'.phase = .starting → o.phase = .starting) : Tasks o' := by
  obtain ⟨hqueue, hrunning, hstrand⟩ := queues_eq_iff.mp queues
  refine ⟨fun fn hfn => h.reads fn ?_, fun hne => next (h.waits (hqueue ▸ hne)), fun hfirst => ?_⟩
  · rw [hqueue, hstrand] at hfn
    exact hfn
  · rw [hrunning]
    rw [hstrand] at hfirst
    exact h.first (hfirst.imp_left started)

theorem Tasks.remote (h : Tasks o) (remote : Remote o o') : Tasks o' := by
  cases remote with
  | same => exact h
  | shut => exact h.of_queues rfl (fun hp => (SessionControl.shut_phase _).trans hp) fun hp =>
      (SessionControl.shut_phase _).symm.trans hp
  | notice text =>
    refine ⟨fun fn hfn => h.reads fn ?_, h.waits, fun hfirst => h.first ?_⟩
    · simpa using hfn
    · simpa using hfirst

end Queues

section Step
variable {env : Env} {σ σ' : World} {s t : SessionPtr} {a : Act} {o : Session}

theorem modify_queues (σ : World) (s t : SessionPtr) {f : Session → Session}
    (h : ∀ o, (f o).queues = o.queues) :
    ((σ.modify s f).session t).queues = (σ.session t).queues :=
  World.modify_view σ s t f Session.queues h

theorem setPhase_queues (σ : World) (s t : SessionPtr) (phase : Phase) :
    ((σ.setPhase s phase).session t).queues = (σ.session t).queues := modify_queues σ s t fun _ => rfl

theorem indexNickname_queues (σ : World) (s t : SessionPtr) (nickname : String) :
    ((σ.indexNickname s nickname).session t).queues = (σ.session t).queues :=
  World.indexNickname_view σ s t nickname Session.queues fun _ _ => rfl

theorem closeSession_queues (σ : World) (s t : SessionPtr) :
    ((σ.closeSession s).session t).queues = (σ.session t).queues :=
  World.closeSession_view σ s t Session.queues fun _ => rfl

theorem postWrite_queues (σ : World) (s : SessionPtr) (cfg : Config) (text : Bytes) :
    ((σ.postWrite s cfg text).session s).queues = (σ.session s).queues :=
  modify_queues σ s s (queues_postWrite cfg text)

/-- The steps of a login and of an answer do not touch the queues of their session. -/
theorem advance_queues (h : Advanced env σ s σ') (answering : (σ.session s).phase ≠ .drain)
    (working : (σ.session s).phase ≠ .next) : (σ'.session s).queues = (σ.session s).queues := by
  cases h with
  | drain at_ => exact absurd at_ answering
  | next at_ => exact absurd at_ working
  | reply text at_ => exact (postWrite_queues ..).trans (setPhase_queues ..)
  | lookup nickname at_ =>
    unfold World.lookupStep
    split
    · exact setPhase_queues ..
    · exact setPhase_queues ..
  | name nickname at_ => exact (setPhase_queues ..).trans (modify_queues σ s s fun _ => rfl)
  | ready nickname at_ => exact (setPhase_queues ..).trans (modify_queues σ s s fun _ => rfl)
  | register nickname at_ =>
    unfold World.registerStep
    split
    · rename_i prev hprev
      have hother : s ≠ prev := by
        have hne := (Option.filter_eq_some_iff.mp hprev).2
        exact fun heq => by simp [heq] at hne
      refine (setPhase_queues _ s s (.loginEvict nickname prev)).trans ?_
      rw [World.dispatch, World.modify_session, if_neg hother]
    · exact (setPhase_queues ..).trans (indexNickname_queues ..)
  | evict nickname prev at_ =>
    refine (setPhase_queues _ s s (.loginAck nickname)).trans ?_
    exact (indexNickname_queues ..).trans (closeSession_queues σ prev s)
  | ack nickname at_ =>
    refine (postWrite_queues ..).trans ((modify_queues (σ.setPhase s .drain) s s ?_).trans
      (setPhase_queues ..))
    exact fun _ => rfl

theorem doRead_queues (cfg : Config) (empty : (σ.session s).taskQueue = []) :
    ((σ.doRead s cfg).session s).queues = (σ.session s).queues ∨
    ((σ.doRead s cfg).session s).queues =
      (if (σ.session s).taskRunning then [.read] else [], true, (σ.session s).strand) := by
  unfold World.doRead
  split
  · exact Or.inl rfl
  · split
    · exact Or.inl rfl
    · have hmarked : (σ.modify s fun o => { o with readPending := true }).session s =
          { σ.session s with readPending := true } := World.modify_session_self ..
      unfold World.postTask
      split
      · rw [closeSession_queues, hmarked]
        exact Or.inl rfl
      · rw [World.modify_session_self, hmarked]
        exact Or.inr (queues_pushTask (o := { σ.session s with readPending := true }) empty .read)

/-- The drain loop ends with the next read in the queue at most. -/
theorem drainStep_queues (env : Env) (empty : (σ.session s).taskQueue = []) :
    ((σ.drainStep env s).session s).queues = (σ.session s).queues ∨
    ((σ.drainStep env s).session s).phase = .next ∧ ((σ.drainStep env s).session s).queues =
      (if (σ.session s).taskRunning then [.read] else [], true, (σ.session s).strand) := by
  unfold World.drainStep
  split
  · rename_i packet mgr extract
    dsimp only
    have htaken : ((World.noteReceived (σ.modify s fun o => { o with msgBufMgr := mgr })
        s packet).session s).queues = (σ.session s).queues := by
      rw [World.noteReceived, World.modify_modify]
      exact modify_queues σ s s fun _ => rfl
    generalize World.noteReceived (σ.modify s fun o => { o with msgBufMgr := mgr })
      s packet = τ at htaken
    generalize route env (τ.session s).nicknameRegistered packet = r
    have hentered : ((τ.modify s fun o =>
        { o with handled := o.handled ++ r.handler?.toList, phase := r.phase env }).session s).queues =
        (σ.session s).queues := by
      refine (modify_queues τ s s ?_).trans htaken
      exact fun _ => rfl
    unfold World.enter
    dsimp only
    split
    · exact Or.inl ((closeSession_queues ..).trans hentered)
    · exact Or.inl hentered
  · rename_i mgr extract
    dsimp only
    have htaken : ∀ phase,
        ((σ.modify s fun o => { o with msgBufMgr := mgr }).setPhase s phase).session s =
        { σ.session s with msgBufMgr := mgr, phase := phase } := by
      intro phase
      rw [World.setPhase, World.modify_modify, World.modify_session_self]
    split
    · rw [closeSession_queues, htaken]
      exact Or.inl rfl
    · have hloop := loop_untouched.doRead
        ((σ.modify s fun o => { o with msgBufMgr := mgr }).setPhase s .next) s s env.config
      have hread := doRead_queues
        (σ := (σ.modify s fun o => { o with msgBufMgr := mgr }).setPhase s .next) (s := s)
        env.config (by rw [htaken]; exact empty)
      rw [htaken] at hloop hread
      exact hread.imp_right fun h => ⟨(loop_eq_iff.mp hloop).1, h⟩

theorem Advanced.begun (h : Advanced env σ s σ') : (σ.session s).phase ≠ .starting := by
  intro hstarting
  cases h with
  | drain at_ => cases hstarting.symm.trans at_
  | reply text at_ => cases hstarting.symm.trans at_
  | lookup nickname at_ => cases hstarting.symm.trans at_
  | name nickname at_ => cases hstarting.symm.trans at_
  | ready nickname at_ => cases hstarting.symm.trans at_
  | register nickname at_ => cases hstarting.symm.trans at_
  | evict nickname prev at_ => cases hstarting.symm.trans at_
  | ack nickname at_ => cases hstarting.symm.trans at_
  | next at_ => cases hstarting.symm.trans at_

theorem Tasks.none_of_reads (h : Tasks o) (none : o.reads = 0) :
    o.taskQueue = [] ∧ ∀ fn, .task fn ∉ o.strand := by
  unfold Session.reads at none
  constructor
  · rw [List.eq_nil_iff_forall_not_mem]
    intro fn hfn
    obtain rfl := h.reads fn (Or.inl hfn)
    have hpos := List.count_pos_iff.mpr hfn
    omega
  · intro fn hfn
    obtain rfl := h.reads fn (Or.inr hfn)
    have hpos := List.count_pos_iff.mpr hfn
    omega

/-- The task queue holds one read at most, and none of them is on the strand then. -/
theorem Tasks.queue_of_one (h : Tasks o) (one : o.reads ≤ 1) {fn : Task} {rest : List Task}
    (queue : o.taskQueue = fn :: rest) : rest = [] ∧ .task .read ∉ o.strand := by
  unfold Session.reads at one
  have hreads : o.taskQueue.count .read = o.taskQueue.length :=
    List.count_eq_length.mpr fun f hf => (h.reads f (Or.inl hf)).symm
  rw [hreads, queue, List.length_cons] at one
  refine ⟨List.length_eq_zero_iff.mp (by omega), fun hmem => ?_⟩
  have hpos := List.count_pos_iff.mpr hmem
  omega

theorem Tasks.advance (h : Tasks (σ.session s)) (one : OneRead (σ.session s))
    (hs : Advanced env σ s σ') :
    Tasks (σ'.session s) := by
  have hbegun := (advance_readMove hs).begun hs.begun
  have hother : (σ.session s).phase ≠ .drain → (σ.session s).phase ≠ .next → Tasks (σ'.session s) := by
    intro hanswering hworking
    have hsame := advance_queues hs hanswering hworking
    exact h.of_queues hsame (fun hp => absurd hp hworking) fun hp => absurd hp hbegun
  cases hs with
  | drain at_ =>
    have hnone := h.none_of_reads (one.working (by rw [at_]; decide)).1
    rcases drainStep_queues env hnone.1 with hsame | ⟨hnext, hqueued⟩
    · exact h.of_queues hsame (fun hp => by cases hp.symm.trans at_) fun hp => absurd hp hbegun
    · obtain ⟨hqueue, hrunning, hstrand⟩ := queues_eq_iff.mp hqueued
      refine ⟨fun fn hfn => ?_, fun _ => hnext, fun hfirst => ?_⟩
      · rw [hqueue, hstrand] at hfn
        rcases hfn with hfn | hfn
        · split at hfn
          · exact List.mem_singleton.mp hfn
          · cases hfn
        · exact absurd hfn (hnone.2 fn)
      · rw [hstrand] at hfirst
        exact absurd (hfirst.resolve_left hbegun) (hnone.2 .read)
  | next at_ =>
    have hsession : ((σ.setPhase s .idle).modify s Session.runNextTask).session s =
        { σ.session s with phase := .idle }.runNextTask := by
      rw [World.modify_session_self]
      exact congrArg Session.runNextTask (World.modify_session_self ..)
    rw [hsession] at hbegun ⊢
    have hstrand : ∀ fn, .task fn ∈ (σ.session s).strand →
        fn = .read := fun fn hfn => h.reads fn (Or.inr hfn)
    rcases queues_runNextTask { σ.session s with phase := .idle } with ⟨_, hdone⟩ | ⟨fn, rest,
      hqueue, hdone⟩
    · obtain ⟨hempty, hrunning, hkept⟩ := queues_eq_iff.mp hdone
      refine ⟨fun fn hfn => ?_, fun hne => absurd hempty hne, fun _ => hrunning⟩
      rw [hempty, hkept] at hfn
      exact hstrand fn (hfn.resolve_left List.not_mem_nil)
    · obtain ⟨rfl, hnone⟩ := h.queue_of_one one.one hqueue
      obtain ⟨hempty, _, hkept⟩ := queues_eq_iff.mp hdone
      refine ⟨fun fn hfn => ?_, fun hne => absurd hempty hne, fun hfirst => ?_⟩
      · rw [hempty, hkept] at hfn
        exact hstrand fn (hfn.resolve_left List.not_mem_nil)
      · rw [hkept] at hfirst
        exact absurd (hfirst.resolve_left hbegun) hnone
  | reply text at_ => exact hother (by simp [at_]) (by simp [at_])
  | lookup nickname at_ => exact hother (by simp [at_]) (by simp [at_])
  | name nickname at_ => exact hother (by simp [at_]) (by simp [at_])
  | ready nickname at_ => exact hother (by simp [at_]) (by simp [at_])
  | register nickname at_ => exact hother (by simp [at_]) (by simp [at_])
  | evict nickname prev at_ => exact hother (by simp [at_]) (by simp [at_])
  | ack nickname at_ => exact hother (by simp [at_]) (by simp [at_])

theorem start_queues (σ : World) (s : SessionPtr) :
    ((σ.start s).session s).queues = (σ.session s).queues ∨
    ((σ.start s).session s).queues =
      ((σ.session s).taskQueue, (σ.session s).taskRunning, (σ.session s).strand ++ [.task .read]) := by
  unfold World.start
  split
  · exact Or.inl rfl
  · split
    · exact Or.inl rfl
    · rw [World.dispatch, World.modify_modify, World.modify_session_self]
      exact Or.inr rfl

theorem onWrite_queues (σ : World) (s : SessionPtr) (k : Nat) (w : PendingWrite) (ec : Bool) :
    ((σ.onWrite s k w ec).session s).queues = (σ.session s).queues := by
  have htaken : ((σ.modify s (Session.takeWrite k)).session s).queues = (σ.session s).queues :=
    modify_queues σ s s fun _ => rfl
  unfold World.onWrite
  dsimp only
  split
  · exact htaken
  · split
    · exact (closeSession_queues ..).trans htaken
    · refine (modify_queues _ s s fun o => ?_).trans htaken
      exact (queues_of_reader
        (doWriteQueue_frame { o with sent := o.sent ++ [w.msg] }.pop).2.1).trans rfl

/-- A closure leaves the strand: a write, or the first read, which starts at once. -/
theorem strand_queues {closure : Closure} {rest : List Closure} (h : Tasks (σ.session s))
    (one : OneRead (σ.session s)) (queue : (σ.session s).strand = closure :: rest)
    (free : (σ.session s).strandFree = true) :
    Tasks (((σ.modify s fun o => { o with strand := rest }).runClosure env s closure).session s) ∧
    (((σ.modify s fun o => { o with strand := rest }).runClosure env s closure).session s).strand =
    rest := by
  have htaken : (σ.modify s fun o => { o with strand := rest }).session s =
      { σ.session s with strand := rest } :=
    World.modify_session_self ..
  have hphase : (((σ.modify s fun o => { o with strand := rest }).runClosure env s closure).session
      s).phase = (σ.session s).phase := runClosure_phase closure rest
  have hrest : Tasks { σ.session s with strand := rest } := by
    have hmem : ∀ fn, .task fn ∈ rest → .task fn ∈ (σ.session s).strand := fun fn hfn =>
      queue ▸ List.mem_cons_of_mem closure hfn
    exact ⟨fun fn hfn => h.reads fn (hfn.imp_right (hmem fn)), h.waits, fun hfirst =>
      h.first (hfirst.imp_right (hmem .read))⟩
  have hkept : ∀ o' : Session, o'.queues = { σ.session s with strand := rest }.queues →
      o'.phase = (σ.session s).phase → Tasks o' ∧ o'.strand = rest := fun o' hqueues hp =>
    ⟨hrest.of_queues hqueues (fun hnext => hp.trans hnext) fun hstarting => hp.symm.trans hstarting,
      (queues_eq_iff.mp hqueues).2.2⟩
  cases closure with
  | write text =>
    refine hkept _ ?_ hphase
    exact (postWrite_queues ..).trans (congrArg Session.queues htaken)
  | task fn =>
    obtain rfl : fn = .read := h.reads fn (Or.inr (queue ▸ List.mem_cons_self))
    have hreads : 0 < (σ.session s).strand.count (.task .read) :=
      List.count_pos_iff.mpr (queue ▸ List.mem_cons_self)
    have hone := one.one
    unfold World.runClosure World.postTask at hphase ⊢
    dsimp only at hphase ⊢
    split
    · rename_i hfull
      rw [if_pos hfull] at hphase
      refine hkept _ ?_ hphase
      exact (closeSession_queues ..).trans (congrArg Session.queues htaken)
    · rename_i hroom
      rw [if_neg hroom] at hphase
      have hrunning : (σ.session s).taskRunning = false := h.first (Or.inr (queue ▸ List.mem_cons_self))
      have hempty : (σ.session s).taskQueue = [] := by
        by_contra hne
        rw [SessionControl.strandFree, h.waits hne] at free
        cases free
      rw [World.modify_session_self, htaken] at hphase ⊢
      obtain ⟨hqueue', hstrand'⟩ :=
        pushTask_starts (o := { σ.session s with strand := rest }) hempty hrunning .read
      refine ⟨⟨fun fn hfn => ?_, fun hne => absurd hqueue' hne, fun hfirst => ?_⟩, hstrand'⟩
      · rw [hqueue', hstrand'] at hfn
        exact hrest.reads fn (Or.inr (hfn.resolve_left List.not_mem_nil))
      · exfalso
        rw [hphase, hstrand'] at hfirst
        rcases hfirst with hstarting | hmem
        · have hnone := (one.working (by rw [hstarting]; decide)).1
          unfold Session.reads at hnone
          omega
        · have hpos : 0 < rest.count (.task .read) := List.count_pos_iff.mpr hmem
          rw [Session.reads, queue, List.count_cons_self] at hone
          omega

theorem Tasks.event {e : Event} (h : Tasks (σ.session s)) (one : OneRead (σ.session s))
    (hs : σ.event env s e = some σ') : Tasks (σ'.session s) := by
  have hnext : ∀ phase : Phase, (σ.session s).strandFree = true → (σ.session s).phase = .next →
      phase = .next := by
    intro phase hfree hp
    rw [SessionControl.strandFree, hp] at hfree
    cases hfree
  have hbegun : (σ'.session s).phase = .starting → (σ.session s).phase = .starting := by
    intro hstarting
    by_contra hne
    exact (event_readMove hs).begun hne hstarting
  cases event_cases hs with
  | start at_ =>
    have hidle : (σ.setPhase s .idle).session s = { σ.session s with phase := .idle } :=
      World.modify_session_self ..
    have hphase := congrArg Prod.fst (loop_untouched.start (σ.setPhase s .idle) s s)
    rw [hidle] at hphase
    have hrunning := h.first (Or.inl at_)
    have hempty : (σ.session s).taskQueue = [] := by
      by_contra hne
      cases (h.waits hne).symm.trans at_
    rcases start_queues (σ.setPhase s .idle) s with hsame | hasked
    · rw [hidle] at hsame
      exact h.of_queues hsame (fun hp => by cases hp.symm.trans at_) hbegun
    · rw [hidle] at hasked
      obtain ⟨hqueue', hrunning', hstrand'⟩ := queues_eq_iff.mp hasked
      refine ⟨fun fn hfn => ?_, fun hne => absurd (hqueue'.trans hempty) hne,
        fun _ => hrunning'.trans hrunning⟩
      rw [hqueue', hstrand', List.mem_append] at hfn
      rcases hfn with hfn | hfn | hfn
      · exact h.reads fn (Or.inl hfn)
      · exact h.reads fn (Or.inr hfn)
      · exact Closure.task.inj (List.mem_singleton.mp hfn)
  | strand closure rest queue free => exact (strand_queues h one queue free).1
  | readData data free =>
    refine h.of_queues ?_ (hnext _ free) hbegun
    exact modify_queues σ s s fun _ => rfl
  | readError aborted free =>
    refine h.of_queues ?_ (hnext _ free) hbegun
    have htaken := modify_queues σ s s (f := fun o =>
      { o with asyncReads := o.asyncReads - 1, readPending := false, phase := .next }) fun _ => rfl
    unfold World.readError
    dsimp only
    split
    · exact htaken
    · exact (closeSession_queues ..).trans htaken
  | advance advanced => exact h.advance one advanced
  | postWrite text =>
    rw [World.dispatch, World.modify_session_self]
    exact h.remote (.notice text)
  | writeDone k w ec pending =>
    exact h.of_queues (onWrite_queues σ s k w ec) (fun hp => (onWrite_phase σ s k w ec).trans hp) hbegun
  | sweep =>
    rw [World.closeSession_session_self]
    exact h.remote .shut
  | destroy unowned => exact h

end Step

section Run
variable {env : Env} {shardCount : Nat} {acts : List Act} {σ : World} {t : SessionPtr}

theorem tasks_of_run (run : exec (step env) (World.init shardCount) acts = some σ)
    (existing : t < σ.nextPtr) :
    Tasks (σ.session t) := by
  refine session_history (H := fun _ o => Tasks o) ?_ ?_ run existing
  · intro acts σ now _ ht _
    have hqueues := accept_view Session.queues (fun _ => rfl) σ now t
    rw [if_pos ht] at hqueues
    obtain ⟨hqueue, hrunning, hstrand⟩ := queues_eq_iff.mp hqueues
    refine ⟨fun fn hfn => ?_, fun hne => absurd hqueue hne, fun _ => hrunning⟩
    rw [hqueue, hstrand] at hfn
    rcases hfn with hfn | hfn
    · cases hfn
    · cases hfn
  · intro acts σ a σ' run hexisting h hs
    by_cases hself : ∃ e, a = .on t e
    · obtain ⟨e, rfl⟩ := hself
      simp only [step, Option.ite_none_right_eq_some] at hs
      exact h.event (oneRead_of_run run hexisting) hs.2
    · exact h.remote (step_seen hs hexisting fun e he => hself ⟨e, he⟩).1

end Run

def Stage.burden : Stage → Nat
  | .starting => 20
  | .working => 11
  | .waiting => 0

/-- A bound for the steps that what is under way for the session can still take. -/
def Session.burden (o : Session) : Nat :=
  2 * o.workload + 11 * o.reads + 3 * o.strand.length + o.writes + o.phase.stage.burden

def World.burden (σ : World) : Nat :=
  ∑ t ∈ Finset.range σ.nextPtr, (σ.session t).burden + σ.toClose.length

section Burden
variable {env : Env} {σ σ' : World} {s t : SessionPtr} {a : Act} {o o' : Session}

/-- The next read is paid for by the handler that ends. -/
theorem reads_burden (move : ReadMove env t a o o') (other : ∀ data, a ≠ .on t (.readData data)) :
    11 * o'.reads + o'.phase.stage.burden ≤ 11 * o.reads + o.phase.stage.burden := by
  cases move with
  | keep kept stage =>
    have hreads := kept.reads
    rw [stage]
    omega
  | ask asked before after _ =>
    have hreads := asked.reads
    have hbefore : 11 ≤ o.phase.stage.burden := by
      cases hstage : o.phase.stage with
      | starting => decide
      | working => decide
      | waiting => exact absurd hstage before
    rw [after, Stage.burden]
    omega
  | get data act _ _ _ => exact absurd act (other data)
  | fail aborted _ reads _ _ at_ =>
    rw [at_]
    simp only [Phase.stage, Stage.burden]
    omega
  | quit kept _ _ _ idle =>
    have hreads := kept.reads
    rw [idle]
    simp only [Phase.stage, Stage.burden]
    omega

theorem advance_strand (h : σ.advance env s = some σ') (tasks : Tasks (σ.session s)) :
    (σ'.session s).strand = (σ.session s).strand := by
  by_cases hdrain : (σ.session s).phase = .drain
  · have hempty : (σ.session s).taskQueue = [] := by
      by_contra hne
      cases (tasks.waits hne).symm.trans hdrain
    rw [World.advance, hdrain] at h
    obtain rfl := Option.some.inj h
    rcases drainStep_queues env hempty with hsame | ⟨_, hqueued⟩
    · exact (queues_eq_iff.mp hsame).2.2
    · exact (queues_eq_iff.mp hqueued).2.2
  · by_cases hnext : (σ.session s).phase = .next
    · rw [World.advance, hnext] at h
      obtain rfl := Option.some.inj h
      rw [World.modify_session_self]
      have hidle : ((σ.setPhase s .idle).session s).strand = (σ.session s).strand :=
        (queues_eq_iff.mp (setPhase_queues ..)).2.2
      rw [← hidle]
      rcases queues_runNextTask ((σ.setPhase s .idle).session s) with ⟨_, hdone⟩ | ⟨_, _, _, hdone⟩
      · exact (queues_eq_iff.mp hdone).2.2
      · exact (queues_eq_iff.mp hdone).2.2
    · exact (queues_eq_iff.mp (advance_queues (advance_cases h) hdrain hnext)).2.2

/-- A handler puts one notice on the strand of one session at most. -/
theorem advance_strands (h : σ.advance env s = some σ') (tasks : Tasks (σ.session s)) :
    ∃ p, ∀ t, (σ'.session t).strand.length ≤ (σ.session t).strand.length + if t = p then 1 else 0 := by
  have hsame : (∀ t, (σ'.session t).strand = (σ.session t).strand) →
      ∃ p, ∀ t, (σ'.session t).strand.length ≤ (σ.session t).strand.length + if t = p then 1 else 0 := by
    intro hall
    refine ⟨s, fun t => ?_⟩
    rw [hall t]
    exact Nat.le_add_right _ _
  have hcases := (local_ownSteps s).event (.advance (advance_cases h))
  rcases hcases with hlocal | ⟨_, ⟨n, at_, rfl⟩ | ⟨n, prev, at_, rfl⟩⟩
  · refine hsame fun t => ?_
    by_cases ht : t = s
    · rw [ht]
      exact advance_strand h tasks
    · rw [(hlocal t ht).1]
  · unfold World.registerStep
    split
    · rename_i prev _
      refine ⟨prev, fun t => ?_⟩
      have hdispatched := (queues_eq_iff.mp
        (setPhase_queues (σ.dispatch prev (.write World.loggedInElsewhere)) s t
        (.loginEvict n prev))).2.2
      change ((World.setPhase _ s (.loginEvict n prev)).session t).strand.length ≤ _
      rw [hdispatched, World.dispatch, World.modify_session]
      split
      · rename_i heq
        rw [heq, List.length_append]
        exact Nat.le_refl _
      · exact Nat.le_refl _
    · refine ⟨s, fun t => ?_⟩
      have hindexed := (setPhase_queues (σ.indexNickname s n) s t (.loginAck n)).trans
        (indexNickname_queues σ s t n)
      rw [(queues_eq_iff.mp hindexed).2.2]
      exact Nat.le_add_right _ _
  · refine hsame fun t => ?_
    have hindexed := (setPhase_queues ((σ.closeSession prev).indexNickname s n) s t (.loginAck n)).trans
      ((indexNickname_queues (σ.closeSession prev) s t n).trans (closeSession_queues σ prev t))
    exact (queues_eq_iff.mp hindexed).2.2

/-- One session pays, and another one gets something of it. -/
theorem sum_transfers {n price gift : Nat} {before after : SessionPtr → Nat} {p : SessionPtr}
    (existing : s < n)
    (each : ∀ t < n, after t + (if s = t then price else 0) ≤ before t + if t = p then gift else 0) :
    ∑ t ∈ Finset.range n, after t + price ≤ ∑ t ∈ Finset.range n, before t + gift := by
  have hgift : (∑ t ∈ Finset.range n, if t = p then gift else 0) ≤ gift := by
    rw [Finset.sum_ite_eq']
    split
    · exact Nat.le_refl _
    · exact Nat.zero_le _
  calc ∑ t ∈ Finset.range n, after t + price
      ≤ ∑ t ∈ Finset.range n, (before t + if t = p then gift else 0) := sum_pays existing each
    _ = ∑ t ∈ Finset.range n, before t + ∑ t ∈ Finset.range n, (if t = p then gift else 0) :=
      Finset.sum_add_distrib
    _ ≤ ∑ t ∈ Finset.range n, before t + gift := Nat.add_le_add_left hgift _

end Burden

/-- A handler goes on, or something that is under way for the session comes to its end. The socket is
closed, so a read that is pending ends with an error and delivers nothing more. -/
inductive Act.Ends (t : SessionPtr) : Act → Prop where
  | advance (s : SessionPtr) : Act.Ends t (.on s .advance)
  | start : Act.Ends t (.on t .start)
  | strand : Act.Ends t (.on t .strand)
  | readError (aborted : Bool) : Act.Ends t (.on t (.readError aborted))
  | writeDone (k : Nat) (ec : Bool) : Act.Ends t (.on t (.writeDone k ec))
  | sweep : Act.Ends t (.on t .sweep)

/-- No handler can go on, and nothing is under way for the session. -/
def Ended (env : Env) (t : SessionPtr) (σ : World) : Prop := ∀ a : Act, a.Ends t → step env σ a = none

section Ends
variable {env : Env} {shardCount : Nat} {acts more : List Act} {σ σ' : World}
    {s t : SessionPtr} {a : Act}

theorem advance_burden (run : exec (step env) (World.init shardCount) acts = some σ)
    (hs : step env σ (.on s .advance) = some σ') : σ'.burden + 1 ≤ σ.burden := by
  obtain ⟨hexisting, hnext⟩ := existing_of_event run hs
  have happened := hs
  simp only [step, Option.ite_none_right_eq_some] at happened
  obtain ⟨p, hstrands⟩ := advance_strands happened.2 (tasks_of_run run hexisting)
  have heach : ∀ t < σ.nextPtr, (σ'.session t).burden + (if s = t then 8 else 0) ≤
      (σ.session t).burden + if t = p then 3 else 0 := by
    intro t ht
    have hwork := step_workload ht hs
    have hreads := reads_burden (step_readMove hs ht) (by simp)
    have hwrites := advance_writes ht hs
    have hstrand := hstrands t
    simp only [Act.on.injEq, and_true, Act.workload, Event.workload, ite_self] at hwork
    unfold Session.burden
    split_ifs at hwork hwrites hstrand ⊢
    · omega
    · omega
    · omega
    · omega
  have hsum := sum_transfers hexisting heach
  have htoClose : σ'.toClose = σ.toClose := event_toClose (event_cases happened.2)
  rw [World.burden, World.burden, hnext, htoClose]
  omega

/-- The other events of a session change nothing for the other sessions. -/
theorem event_burden (run : exec (step env) (World.init shardCount) acts = some σ) {e : Event}
    (hs : step env σ (.on t e) = some σ') (waits : e ≠ .advance) {price : Nat}
    (own : (σ'.session t).burden + price ≤ (σ.session t).burden) :
    ∑ u ∈ Finset.range σ'.nextPtr, (σ'.session u).burden + price ≤
      ∑ u ∈ Finset.range σ.nextPtr, (σ.session u).burden := by
  obtain ⟨hexisting, hnext⟩ := existing_of_event run hs
  simp only [step, Option.ite_none_right_eq_some] at hs
  have hlocal : Local t σ σ' :=
    ((local_ownSteps t).event (event_cases hs.2)).resolve_right fun hadvance => waits hadvance.1
  rw [hnext]
  refine sum_pays hexisting fun u _ => ?_
  by_cases hu : t = u
  · rw [if_pos hu, ← hu]
    exact own
  · rw [if_neg hu, (hlocal u fun heq => hu heq.symm).1]
    exact Nat.le_refl _

theorem start_burden (run : exec (step env) (World.init shardCount) acts = some σ)
    (hs : step env σ (.on t .start) = some σ') : (σ'.session t).burden + 1 ≤ (σ.session t).burden := by
  obtain ⟨hexisting, _⟩ := existing_of_event run hs
  have hwork := step_workload hexisting hs
  have hwriter : (σ'.session t).writes = (σ.session t).writes := by
    cases step_writeMove hs hexisting with
    | keep writer => rw [Session.writes, writer, Session.writes]
    | post text act _ => simp at act
    | done k w ec act => cases act
  simp only [Act.on.injEq, reduceCtorEq, and_false, if_false, Act.workload, Event.workload,
    ite_self] at hwork
  have hmove := step_readMove hs hexisting
  simp only [step, World.event, Option.ite_none_right_eq_some, Option.some.injEq] at hs
  obtain ⟨_, at_, rfl⟩ := hs
  have hidle : (σ.setPhase t .idle).session t = { σ.session t with phase := .idle } :=
    World.modify_session_self ..
  have hloop := loop_untouched.start (σ.setPhase t .idle) t t
  have hstrand : (((σ.setPhase t .idle).start t).session t).strand.length ≤
      (σ.session t).strand.length + 1 := by
    rcases start_queues (σ.setPhase t .idle) t with hsame | hasked
    · rw [(queues_eq_iff.mp hsame).2.2, hidle]
      exact Nat.le_succ _
    · rw [(queues_eq_iff.mp hasked).2.2, hidle, List.length_append]
      exact Nat.le_refl _
  rw [hidle] at hloop
  have hphase : (((σ.setPhase t .idle).start t).session t).phase = .idle := (loop_eq_iff.mp hloop).1
  have hreads : (((σ.setPhase t .idle).start t).session t).reads ≤ (σ.session t).reads + 1 := by
    cases hmove with
    | keep kept _ => exact kept.reads.trans (Nat.le_succ _)
    | ask asked _ _ _ => exact asked.reads
    | get data act => cases act
    | fail aborted act => cases act
    | quit kept _ _ _ _ => exact kept.reads.trans (Nat.le_succ _)
  unfold Session.burden
  rw [hphase, at_, hwriter]
  simp only [Phase.stage, Stage.burden]
  omega

theorem burden_shut (o : Session) : o.shut.burden = o.burden := by
  have hphase : o.shut.phase = o.phase := SessionControl.shut_phase _
  unfold Session.burden
  rw [hphase, workload_of_loop (Session.loop_shut o)]
  rfl

theorem strand_burden (run : exec (step env) (World.init shardCount) acts = some σ)
    (hs : step env σ (.on t .strand) = some σ') : (σ'.session t).burden + 1 ≤ (σ.session t).burden := by
  obtain ⟨hexisting, _⟩ := existing_of_event run hs
  have hwork := step_workload hexisting hs
  have hreads := reads_burden (step_readMove hs hexisting) (by simp)
  have hwrites : (σ'.session t).writes ≤ (σ.session t).writes + 2 := by
    cases step_writeMove hs hexisting with
    | keep writer =>
      rw [Session.writes, writer]
      exact Nat.le_add_right _ _
    | post text _ posted _ =>
      rw [Session.writes, (writePath_eq_iff.mp posted).1]
      exact writes_postWrite env.config text _
    | done k w ec act => cases act
  have hstrand : (σ'.session t).strand.length + 1 = (σ.session t).strand.length := by
    simp only [step, Option.ite_none_right_eq_some] at hs
    cases event_cases hs.2 with
    | strand closure rest queue free =>
      rw [(strand_queues (tasks_of_run run hexisting) (oneRead_of_run run hexisting) queue free).2,
        queue]
      rfl
  simp only [Act.on.injEq, reduceCtorEq, and_false, if_false, Act.workload, Event.workload,
    ite_self] at hwork
  unfold Session.burden
  omega

theorem burden_of_read (o : Session) (reads : o.asyncReads ≠ 0) :
    { o with asyncReads := o.asyncReads - 1, readPending := false, phase := .next }.burden + 1 ≤
        o.burden := by
  simp only [Session.burden, Session.workload, Session.reads, Session.writes, Phase.work, Phase.stage,
    Stage.burden]
  omega

theorem readError_burden {aborted : Bool} (hs : step env σ (.on t (.readError aborted)) = some σ') :
    (σ'.session t).burden + 1 ≤ (σ.session t).burden := by
  simp only [step, World.event, Option.ite_none_right_eq_some, Option.some.injEq] at hs
  obtain ⟨_, ⟨_, hreads⟩, rfl⟩ := hs
  have hended : (σ.modify t fun o =>
      { o with asyncReads := o.asyncReads - 1, readPending := false, phase := .next }).session t =
      { σ.session t with
        asyncReads := (σ.session t).asyncReads - 1, readPending := false, phase := .next } :=
    World.modify_session_self ..
  have hless := burden_of_read (σ.session t) hreads
  unfold World.readError
  dsimp only
  split
  · rw [hended]
    exact hless
  · rw [World.closeSession_session_self, burden_shut, hended]
    exact hless

theorem writeDone_burden (room : 2 ≤ env.config.maxWriteQueueSize)
    (run : exec (step env) (World.init shardCount) acts = some σ) {k : Nat} {ec : Bool}
    (hs : step env σ (.on t (.writeDone k ec)) = some σ') :
    (σ'.session t).burden + 1 ≤ (σ.session t).burden := by
  obtain ⟨hexisting, _⟩ := existing_of_event run hs
  have hwork := step_workload hexisting hs
  have hreads := reads_burden (step_readMove hs hexisting) (by simp)
  simp only [Act.on.injEq, reduceCtorEq, and_false, if_false, Act.workload, Event.workload,
    ite_self] at hwork
  simp only [step, Option.ite_none_right_eq_some] at hs
  cases event_cases hs.2 with
  | writeDone _ w _ pending =>
    have hwrites := writes_onWrite (writerInv_of_run room run t) pending ec
    rw [← onWrite_session k w ec] at hwrites
    have hstrand : ((σ.onWrite t k w ec).session t).strand = (σ.session t).strand :=
      (queues_eq_iff.mp (onWrite_queues σ t k w ec)).2.2
    unfold Session.burden
    rw [hstrand]
    omega

theorem ends_burden (room : 2 ≤ env.config.maxWriteQueueSize)
    (run : exec (step env) (World.init shardCount) acts = some σ) (ends : a.Ends t)
    (hs : step env σ a = some σ') :
    σ'.burden + 1 ≤ σ.burden := by
  have hpays : ∀ e, step env σ (.on t e) = some σ' → e ≠ .advance → e ≠ .sweep →
      (σ'.session t).burden + 1 ≤ (σ.session t).burden → σ'.burden + 1 ≤ σ.burden := by
    intro e hs hwaits hother hown
    have hsum := event_burden run hs hwaits hown
    simp only [step, Option.ite_none_right_eq_some] at hs
    have htoClose := event_toClose (event_cases hs.2)
    rw [if_neg hother] at htoClose
    rw [World.burden, World.burden, htoClose]
    omega
  cases ends with
  | advance s => exact advance_burden run hs
  | start => exact hpays _ hs (by simp) (by simp) (start_burden run hs)
  | strand => exact hpays _ hs (by simp) (by simp) (strand_burden run hs)
  | readError aborted => exact hpays _ hs (by simp) (by simp) (readError_burden hs)
  | writeDone k ec => exact hpays _ hs (by simp) (by simp) (writeDone_burden room run hs)
  | sweep =>
    have hswept := hs
    simp only [step, World.event, Option.ite_none_right_eq_some, Option.some.injEq] at hswept
    obtain ⟨_, hmem, rfl⟩ := hswept
    have hown : (({ σ with toClose := σ.toClose.erase t }.closeSession t).session t).burden + 0 ≤
        (σ.session t).burden := by
      rw [World.closeSession_session_self, burden_shut]
      exact Nat.le_refl _
    have hsum := event_burden run hs (by simp) hown
    have hlength : ({ σ with toClose := σ.toClose.erase t }.closeSession t).toClose.length + 1 =
        σ.toClose.length := by
      rw [World.closeSession_toClose, List.length_erase_of_mem hmem]
      exact Nat.succ_pred_eq_of_pos (List.length_pos_of_mem hmem)
    unfold World.burden
    omega

end Ends

/-- Only open sockets are registered. -/
structure OpenRegistered (c : Control) : Prop where
  existing : ∀ id t, c.manager.findSession id = some t → t < c.nextPtr
  keyed : ∀ id t, c.manager.findSession id = some t → (c.session t).sessionId = id
  opened : ∀ id t, c.manager.findSession id = some t → (c.session t).socketOpen = true

section Registered
variable {env : Env} {c c' : Control}

theorem OpenRegistered.modify (h : OpenRegistered c) (s : SessionPtr)
    {f : SessionControl → SessionControl} (sessionId : ∀ o, (f o).sessionId = o.sessionId)
    (socket : ∀ o, (f o).socketOpen = o.socketOpen) :
    OpenRegistered (c.modify s f) where
  existing := h.existing
  keyed id t ht := (modify_view c s t f SessionControl.sessionId sessionId).trans (h.keyed id t ht)
  opened id t ht := (modify_view c s t f SessionControl.socketOpen socket).trans (h.opened id t ht)

theorem OpenRegistered.accept (h : OpenRegistered c) (sessionId : Int32) :
    OpenRegistered (c.accept sessionId) := by
  have hcases : ∀ id t, (c.accept sessionId).manager.findSession id = some t →
      (t = c.nextPtr ∧ id = sessionId) ∨ t ≠ c.nextPtr ∧ c.manager.findSession id = some t := by
    intro id t ht
    rw [accept_findSession] at ht
    split at ht
    · rename_i hid
      exact Or.inl ⟨(Option.some.inj ht).symm, hid⟩
    · exact Or.inr ⟨Nat.ne_of_lt (h.existing id t ht), ht⟩
  constructor
  · intro id t ht
    rcases hcases id t ht with ⟨rfl, _⟩ | ⟨_, hold⟩
    · exact Nat.lt_succ_self _
    · exact Nat.lt_succ_of_lt (h.existing id t hold)
  · intro id t ht
    rcases hcases id t ht with ⟨rfl, rfl⟩ | ⟨hne, hold⟩
    · rw [accept_session_new]
    · rw [accept_session_of_ne c t _ hne]
      exact h.keyed id t hold
  · intro id t ht
    rcases hcases id t ht with ⟨rfl, rfl⟩ | ⟨hne, hold⟩
    · rw [accept_session_new]
    · rw [accept_session_of_ne c t _ hne]
      exact h.opened id t hold

theorem OpenRegistered.close (h : OpenRegistered c) (s : SessionPtr) : OpenRegistered (c.close s) := by
  constructor
  · intro id t ht
    rw [close_nextPtr]
    exact h.existing id t (close_findSession c s t ht).1
  · intro id t ht
    rw [close_view c s t SessionControl.sessionId SessionControl.shut_sessionId]
    exact h.keyed id t (close_findSession c s t ht).1
  · intro id t ht
    obtain ⟨hold, hremoved⟩ := close_findSession c s t ht
    by_cases hts : t = s
    · subst hts
      rw [close_session_self]
      cases hclosed : (c.session t).closed with
      | true =>
        rw [shut_socketOpen_of_closed hclosed]
        exact h.opened id t hold
      | false => exact absurd (h.keyed id t hold).symm (hremoved hclosed)
    · rw [close_session_of_ne c s t hts]
      exact h.opened id t hold

theorem OpenRegistered.step {op : Op} (h : OpenRegistered c) (step : Step env c op c') :
    OpenRegistered c' := by
  cases step with
  | accept sessionId => exact h.accept sessionId
  | destroy s _ => exact ⟨h.existing, h.keyed, h.opened⟩
  | close s => exact h.close s
  | flag s => exact h.modify s (fun _ => rfl) fun _ => rfl
  | goto s phase _ _ _ => exact h.modify s (fun _ => rfl) fun _ => rfl
  | receive s packet _ => exact h.modify s (fun _ => rfl) fun _ => rfl
  | lookup s nickname _ _ => exact h.modify s (fun _ => rfl) fun _ => rfl
  | name s nickname _ => exact h.modify s (fun _ => rfl) fun _ => rfl
  | ready s nickname _ => exact h.modify s (fun _ => rfl) fun _ => rfl
  | evict s nickname prev _ _ _ => exact h.modify s (fun _ => rfl) fun _ => rfl
  | index s nickname _ =>
    have hindexed : OpenRegistered (c.modify s (.index nickname)) :=
      h.modify s (fun _ => rfl) fun _ => rfl
    exact ⟨hindexed.existing, hindexed.keyed, hindexed.opened⟩
  | ack s nickname _ => exact h.modify s (fun _ => rfl) fun _ => rfl

end Registered

section Reclaim
variable {env : Env} {shardCount : Nat} {acts more : List Act} {σ σ' : World}
    {s t : SessionPtr} {a : Act}

theorem openRegistered_of_run (run : exec (step env) (World.init shardCount) acts = some σ) :
    OpenRegistered σ.control := by
  refine invariant (I := fun σ => OpenRegistered σ.control)
    (fun _ _ _ h hs => control_preserved (fun _ _ _ hop hc => hc.step hop) hs h) ?_ run
  have hnone : ∀ {P : Prop} id t, (World.init shardCount).control.manager.findSession id =
      some t → P := by
    intro P id t ht
    simp [World.control, World.init, SessionManager.findSession, SessionManager.bucket] at ht
  exact ⟨fun id t => hnone id t, fun id t => hnone id t, fun id t => hnone id t⟩

theorem Control.Touch.socket_closed {o o' : SessionControl} (touch : Touch env o o')
    (h : o.socketOpen = false) :
    o'.socketOpen = false := by
  cases touch with
  | shut =>
    rcases o.shut_cases with ⟨_, heq⟩ | ⟨_, heq⟩
    · rw [heq]
      exact h
    · rw [heq]
  | _ => exact h

theorem socket_stays_closed (existing : t < σ.nextPtr) (shutdown : (σ.session t).socketOpen = false)
    (run : exec (step env) σ more = some σ') : t < σ'.nextPtr ∧ (σ'.session t).socketOpen = false := by
  have hcontrol : ∀ op (c c' : Control), Step env c op c' →
      t < c.nextPtr ∧ (c.session t).socketOpen = false → t < c'.nextPtr ∧
      (c'.session t).socketOpen = false :=
    fun _ _ _ hop hc => ⟨Nat.lt_of_lt_of_le hc.1 hop.nextPtr_le, (hop.touch hc.1).socket_closed hc.2⟩
  exact invariant (I := fun σ => t < σ.control.nextPtr ∧ (σ.control.session t).socketOpen = false)
    (fun _ _ _ h hs => control_preserved hcontrol hs h) ⟨existing, shutdown⟩ run

/-- Nothing holds a session that has come to its end. -/
theorem unowned_of_ended (positive : 1 ≤ shardCount) (small : shardCount ≤ 2 ^ 31)
    (run : exec (step env) (World.init shardCount) acts = some σ) (existing : t < σ.nextPtr)
    (alive : σ.live t = true) (shutdown : (σ.session t).socketOpen = false) (ended : Ended env t σ) :
    σ.owned t = false := by
  have hsettled : Settled env σ := fun s => ended _ (.advance s)
  have hfree := strandFree_of_settled positive small run hsettled
  have hphase : (σ.session t).phase = .idle := by
    by_contra hne
    have hstarting : (σ.session t).phase = .starting := by
      have hfree := hfree t
      simp only [SessionControl.strandFree, Bool.or_eq_true, decide_eq_true_eq] at hfree
      exact hfree.resolve_left hne
    have hstart := ended _ .start
    simp [step, alive, World.event, hstarting] at hstart
  have hstrand : (σ.session t).strand = [] := by
    by_contra hne
    obtain ⟨closure, rest, hqueue⟩ := List.exists_cons_of_ne_nil hne
    have hnext := ended _ .strand
    simp [step, alive, World.event, hqueue, hfree t] at hnext
  have hreads : (σ.session t).asyncReads = 0 := by
    by_contra hne
    have herror := ended _ (.readError true)
    simp [step, alive, World.event, hfree t, hne] at herror
  have hwrites : (σ.session t).asyncWrites = [] := by
    by_contra hne
    obtain ⟨w, rest, hpending⟩ := List.exists_cons_of_ne_nil hne
    have hdone := ended _ (.writeDone 0 false)
    simp [step, alive, World.event, hfree t, hpending] at hdone
  have hqueue : (σ.session t).taskQueue = [] := by
    by_contra hne
    cases ((tasks_of_run run existing).waits hne).symm.trans hphase
  have hcollected : t ∉ σ.toClose := by
    intro hmem
    have hsweep := ended _ .sweep
    simp [step, alive, World.event, hmem] at hsweep
  have hregistered : t ∉ σ.manager.allSessions := by
    intro hmem
    have hfound := ((mem_allSessions (filed_of_run run)).mp hmem).2
    have hopen : (σ.session t).socketOpen = true := (openRegistered_of_run run).opened _ t hfound
    rw [shutdown] at hopen
    cases hopen
  have hevicting : σ.evicting t = false := by
    have hmutex : σ.nicknameMutex = none := by
      by_contra hheld
      obtain ⟨holder, hholder⟩ := Option.ne_none_iff_exists'.mp hheld
      obtain ⟨n, prev, hp⟩ := mutexEvicts_of_run run holder hholder
      have hrest := hfree holder
      rw [SessionControl.strandFree, hp] at hrest
      cases hrest
    unfold World.evicting
    rw [hmutex]
  simp [World.owned, Session.busy, hregistered, hcollected, hevicting, hphase, hreads, hwrites,
    hstrand, hqueue]

/-- A session whose socket has been closed is not kept: what is under way for it comes to an end,
after a number of steps that is bounded in advance whatever their order is, and then the session can
be destroyed. -/
theorem closed_sessions_are_reclaimed (env : Env) (room : 2 ≤ env.config.maxWriteQueueSize)
    (shardCount : Nat) (positive : 1 ≤ shardCount) (small : shardCount ≤ 2 ^ 31)
    (acts : List Act) (σ : World) (run : exec (step env) (World.init shardCount) acts = some σ)
    (t : SessionPtr) (existing : t < σ.nextPtr) (shutdown : (σ.session t).socketOpen = false) :
    (∃ more σ', (∀ a ∈ more, a.Ends t) ∧ exec (step env) σ more = some σ' ∧ Ended env t σ') ∧
    ∀ more σ', (∀ a ∈ more, a.Ends t) → exec (step env) σ more = some σ' →
      more.length ≤ σ.burden ∧
      (Ended env t σ' → σ'.live t = true → ∃ σ'', step env σ' (.on t .destroy) = some σ'') := by
  have hreachable : ∀ τ a τ', (∃ acts, exec (step env) (World.init shardCount) acts = some τ) →
      a.Ends t → step env τ a = some τ' →
      ∃ acts, exec (step env) (World.init shardCount) acts = some τ' :=
    fun _ _ _ reached _ hs => exists_exec_step reached hs
  have hpays : ∀ τ a τ', (∃ acts, exec (step env) (World.init shardCount) acts = some τ) → a.Ends t →
      step env τ a = some τ' → τ'.burden + 1 ≤ τ.burden :=
    fun τ a τ' ⟨acts, h⟩ hends hs => ends_burden room h hends hs
  refine ⟨?_, fun more σ' kind run' => ⟨?_, fun ended alive => ?_⟩⟩
  · apply exec_settles World.burden hreachable hpays _ ⟨acts, run⟩
    intro τ _ hgoes
    simp only [Ended, not_forall] at hgoes
    obtain ⟨a, hends, hs⟩ := hgoes
    obtain ⟨τ', hτ'⟩ := Option.ne_none_iff_exists'.mp hs
    exact ⟨a, τ', hends, hτ'⟩
  · have hbound := exec_potential World.burden (fun _ => 1) (fun _ => 0) hreachable hpays
      ⟨acts, run⟩ kind run'
    simp only [List.map_const', List.sum_replicate_nat] at hbound
    omega
  · have run'' : exec (step env) (World.init shardCount) (acts ++ more) = some σ' :=
      exec_append_eq_some.mpr ⟨σ, run, run'⟩
    obtain ⟨existing', shutdown'⟩ := socket_stays_closed existing shutdown run'
    have hunowned := unowned_of_ended positive small run'' existing' alive shutdown' ended
    exact ⟨{ σ' with live := Function.update σ'.live t false }, by
      simp [step, alive, World.event, hunowned]⟩

/-- A client logs in and leaves while the answer is being written. -/
theorem closed_sessions_are_reclaimed_leaves :
    let env := Env.ofTable [] [loginText "a"]
    let acts := connects 0 ++ sends 0 [(loginText "a").1] 8 ++ [.on 0 (.readError false)]
    let more := [.on 0 .advance, .on 0 (.writeDone 0 true)]
    ∃ σ σ' σ'', exec (step env) (World.init 4) acts = some σ ∧ (σ.session 0).asyncWrites.length = 1 ∧
      exec (step env) σ more = some σ' ∧ more.length ≤ σ.burden ∧ step env σ' (.on 0 .destroy) =
      some σ'' := by
  intro env acts more
  have hrun : (exec (step env) (World.init 4) acts).map (fun σ => (σ.nextPtr, (σ.session 0).socketOpen,
      (σ.session 0).asyncWrites.length)) = some (1, false, 1) := by decide +kernel
  have hrun' : (exec (step env) (World.init 4) (acts ++ more)).map
      (fun σ' => (σ'.nextPtr, σ'.live 0, σ'.toClose)) =
      some (1, true, []) := by decide +kernel
  have hidle : (exec (step env) (World.init 4) (acts ++ more)).map (fun σ' => ((σ'.session 0).phase,
      (σ'.session 0).strand, (σ'.session 0).asyncReads, (σ'.session 0).asyncWrites)) =
      some (.idle, [], 0, []) := by decide +kernel
  obtain ⟨σ, run, hview⟩ := Option.map_eq_some_iff.mp hrun
  obtain ⟨σ', run'', hview'⟩ := Option.map_eq_some_iff.mp hrun'
  rw [run'', Option.map_some, Option.some.injEq] at hidle
  simp only [Prod.mk.injEq] at hview hview' hidle
  obtain ⟨τ, hτ, run'⟩ := exec_append_eq_some.mp run''
  obtain rfl : σ = τ := Option.some.inj (run.symm.trans hτ)
  have hended : Ended env 0 σ' := by
    intro a ends
    cases ends with
    | advance s =>
      by_cases hs : s = 0
      · simp [hs, step, World.event, World.advance, hidle]
      · have hdead : σ'.live s = false := by
          by_contra halive
          have hlt := (known_of_run run'').live s (Bool.eq_true_of_not_eq_false halive)
          change s < σ'.nextPtr at hlt
          rw [hview'.1] at hlt
          exact hs (Nat.lt_one_iff.mp hlt)
        simp [step, hdead]
    | start => simp [step, World.event, hidle]
    | strand => simp [step, World.event, hidle]
    | readError aborted => simp [step, World.event, hidle]
    | writeDone k ec => simp [step, World.event, hidle]
    | sweep => simp [step, World.event, hview']
  have hreclaim := (closed_sessions_are_reclaimed env (by decide) 4 (by decide) (by decide) acts σ run 0
    (by rw [hview.1]; decide) hview.2.1).2 more σ' (fun a ha => ?_) run'
  · obtain ⟨σ'', hdestroyed⟩ := hreclaim.2 hended hview'.2.1
    exact ⟨σ, σ', σ'', run, hview.2.2, run', hreclaim.1, hdestroyed⟩
  · rcases List.mem_cons.mp ha with rfl | ha
    · exact .advance 0
    · obtain rfl := List.mem_singleton.mp ha
      exact .writeDone 0 true

end Reclaim

end DBMiddleWare
