import DBMiddleWare.Library.Execution
import DBMiddleWare.Session

/-!
# The task queue of a session

`post_task`, `run_next_task` and the whole of `do_read`, for one session. On the strand
one closure or one step of the read handler runs at a time; calls of `do_read` from
other threads are cut at the test of the state, at the exchange of the read flag and at
the dispatch. What the handlers of the packets do to the session (closing it, marking it
ready) may happen at any time. A task is running from its start to the end of its last
callback.
-/

namespace DBMiddleWare

open Execution
set_option autoImplicit false

/-- How far the completion handler of a read has come. -/
inductive ReadHandler where
  | idle
  | drain
  | doRead
  /-- in `do_read`, past the test of the state -/
  | acquire
  /-- in `do_read`, holding the read flag -/
  | post
  | next
  deriving Repr, DecidableEq

structure TaskStrand where
  session : Session
  handler : ReadHandler := .idle
  /-- closures of `post_task` that wait for the strand -/
  dispatched : List Task := []
  /-- calls of `do_read` by other threads that have passed the test of the state -/
  checked : Nat := 0
  /-- calls of `do_read` by other threads that hold the read flag -/
  calling : Nat := 0
  -- record of the tasks pushed, and of those that have started and not ended
  accepted : List Task := []
  running : List Task := []

namespace TaskStrand

inductive Act where
  /-- `post_task` from outside the strand, and on it -/
  | post (id : Nat)
  | postInline (id : Nat)
  /-- the next closure waiting on the strand runs -/
  | strand
  /-- a task completes and calls `run_next_task` -/
  | callDone (id : Nat)
  -- `do_read` of another thread; on the strand its last step runs the closure at once
  | check
  | acquire
  | dispatch
  | dispatchInline
  | readData (data : Bytes)
  | readError (aborted : Bool)
  /-- the read handler goes on, or leaves by its catch block -/
  | advance
  | throw
  -- `close_session`, the overflow limit of the write queue, `on_nickname_registered`
  | close
  | flag
  | ready
  deriving Repr, DecidableEq

def new (sessionId : Int32) (now : Int) : TaskStrand where
  session := .new sessionId now

def modify (x : TaskStrand) (f : Session → Session) : TaskStrand := { x with session := f x.session }

/-- An operation of the queue; the tasks it starts are running from here on. -/
def starts (x : TaskStrand) (f : Session → Session) : TaskStrand :=
  { x.modify f with
    running := x.running ++ (f x.session).tasksStarted.drop x.session.tasksStarted.length }

def postTask (x : TaskStrand) (cfg : Config) (fn : Task) : TaskStrand :=
  if cfg.maxTaskQueue ≤ x.session.taskQueue.length then x.modify Session.shut
  else { x.starts (Session.pushTask fn) with accepted := x.accepted ++ [fn] }

def runNextTask (x : TaskStrand) : TaskStrand := x.starts Session.runNextTask

def endTask (x : TaskStrand) (fn : Task) : TaskStrand := { x with running := x.running.erase fn }

/-- The read handler leaves without calling `run_next_task`. -/
def quit (x : TaskStrand) : TaskStrand := { x.modify Session.shut with handler := .idle }.endTask .read

def drainStep (x : TaskStrand) (host : ByteOrder.Endian) : TaskStrand :=
  match x.session.msgBufMgr.extractMessage host with
  | (some _, mgr) => x.modify fun o => { o with msgBufMgr := mgr }
  | (none, mgr) =>
    let x := x.modify fun o => { o with msgBufMgr := mgr }
    if mgr.lastClearByInvalidLength then x.quit else { x with handler := .doRead }

def advance (x : TaskStrand) (cfg : Config) (host : ByteOrder.Endian) : Option TaskStrand :=
  match x.handler with
  | .idle => none
  | .drain => some (x.drainStep host)
  | .doRead =>
    if x.session.state = .closed then some { x with handler := .next }
    else some { x with handler := .acquire }
  | .acquire =>
    if x.session.readPending then some { x with handler := .next }
    else some { x.modify fun o => { o with readPending := true } with handler := .post }
  | .post => some ({ x with handler := .next }.postTask cfg .read)
  | .next => some (({ x with handler := .idle }.endTask .read).runNextTask)

def acquire (x : TaskStrand) : TaskStrand :=
  let x := { x with checked := x.checked - 1 }
  if x.session.readPending then x
  else { x.modify fun o => { o with readPending := true } with calling := x.calling + 1 }

def complete (x : TaskStrand) (handler : ReadHandler) : TaskStrand :=
  { x.modify fun o => { o with asyncReads := o.asyncReads - 1, readPending := false } with
    handler := handler }

def step (cfg : Config) (host : ByteOrder.Endian) (x : TaskStrand) : Act → Option TaskStrand
  | .post id => some { x with dispatched := x.dispatched ++ [.call id] }
  | .postInline id => some (x.postTask cfg (.call id))
  | .strand =>
    match x.dispatched with
    | [] => none
    | fn :: rest =>
      if x.handler = .idle then some ({ x with dispatched := rest }.postTask cfg fn) else none
  | .callDone id =>
    if x.handler = .idle ∧ .call id ∈ x.running then some ((x.endTask (.call id)).runNextTask) else none
  | .check => if x.session.state = .closed then some x else some { x with checked := x.checked + 1 }
  | .acquire => if x.checked = 0 then none else some x.acquire
  | .dispatch =>
    if x.calling = 0 then none
    else some { x with calling := x.calling - 1, dispatched := x.dispatched ++ [.read] }
  | .dispatchInline =>
    if x.calling = 0 then none else some ({ x with calling := x.calling - 1 }.postTask cfg .read)
  | .readData data =>
    if x.handler = .idle ∧ x.session.asyncReads ≠ 0 then
      some ((x.complete .drain).modify fun o => { o with msgBufMgr := o.msgBufMgr.append data })
    else none
  | .readError aborted =>
    if x.handler = .idle ∧ x.session.asyncReads ≠ 0 then
      if aborted then some (x.complete .next) else some ((x.complete .next).modify Session.shut)
    else none
  | .advance => x.advance cfg host
  | .throw =>
    if x.handler = .idle ∨ x.handler = .next then none
    else some { x.modify Session.shut with handler := .next }
  | .close => some (x.modify Session.shut)
  | .flag => some (x.modify fun o => { o with closed := true })
  | .ready => some (x.modify fun o => { o with state := .ready })

/-- `post_task` closes the session, queues the task behind a running one, or starts the front. -/
inductive Posted (x : TaskStrand) (fn : Task) : TaskStrand → Prop where
  | refused : Posted x fn (x.modify Session.shut)
  | queued (busy : x.session.taskRunning = true) :
      Posted x fn { x.modify fun o => { o with taskQueue := o.taskQueue ++ [fn] } with
        accepted := x.accepted ++ [fn] }
  | started (first : Task) (rest : List Task) (free : x.session.taskRunning = false)
      (split : x.session.taskQueue ++ [fn] = first :: rest) :
      Posted x fn { x.modify fun o =>
          { o with
            taskRunning := true
            taskQueue := rest
            tasksStarted := o.tasksStarted ++ [first]
            asyncReads := o.asyncReads + [first].count .read } with
        accepted := x.accepted ++ [fn]
        running := x.running ++ [first] }

/-- `run_next_task` marks the queue as stopped or starts the front. -/
inductive Ran (x : TaskStrand) : TaskStrand → Prop where
  | stopped (empty : x.session.taskQueue = []) :
      Ran x (x.modify fun o => { o with taskRunning := false })
  | started (first : Task) (rest : List Task) (split : x.session.taskQueue = first :: rest) :
      Ran x { x.modify fun o =>
          { o with
            taskQueue := rest
            tasksStarted := o.tasksStarted ++ [first]
            asyncReads := o.asyncReads + [first].count .read } with
        running := x.running ++ [first] }

theorem runNextTask_eq_started {o : Session} {first : Task} {rest : List Task}
    (split : o.taskQueue = first :: rest) :
    o.runNextTask =
      { o with
        taskQueue := rest
        tasksStarted := o.tasksStarted ++ [first]
        asyncReads := o.asyncReads + [first].count .read } := by
  unfold Session.runNextTask
  rw [split]
  cases first <;> rfl

theorem runNextTask_eq_stopped {o : Session} (empty : o.taskQueue = []) :
    o.runNextTask = { o with taskRunning := false } := by
  unfold Session.runNextTask
  rw [empty]

theorem ran_runNextTask (x : TaskStrand) : Ran x x.runNextTask := by
  unfold runNextTask starts modify
  cases hqueue : x.session.taskQueue with
  | nil =>
    rw [runNextTask_eq_stopped hqueue]
    dsimp only
    rw [List.drop_length, List.append_nil]
    exact .stopped hqueue
  | cons first rest =>
    rw [runNextTask_eq_started hqueue]
    dsimp only
    rw [List.drop_left]
    exact .started first rest hqueue

theorem posted_postTask (x : TaskStrand) (cfg : Config) (fn : Task) :
    Posted x fn (x.postTask cfg fn) := by
  unfold postTask
  split
  · exact .refused
  · unfold starts modify Session.pushTask
    by_cases hrunning : x.session.taskRunning = true
    · simp only [if_pos hrunning]
      rw [List.drop_length, List.append_nil]
      exact .queued hrunning
    · obtain ⟨first, rest, hsplit⟩ : ∃ first rest, x.session.taskQueue ++ [fn] = first :: rest :=
        List.exists_cons_of_ne_nil (by simp)
      simp only [if_neg hrunning]
      rw [runNextTask_eq_started (o := { x.session with
        taskQueue := x.session.taskQueue ++ [fn], taskRunning := true }) hsplit]
      dsimp only
      rw [List.drop_left]
      exact .started first rest (Bool.eq_false_iff.mpr hrunning) hsplit

inductive Advanced (x : TaskStrand) (host : ByteOrder.Endian) : TaskStrand → Prop where
  | taken (packet : Bytes) (mgr : MessageBufferManager) (at_ : x.handler = .drain)
      (extract : x.session.msgBufMgr.extractMessage host = (some packet, mgr)) :
      Advanced x host (x.modify fun o => { o with msgBufMgr := mgr })
  | invalid (mgr : MessageBufferManager) (at_ : x.handler = .drain)
      (extract : x.session.msgBufMgr.extractMessage host = (none, mgr))
      (bad : mgr.lastClearByInvalidLength = true) :
      Advanced x host (x.modify fun o => { o with msgBufMgr := mgr }).quit
  | drained (mgr : MessageBufferManager) (at_ : x.handler = .drain)
      (extract : x.session.msgBufMgr.extractMessage host = (none, mgr)) :
      Advanced x host { x.modify fun o => { o with msgBufMgr := mgr } with handler := .doRead }
  | closed (at_ : x.handler = .doRead) (state : x.session.state = .closed) :
      Advanced x host { x with handler := .next }
  | doRead (at_ : x.handler = .doRead) : Advanced x host { x with handler := .acquire }
  | duplicate (at_ : x.handler = .acquire) (pending : x.session.readPending = true) :
      Advanced x host { x with handler := .next }
  | acquire (at_ : x.handler = .acquire) (free : x.session.readPending = false) :
      Advanced x host { x.modify fun o => { o with readPending := true } with handler := .post }
  | post {x' : TaskStrand} (at_ : x.handler = .post) (posted : Posted { x with handler := .next }
    .read x') :
      Advanced x host x'
  | next {x' : TaskStrand} (at_ : x.handler = .next)
      (ran : Ran ({ x with handler := .idle }.endTask .read) x') : Advanced x host x'

inductive Stepped (x : TaskStrand) (host : ByteOrder.Endian) : Act → TaskStrand → Prop where
  | post (id : Nat) : Stepped x host (.post id) { x with dispatched := x.dispatched ++ [.call id] }
  | postInline (id : Nat) {x' : TaskStrand} (posted : Posted x (.call id) x') :
      Stepped x host (.postInline id) x'
  | strand (fn : Task) (rest : List Task) {x' : TaskStrand} (queue : x.dispatched = fn :: rest)
      (posted : Posted { x with dispatched := rest } fn x') : Stepped x host .strand x'
  | callDone (id : Nat) {x' : TaskStrand} (running : .call id ∈ x.running)
      (ran : Ran (x.endTask (.call id)) x') : Stepped x host (.callDone id) x'
  | refused : Stepped x host .check x
  | check : Stepped x host .check { x with checked := x.checked + 1 }
  | acquire : Stepped x host .acquire x.acquire
  | dispatch (calling : x.calling ≠ 0) : Stepped x host .dispatch
      { x with calling := x.calling - 1, dispatched := x.dispatched ++ [.read] }
  | dispatchInline {x' : TaskStrand} (calling : x.calling ≠ 0)
      (posted : Posted { x with calling := x.calling - 1 } .read x') : Stepped x host .dispatchInline x'
  | readData (data : Bytes) (free : x.handler = .idle) (outstanding : x.session.asyncReads ≠ 0) :
      Stepped x host (.readData data)
        ((x.complete .drain).modify fun o => { o with msgBufMgr := o.msgBufMgr.append data })
  | aborted (free : x.handler = .idle) (outstanding : x.session.asyncReads ≠ 0) :
      Stepped x host (.readError true) (x.complete .next)
  | failed (free : x.handler = .idle) (outstanding : x.session.asyncReads ≠ 0) :
      Stepped x host (.readError false) ((x.complete .next).modify Session.shut)
  | advance {x' : TaskStrand} (advanced : Advanced x host x') : Stepped x host .advance x'
  | throw (busy : x.handler ≠ .idle) (before : x.handler ≠ .next) :
      Stepped x host .throw { x.modify Session.shut with handler := .next }
  | close : Stepped x host .close (x.modify Session.shut)
  | flag : Stepped x host .flag (x.modify fun o => { o with closed := true })
  | ready : Stepped x host .ready (x.modify fun o => { o with state := .ready })

section Cases
variable {x x' : TaskStrand} {cfg : Config} {host : ByteOrder.Endian} {a : Act}

theorem advanced_drainStep (at_ : x.handler = .drain) : Advanced x host (x.drainStep host) := by
  unfold drainStep
  split
  · rename_i packet mgr extract
    exact .taken packet mgr at_ extract
  · rename_i mgr extract
    dsimp only
    split
    · rename_i bad
      exact .invalid mgr at_ extract bad
    · exact .drained mgr at_ extract

theorem advance_cases (h : x.advance cfg host = some x') : Advanced x host x' := by
  unfold advance at h
  cases hhandler : x.handler with
  | idle => simp [hhandler] at h
  | drain =>
    simp only [hhandler, Option.some.injEq] at h
    exact h ▸ advanced_drainStep hhandler
  | doRead =>
    simp only [hhandler] at h
    split at h
    · rename_i state
      exact Option.some.inj h ▸ .closed hhandler state
    · exact Option.some.inj h ▸ .doRead hhandler
  | acquire =>
    simp only [hhandler] at h
    split at h
    · rename_i pending
      exact Option.some.inj h ▸ .duplicate hhandler pending
    · rename_i free
      exact Option.some.inj h ▸ .acquire hhandler (Bool.eq_false_iff.mpr free)
  | post =>
    simp only [hhandler, Option.some.injEq] at h
    exact h ▸ .post hhandler (posted_postTask _ cfg .read)
  | next =>
    simp only [hhandler, Option.some.injEq] at h
    exact h ▸ .next hhandler (ran_runNextTask _)

theorem step_cases (h : step cfg host x a = some x') : Stepped x host a x' := by
  cases a with
  | post id => exact Option.some.inj h ▸ .post id
  | postInline id => exact Option.some.inj h ▸ .postInline id (posted_postTask x cfg _)
  | strand =>
    simp only [step] at h
    split at h
    · cases h
    · rename_i fn rest queue
      simp only [Option.ite_none_right_eq_some, Option.some.injEq] at h
      exact h.2 ▸ .strand fn rest queue (posted_postTask _ cfg fn)
  | callDone id =>
    simp only [step, Option.ite_none_right_eq_some, Option.some.injEq] at h
    exact h.2 ▸ .callDone id h.1.2 (ran_runNextTask _)
  | check =>
    simp only [step] at h
    split at h
    · exact Option.some.inj h ▸ .refused
    · exact Option.some.inj h ▸ .check
  | acquire =>
    simp only [step, Option.ite_none_left_eq_some, Option.some.injEq] at h
    exact h.2 ▸ .acquire
  | dispatch =>
    simp only [step, Option.ite_none_left_eq_some, Option.some.injEq] at h
    exact h.2 ▸ .dispatch h.1
  | dispatchInline =>
    simp only [step, Option.ite_none_left_eq_some, Option.some.injEq] at h
    exact h.2 ▸ .dispatchInline h.1 (posted_postTask _ cfg .read)
  | readData data =>
    simp only [step, Option.ite_none_right_eq_some, Option.some.injEq] at h
    exact h.2 ▸ .readData data h.1.1 h.1.2
  | readError aborted =>
    simp only [step, Option.ite_none_right_eq_some] at h
    cases aborted with
    | true => exact Option.some.inj h.2 ▸ .aborted h.1.1 h.1.2
    | false => exact Option.some.inj h.2 ▸ .failed h.1.1 h.1.2
  | advance => exact .advance (advance_cases h)
  | throw =>
    simp only [step, Option.ite_none_left_eq_some, not_or, Option.some.injEq] at h
    exact h.2 ▸ .throw h.1.1 h.1.2
  | close => exact Option.some.inj h ▸ .close
  | flag => exact Option.some.inj h ▸ .flag
  | ready => exact Option.some.inj h ▸ .ready

end Cases

/-- Tasks run one at a time and in the order in which they were accepted; only a stopped queue
is known to be empty. -/
structure Serial (x : TaskStrand) : Prop where
  accepted : x.accepted = x.session.tasksStarted ++ x.session.taskQueue
  single : x.running.length ≤ 1
  reads : x.running.count .read = x.session.asyncReads + if x.handler = .idle then 0 else 1
  stopped : x.session.taskRunning = false → x.running = [] ∧ x.session.taskQueue = []

section Serial
variable {x x' : TaskStrand}

theorem Serial.of_same (h : Serial x)
    (queue : (x'.session.taskRunning, x'.session.taskQueue, x'.session.tasksStarted) =
      (x.session.taskRunning, x.session.taskQueue, x.session.tasksStarted))
    (tasks : (x'.accepted, x'.running) = (x.accepted, x.running))
    (reads : (x'.session.asyncReads + if x'.handler = .idle then 0 else 1) =
      x.session.asyncReads + if x.handler = .idle then 0 else 1) : Serial x' := by
  simp only [Prod.mk.injEq] at queue tasks
  obtain ⟨hrunning, hqueue, hstarted⟩ := queue
  obtain ⟨haccepted, htasks⟩ := tasks
  constructor
  · rw [haccepted, hstarted, hqueue]
    exact h.accepted
  · rw [htasks]
    exact h.single
  · rw [htasks, reads]
    exact h.reads
  · rw [hrunning, htasks, hqueue]
    exact h.stopped

theorem Serial.posted {fn : Task} (h : Serial x) (hx : Posted x fn x') : Serial x' := by
  cases hx with
  | refused => exact h.of_same rfl rfl rfl
  | queued busy =>
    refine ⟨?_, h.single, h.reads, fun hstopped => ?_⟩
    · simp only [modify, h.accepted, List.append_assoc]
    · rw [modify, busy] at hstopped
      cases hstopped
  | started first rest free split =>
    obtain ⟨hrunning, hqueue⟩ := h.stopped free
    rw [hqueue] at split
    obtain ⟨rfl, rfl⟩ := List.cons.inj split
    have hreads := h.reads
    rw [hrunning] at hreads
    refine ⟨?_, ?_, ?_, nofun⟩
    · simp only [modify, h.accepted, hqueue, List.append_nil]
    · simp [hrunning]
    · simp only [modify, hrunning, List.nil_append]
      simp only [List.count_nil] at hreads
      omega

/-- A task ends while it is the only one, and the queue goes on. -/
theorem Serial.ran (h : Serial x) (last : x.running = []) (busy : x.session.taskRunning = true)
    (hx : Ran x x') : Serial x' := by
  have hreads := h.reads
  cases hx with
  | stopped empty =>
    exact ⟨h.accepted, h.single, h.reads, fun _ => ⟨last, empty⟩⟩
  | started first rest split =>
    refine ⟨?_, ?_, ?_, fun hstopped => ?_⟩
    · simp only [modify, h.accepted, split, List.append_assoc, List.singleton_append]
    · simp [last]
    · rw [last, List.count_nil] at hreads
      simp only [modify, last, List.nil_append]
      omega
    · rw [modify] at hstopped
      rw [busy] at hstopped
      cases hstopped

theorem Serial.alone (h : Serial x) {fn : Task} (running : fn ∈ x.running) :
    x.running = [fn] ∧ x.session.taskRunning = true := by
  have hlength := h.single
  constructor
  · obtain ⟨first, hfirst⟩ := List.length_eq_one_iff.mp
      (Nat.le_antisymm hlength (List.length_pos_of_mem running))
    rw [hfirst, List.mem_singleton] at running
    rw [hfirst, running]
  · by_contra hstopped
    rw [(h.stopped (Bool.eq_false_iff.mpr hstopped)).1] at running
    cases running

theorem Serial.reading (h : Serial x) (busy : x.handler ≠ .idle) :
    x.running = [.read] ∧ x.session.asyncReads = 0 ∧ x.session.taskRunning = true := by
  have hreads := h.reads
  rw [if_neg busy] at hreads
  have hmem : Task.read ∈ x.running := List.count_pos_iff.mp (by omega)
  obtain ⟨hrunning, htask⟩ := h.alone hmem
  rw [hrunning, List.count_singleton_self] at hreads
  exact ⟨hrunning, by omega, htask⟩

theorem Serial.endRead (h : Serial x) (busy : x.handler ≠ .idle) :
    Serial ({ x with handler := .idle }.endTask .read) := by
  obtain ⟨hrunning, hreads, htask⟩ := h.reading busy
  refine ⟨h.accepted, ?_, ?_, fun hstopped => ?_⟩
  · simp [endTask, hrunning]
  · simp [endTask, hrunning, hreads]
  · rw [endTask, htask] at hstopped
    cases hstopped

theorem Serial.quit (h : Serial x) (busy : x.handler ≠ .idle) : Serial x.quit :=
  (h.endRead busy).of_same rfl rfl rfl

theorem Serial.advance {host : ByteOrder.Endian} (h : Serial x) (hx : Advanced x host x') :
    Serial x' := by
  cases hx with
  | taken packet mgr _ _ => exact h.of_same rfl rfl rfl
  | invalid mgr at_ _ _ =>
    have hmgr : Serial (x.modify fun o => { o with msgBufMgr := mgr }) := h.of_same rfl rfl rfl
    exact hmgr.quit (by simp [modify, at_])
  | drained mgr at_ _ => exact h.of_same rfl rfl (by simp [at_, modify])
  | closed at_ _ => exact h.of_same rfl rfl (by simp [at_])
  | doRead at_ => exact h.of_same rfl rfl (by simp [at_])
  | duplicate at_ _ => exact h.of_same rfl rfl (by simp [at_])
  | acquire at_ _ => exact h.of_same rfl rfl (by simp [at_, modify])
  | post at_ posted =>
    have hnext : Serial { x with handler := .next } := h.of_same rfl rfl (by simp [at_])
    exact hnext.posted posted
  | next at_ ran =>
    have hbusy : x.handler ≠ .idle := by simp [at_]
    obtain ⟨hrunning, _, htask⟩ := h.reading hbusy
    exact (h.endRead hbusy).ran (by simp [endTask, hrunning]) htask ran

theorem Serial.complete (h : Serial x) {handler : ReadHandler} (free : x.handler = .idle)
    (outstanding : x.session.asyncReads ≠ 0) (busy : handler ≠ .idle) : Serial (x.complete handler) := by
  refine Serial.of_same h rfl rfl ?_
  change (x.session.asyncReads - 1 + if handler = .idle then 0 else 1) =
    x.session.asyncReads + if x.handler = .idle then 0 else 1
  rw [if_neg busy, if_pos free]
  omega

theorem Serial.endCall (h : Serial x) {id : Nat} (running : .call id ∈ x.running) :
    Serial (x.endTask (.call id)) := by
  obtain ⟨hrunning, htask⟩ := h.alone running
  have hreads := h.reads
  refine ⟨h.accepted, by simp [endTask, hrunning], ?_, fun hstopped => ?_⟩
  · rw [← show x.session.asyncReads + (if x.handler = .idle then 0 else 1) =
      (x.endTask (.call id)).session.asyncReads + if (x.endTask (.call id)).handler = .idle then 0 else 1
      from rfl, ← hreads]
    simp [endTask, hrunning]
  · rw [endTask, htask] at hstopped
    cases hstopped

theorem Serial.step {cfg : Config} {host : ByteOrder.Endian} {a : Act} (h : Serial x)
    (hx : TaskStrand.step cfg host x a = some x') : Serial x' := by
  cases step_cases hx with
  | post id => exact h.of_same rfl rfl rfl
  | postInline id posted => exact h.posted posted
  | strand fn rest _ posted =>
    have hrest : Serial { x with dispatched := rest } := h.of_same rfl rfl rfl
    exact hrest.posted posted
  | callDone id running ran =>
    obtain ⟨hrunning, htask⟩ := h.alone running
    exact (h.endCall running).ran (by simp [endTask, hrunning]) htask ran
  | refused => exact h
  | check => exact h.of_same rfl rfl rfl
  | acquire =>
    unfold TaskStrand.acquire
    dsimp only
    split
    · exact h.of_same rfl rfl rfl
    · exact h.of_same rfl rfl rfl
  | dispatch _ => exact h.of_same rfl rfl rfl
  | dispatchInline _ posted =>
    have hcalling : Serial { x with calling := x.calling - 1 } := h.of_same rfl rfl rfl
    exact hcalling.posted posted
  | readData data free outstanding =>
    have hcomplete : Serial (x.complete .drain) := h.complete free outstanding (by simp)
    exact hcomplete.of_same rfl rfl rfl
  | aborted free outstanding => exact h.complete free outstanding (by simp)
  | failed free outstanding =>
    have hcomplete : Serial (x.complete .next) := h.complete free outstanding (by simp)
    exact hcomplete.of_same rfl rfl rfl
  | advance advanced => exact h.advance advanced
  | throw busy _ => exact h.of_same rfl rfl (by simp [busy, modify, Session.shut])
  | close => exact h.of_same rfl rfl rfl
  | flag => exact h.of_same rfl rfl rfl
  | ready => exact h.of_same rfl rfl rfl

theorem serial_new (sessionId : Int32) (now : Int) : Serial (.new sessionId now) :=
  ⟨rfl, Nat.zero_le _, rfl, fun _ => ⟨rfl, rfl⟩⟩

/-- The tasks run one at a time and start in order, and none waits when none runs. -/
structure Clean (x : TaskStrand) : Prop where
  single : x.running.length ≤ 1
  accepted : x.accepted = x.session.tasksStarted ++ x.session.taskQueue
  flows : x.running = [] → x.session.taskRunning = false ∧ x.session.taskQueue = []

/-- The drain loop of a read handler does not end on an invalid length. -/
def ValidLengths (host : ByteOrder.Endian) (x : TaskStrand) (a : Act) : Prop :=
  a = .advance → x.handler = .drain → (x.session.msgBufMgr.extractMessage host).1 = none →
    (x.session.msgBufMgr.extractMessage host).2.lastClearByInvalidLength = false

/-- The queue is not marked as running when no task runs. -/
def Flows (x : TaskStrand) : Prop := x.running = [] → x.session.taskRunning = false

theorem Serial.clean_iff (h : Serial x) : Clean x ↔ Flows x := by
  constructor
  · intro hclean hnone
    exact (hclean.flows hnone).1
  · intro hflows
    exact ⟨h.single, h.accepted, fun hnone => ⟨hflows hnone, (h.stopped (hflows hnone)).2⟩⟩

theorem Flows.posted {fn : Task} (h : Flows x) (hx : Posted x fn x') : Flows x' := by
  cases hx with
  | refused => exact h
  | queued busy => exact h
  | started first rest free split =>
    intro hnone
    simp at hnone

theorem flows_ran (hx : Ran x x') : Flows x' := by
  cases hx with
  | stopped empty => exact fun _ => rfl
  | started first rest split =>
    intro hnone
    simp at hnone

theorem Flows.step {cfg : Config} {host : ByteOrder.Endian} {a : Act} (h : Flows x)
    (valid : ValidLengths host x a) (hx : TaskStrand.step cfg host x a = some x') : Flows x' := by
  cases step_cases hx with
  | postInline id posted => exact h.posted posted
  | strand fn rest _ posted => exact Flows.posted (x := { x with dispatched := rest }) h posted
  | callDone id _ ran => exact flows_ran ran
  | acquire =>
    unfold TaskStrand.acquire
    dsimp only
    split
    · exact h
    · exact h
  | dispatchInline _ posted => exact Flows.posted (x := { x with calling := x.calling - 1 }) h posted
  | advance advanced =>
    cases advanced with
    | invalid mgr at_ extract bad =>
      have hvalid := valid rfl at_ (by rw [extract])
      rw [extract, bad] at hvalid
      cases hvalid
    | post _ posted => exact Flows.posted (x := { x with handler := .next }) h posted
    | next _ ran => exact flows_ran ran
    | _ => exact h
  | _ => exact h

/-- The early return leaves the queue marked as running with no task running. -/
theorem not_clean_of_invalid {cfg : Config} {host : ByteOrder.Endian} {a : Act} (h : Serial x)
    (invalid : ¬ ValidLengths host x a) : ∃ y, TaskStrand.step cfg host x a = some y ∧ ¬ Clean y := by
  unfold ValidLengths at invalid
  simp only [Classical.not_imp, Bool.not_eq_false] at invalid
  obtain ⟨rfl, hdrain, hnone, hinvalid⟩ := invalid
  have hbusy : x.handler ≠ .idle := by
    rw [hdrain]
    nofun
  obtain ⟨hrunning, _, htask⟩ := h.reading hbusy
  refine ⟨x.drainStep host, by simp only [TaskStrand.step, TaskStrand.advance, hdrain], fun hclean => ?_⟩
  have hflows := hclean.flows
  unfold TaskStrand.drainStep at hflows
  cases hextract : x.session.msgBufMgr.extractMessage host with
  | mk msg mgr =>
    rw [hextract] at hnone hinvalid
    obtain rfl : msg = none := hnone
    rw [hextract] at hflows
    simp only [if_pos hinvalid, quit, endTask, modify, Session.shut, hrunning, htask] at hflows
    simp at hflows

theorem serial_of_run {cfg : Config} {host : ByteOrder.Endian} {sessionId : Int32} {now : Int}
    {acts : List Act} (run : exec (TaskStrand.step cfg host) (.new sessionId now) acts = some x) :
        Serial x :=
  invariant (fun _ _ _ h hx => h.step hx) (serial_new sessionId now) run

end Serial

/-- In every state of a run the tasks run one at a time, have started in posting order and are not
left behind, exactly when no drain loop of the run ends on an invalid length. -/
theorem tasks_serialized_iff (cfg : Config) (host : ByteOrder.Endian) (sessionId : Int32) (now : Int)
    (acts : List Act) :
    (∀ as x, as <+: acts → exec (step cfg host) (.new sessionId now) as = some x → Clean x) ↔
      Along (step cfg host) (ValidLengths host) (.new sessionId now) acts := by
  constructor
  · intro hclean
    rw [along_iff]
    intro as a hpre x run
    by_contra invalid
    obtain ⟨y, hy, hnot⟩ := not_clean_of_invalid (serial_of_run run) invalid
    exact hnot (hclean (as ++ [a]) y hpre (exec_concat_eq_some.mpr ⟨x, run, hy⟩))
  · intro valid as x hpre run
    have hflows : Flows x := invariant_along (fun _ _ _ h hv hx => h.step hv hx)
      (show Flows (.new sessionId now) from fun _ => rfl) (along_initial valid hpre) run
    exact (serial_of_run run).clean_iff.mpr hflows

/-- A frame of length zero ends the read task, and a task posted afterwards never starts. -/
theorem invalid_length_strands_tasks :
    (exec (step {} .little) (.new 0 0)
      [.check, .acquire, .dispatch, .strand, .readData [0, 0, 0, 0], .advance, .postInline 7]).map
      (fun x => (x.running, x.session.taskRunning, x.session.taskQueue)) = some ([], true, [.call 7]) ∧
    ¬ ∀ as x, as <+: [.check, .acquire, .dispatch, .strand, .readData [0, 0, 0, 0], .advance,
      .postInline 7] → exec (step {} .little) (.new 0 0) as = some x → Clean x := by
  have hrun : (exec (step {} .little) (.new 0 0)
      [.check, .acquire, .dispatch, .strand, .readData [0, 0, 0, 0], .advance, .postInline 7]).map
      (fun x => (x.running, x.session.taskRunning, x.session.taskQueue)) =
        some ([], true, [.call 7]) := by
    decide +kernel
  refine ⟨hrun, fun hclean => ?_⟩
  obtain ⟨x, run, hx⟩ := Option.map_eq_some_iff.mp hrun
  simp only [Prod.mk.injEq] at hx
  have hstopped := ((hclean _ x (List.prefix_refl _) run).flows hx.1).1
  rw [hx.2.1] at hstopped
  cases hstopped

end TaskStrand

end DBMiddleWare
