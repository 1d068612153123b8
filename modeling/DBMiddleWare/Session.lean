import DBMiddleWare.MessageBufferManager
import DBMiddleWare.Json

/-!
# The session object

The members of `Session` and its operations that touch nothing but the session.
Next to the members stands what Boost.Asio holds on the session's behalf (operations
that have been started, closures waiting on the strand, the point its handler has
reached) and a record of the calls made so far, which no operation reads.
-/

namespace DBMiddleWare

set_option autoImplicit false

inductive SessionState where
  | handshaking
  | handshaked
  | loginWait
  | ready
  | closed
  deriving Repr, DecidableEq

/-- The settings of `config.json` that the session reads, as `size_t`. -/
structure Config where
  maxTaskQueue : Nat := 1000
  maxWriteQueueSize : Nat := 100
  writeQueueOverflowLimit : Nat := 10

/-- A `shared_ptr<string>` in the write queue: posts are numbered, so two messages with
the same text are different objects. -/
structure Message where
  number : Nat
  text : Bytes
  deriving Repr, DecidableEq

/-- An `async_write` that has been started and has not completed. -/
structure PendingWrite where
  msg : Message
  generation : Nat
  deriving Repr, DecidableEq

/-- What `post_task` queues: the read of `do_read`, or any other asynchronous task. -/
inductive Task where
  | read
  | call (id : Nat)
  deriving Repr, DecidableEq

inductive Closure where
  | write (text : Bytes)
  | task (fn : Task)
  deriving Repr, DecidableEq

inductive HandlerName where
  | login
  | insert
  deriving Repr, DecidableEq

abbrev SessionPtr := Nat

/-- How far the handler that runs for a session has come. -/
inductive Phase where
  /-- registered, `start` not called yet -/
  | starting
  /-- no handler of the session runs -/
  | idle
  /-- in the drain loop of the read handler -/
  | drain
  /-- about to post an answer to the packet -/
  | reply (text : Bytes)
  | loginLookup (nickname : String)
  | loginSet (nickname : String)
  | loginReady (nickname : String)
  | loginRegister (nickname : String)
  /-- holding the nickname mutex, about to close the previous owner -/
  | loginEvict (nickname : String) (prev : SessionPtr)
  | loginAck (nickname : String)
  /-- the read handler is about to call `run_next_task` -/
  | next
  deriving Repr, DecidableEq

/-- What login and closing depend on. -/
structure SessionControl where
  sessionId : Int32
  nickname : String := ""
  nicknameRegistered : Bool := false
  closed : Bool := false
  state : SessionState := .handshaking
  socketOpen : Bool := true
  phase : Phase := .starting
  -- record of the packets taken from the buffer, the handlers called, the registrations
  -- made, the logins answered ok and the calls of `close_session`
  received : List Bytes := []
  handled : List HandlerName := []
  registrations : List String := []
  acked : List String := []
  closeCalls : Nat := 0

def SessionControl.shut (o : SessionControl) : SessionControl :=
  let o := { o with closeCalls := o.closeCalls + 1 }
  if o.closed then o else { o with closed := true, state := .closed, socketOpen := false }

namespace SessionControl

theorem shut_cases (o : SessionControl) :
    (o.closed = true ∧ o.shut = { o with closeCalls := o.closeCalls + 1 }) ∨
    (o.closed = false ∧ o.shut =
      { o with
        closeCalls := o.closeCalls + 1, closed := true, state := .closed, socketOpen := false }) := by
  cases h : o.closed with
  | true => exact Or.inl ⟨rfl, by simp [shut, h]⟩
  | false => exact Or.inr ⟨rfl, by simp [shut, h]⟩

theorem shut_view {α : Type} (view : SessionControl → α)
    (h : ∀ (o : SessionControl) closeCalls closed state socketOpen,
      view { o with
        closeCalls := closeCalls, closed := closed, state := state, socketOpen := socketOpen } =
        view o) (o : SessionControl) : view o.shut = view o := by
  rcases o.shut_cases with ⟨_, he⟩ | ⟨_, he⟩
  · rw [he]
    exact h o _ o.closed o.state o.socketOpen
  · rw [he]
    exact h o _ _ _ _

@[simp] theorem shut_phase (o : SessionControl) : o.shut.phase = o.phase :=
  shut_view phase (fun _ _ _ _ _ => rfl) o

@[simp] theorem shut_sessionId (o : SessionControl) : o.shut.sessionId = o.sessionId :=
  shut_view sessionId (fun _ _ _ _ _ => rfl) o

@[simp] theorem shut_nickname (o : SessionControl) : o.shut.nickname = o.nickname :=
  shut_view nickname (fun _ _ _ _ _ => rfl) o

@[simp] theorem shut_registered (o : SessionControl) :
    o.shut.nicknameRegistered = o.nicknameRegistered :=
  shut_view nicknameRegistered (fun _ _ _ _ _ => rfl) o

@[simp] theorem shut_received (o : SessionControl) : o.shut.received = o.received :=
  shut_view received (fun _ _ _ _ _ => rfl) o

@[simp] theorem shut_handled (o : SessionControl) : o.shut.handled = o.handled :=
  shut_view handled (fun _ _ _ _ _ => rfl) o

@[simp] theorem shut_registrations (o : SessionControl) : o.shut.registrations = o.registrations :=
  shut_view registrations (fun _ _ _ _ _ => rfl) o

theorem shut_state {o : SessionControl} (closed : o.state = .closed) : o.shut.state = .closed := by
  rcases o.shut_cases with ⟨_, h⟩ | ⟨_, h⟩
  · rw [h]
    exact closed
  · rw [h]

@[simp] theorem shut_closed (o : SessionControl) : o.shut.closed = true := by
  rcases o.shut_cases with ⟨hclosed, h⟩ | ⟨_, h⟩
  · rw [h]
    exact hclosed
  · rw [h]

end SessionControl

structure SessionWriter where
  writeQueue : List Message := []
  writeQueueOverflowCount : Nat := 0
  writeInProgress : Bool := false
  generation : Nat := 0
  asyncWrites : List PendingWrite := []
  -- record of the messages posted, started, transmitted and dropped from the front
  posted : List Message := []
  started : List Message := []
  sent : List Message := []
  dropped : List Message := []
  /-- `pop` has been called on an empty queue -/
  popOnEmpty : Bool := false

structure SessionReader where
  readPending : Bool := false
  taskQueue : List Task := []
  taskRunning : Bool := false
  msgBufMgr : MessageBufferManager := {}
  asyncReads : Nat := 0
  strand : List Closure := []
  -- record of the tasks started
  tasksStarted : List Task := []

structure Session extends SessionControl, SessionWriter, SessionReader where
  lastAliveTime : Int

namespace Session

def new (sessionId : Int32) (now : Int) : Session where
  sessionId := sessionId
  lastAliveTime := now

def shut (o : Session) : Session := { o with toSessionControl := o.toSessionControl.shut }

def pop (o : Session) : Session :=
  { o with
    writeQueue := o.writeQueue.tail
    popOnEmpty := o.popOnEmpty || o.writeQueue.isEmpty }

def push (msg : Message) (o : Session) : Session :=
  { o with writeQueue := o.writeQueue ++ [msg] }

def asyncWrite (msg : Message) (o : Session) : Session :=
  { o with
    asyncWrites := o.asyncWrites ++ [⟨msg, o.generation⟩]
    started := o.started ++ [msg] }

def doWriteQueue (o : Session) : Session :=
  if o.state = .closed then o
  else
    match o.writeQueue with
    | [] => { o with writeInProgress := false }
    | msg :: _ => o.asyncWrite msg

/-- The overflow branch of `enqueue_write`: the front goes, the drop is counted. -/
def dropFront (o : Session) : Session :=
  { o.pop with
    dropped := o.dropped ++ o.writeQueue.head?.toList
    writeQueueOverflowCount := o.writeQueueOverflowCount + 1 }

/-- `enqueue_write`; the warning at 80% only logs. -/
def enqueueWrite (cfg : Config) (msg : Message) (o : Session) : Session :=
  if cfg.maxWriteQueueSize ≤ o.writeQueue.length then
    let o := o.dropFront
    if cfg.writeQueueOverflowLimit ≤ o.writeQueueOverflowCount then { o with closed := true }
    else o.push msg
  else { o with writeQueueOverflowCount := 0 }.push msg

def newMessage (text : Bytes) (o : Session) : Message := ⟨o.posted.length, text⟩

/-- The closure of `post_write`, on the strand. -/
def postWrite (cfg : Config) (text : Bytes) (o : Session) : Session :=
  let msg := o.newMessage text
  let idle := o.writeQueue.isEmpty
  let o := { o with posted := o.posted ++ [msg] }.enqueueWrite cfg msg
  if idle then { o with writeInProgress := true }.doWriteQueue else o

/-- The `k`-th outstanding write has completed. -/
def takeWrite (k : Nat) (o : Session) : Session :=
  { o with asyncWrites := o.asyncWrites.eraseIdx k }

/-- The completion handler of `do_write_queue` after a successful write. -/
def writeDone (w : PendingWrite) (o : Session) : Session :=
  { o with sent := o.sent ++ [w.msg] }.pop.doWriteQueue

def run (fn : Task) (o : Session) : Session :=
  let o := { o with tasksStarted := o.tasksStarted ++ [fn] }
  match fn with
  | .read => { o with asyncReads := o.asyncReads + 1 }
  | .call _ => o

def runNextTask (o : Session) : Session :=
  match o.taskQueue with
  | [] => { o with taskRunning := false }
  | fn :: rest => { o with taskQueue := rest }.run fn

def pushTask (fn : Task) (o : Session) : Session :=
  let o := { o with taskQueue := o.taskQueue ++ [fn] }
  if o.taskRunning then o else { o with taskRunning := true }.runNextTask

end Session

end DBMiddleWare
