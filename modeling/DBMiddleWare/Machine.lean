import DBMiddleWare.Library.Execution
import DBMiddleWare.MessageDispatcher

/-!
# The running server

All sessions of the server with their strands interleaved. A read handler is cut into
the steps between which other threads can observe it: one for each packet taken from
the buffer, one for each answer, and one for each critical section and each update of
the login. `close_session` and the locked operations of the manager are single steps.

States are observed between these steps. So another thread does not see `close_session`
with the flag set and the socket still open, and a close does not fall between the check
of `do_read` and its post, between the extraction of a packet and its dispatch, or into
`on_nickname_registered`: it is counted before that step or after it.
-/

namespace DBMiddleWare

open Execution
set_option autoImplicit false

inductive Event where
  | start
  /-- the next closure waiting on the strand runs -/
  | strand
  | readData (data : Bytes)
  | readError (aborted : Bool)
  /-- the running handler goes on to its next step -/
  | advance
  /-- `post_write` from outside the strand -/
  | postWrite (text : Bytes)
  | writeDone (k : Nat) (ec : Bool)
  /-- a cleanup closes a session it has collected -/
  | sweep
  /-- the last reference goes -/
  | destroy
  deriving Repr, DecidableEq

inductive Act where
  | accept (now : Int)
  | cleanupInactive (shard : Nat) (now maxIdleTime : Int)
  | cleanupUnauth (maxUnauth : Nat) (sorted : List SessionPtr)
  | on (s : SessionPtr) (e : Event)
  deriving Repr, DecidableEq

def SessionControl.strandFree (o : SessionControl) : Bool := o.phase = .idle || o.phase = .starting

/-- Something on the strand, in the queues or in Asio keeps the session. -/
def Session.busy (o : Session) : Bool :=
  o.phase ≠ .idle || o.asyncReads ≠ 0 || !o.asyncWrites.isEmpty || !o.strand.isEmpty ||
    !o.taskQueue.isEmpty

/-- The answer of the dispatcher to a packet that reaches no login, or the first step of
the login. -/
def Route.phase (env : Env) : Route → Phase
  | .close => .drain
  | .raise _ => .reply parsingFailed
  | .unknown => .reply unknownType
  | .handler .login msg =>
    match msg.value "nickname" "" with
    | .error _ => .reply parsingFailed
    | .ok nickname => if nickname = "" then .reply nicknameRequired else .loginLookup nickname
  | .handler .insert msg =>
    match insertQuery env msg with
    | .error _ => .reply parsingFailed
    | .ok _ => .reply insertOk

def Route.handler? : Route → Option HandlerName
  | .handler h _ => some h
  | _ => none

namespace World

variable (env : Env) (σ : World) (s : SessionPtr)

def accept (now : Int) : World :=
  { σ with
    session := Function.update σ.session σ.nextPtr (.new σ.sessionCounter now)
    live := Function.update σ.live σ.nextPtr true
    nextPtr := σ.nextPtr + 1
    sessionCounter := σ.sessionCounter + 1 }.addSession σ.nextPtr

def runClosure : Closure → World
  | .write text => σ.postWrite s env.config text
  | .task fn => σ.postTask s env.config fn

/-- A session whose previous owner is being closed under the nickname mutex. -/
def evicting : Bool :=
  match σ.nicknameMutex with
  | some holder =>
    match (σ.session holder).phase with
    | .loginEvict _ prev => prev = s
    | _ => false
  | none => false

def owned : Bool :=
  σ.manager.allSessions.contains s || σ.toClose.contains s || (σ.session s).busy || σ.evicting s

def readData (data : Bytes) : World :=
  σ.modify s fun o =>
    { o with
      asyncReads := o.asyncReads - 1
      readPending := false
      msgBufMgr := o.msgBufMgr.append data
      phase := .drain }

/-- The read handler after a failed read, up to its call of `run_next_task`. -/
def readError (aborted : Bool) : World :=
  let σ := σ.modify s fun o =>
    { o with asyncReads := o.asyncReads - 1, readPending := false, phase := .next }
  if aborted then σ else σ.closeSession s

def enter (r : Route) : World :=
  let σ := σ.modify s fun o =>
    { o with handled := o.handled ++ r.handler?.toList, phase := r.phase env }
  match r with
  | .close => σ.closeSession s
  | _ => σ

/-- The drain loop takes the next packet, or ends. -/
def drainStep : World :=
  match (σ.session s).msgBufMgr.extractMessage env.host with
  | (some packet, mgr) =>
    let σ := (σ.modify s fun o => { o with msgBufMgr := mgr }).noteReceived s packet
    σ.enter env s (route env (σ.session s).nicknameRegistered packet)
  | (none, mgr) =>
    let σ := σ.modify s fun o => { o with msgBufMgr := mgr }
    -- the early return skips `run_next_task`
    if mgr.lastClearByInvalidLength then (σ.setPhase s .idle).closeSession s
    else (σ.setPhase s .next).doRead s env.config

def lookupStep (nickname : String) : World :=
  if (σ.findSessionByNickname nickname).isSome then σ.setPhase s (.reply nicknameInUse)
  else σ.setPhase s (.loginSet nickname)

/-- `register_nickname`, as far as the notice for a previous owner. -/
def registerStep (nickname : String) : World :=
  match σ.previousOwner s nickname with
  | some prev =>
    { (σ.dispatch prev (.write loggedInElsewhere)).setPhase s (.loginEvict nickname prev) with
      nicknameMutex := some s }
  | none => (σ.indexNickname s nickname).setPhase s (.loginAck nickname)

/-- The rest of `register_nickname` when there was a previous owner. -/
def evictStep (nickname : String) (prev : SessionPtr) : World :=
  { ((σ.closeSession prev).indexNickname s nickname).setPhase s (.loginAck nickname) with
    nicknameMutex := none }

def advance : Option World :=
  match (σ.session s).phase with
  | .starting => none
  | .idle => none
  | .drain => some (σ.drainStep env s)
  | .reply text => some ((σ.setPhase s .drain).postWrite s env.config text)
  | .loginLookup nickname =>
    if σ.nicknameMutex = none then some (σ.lookupStep s nickname) else none
  | .loginSet nickname => some ((σ.setNickname s nickname).setPhase s (.loginReady nickname))
  | .loginReady nickname => some ((σ.onNicknameRegistered s).setPhase s (.loginRegister nickname))
  | .loginRegister nickname =>
    if σ.nicknameMutex = none then some (σ.registerStep s nickname) else none
  | .loginEvict nickname prev => some (σ.evictStep s nickname prev)
  | .loginAck nickname => some ((σ.setPhase s .drain).ackLogin env s nickname)
  | .next => some ((σ.setPhase s .idle).modify s Session.runNextTask)

def event : Event → Option World
  | .start => if (σ.session s).phase = .starting then some ((σ.setPhase s .idle).start s) else none
  | .strand =>
    match (σ.session s).strand with
    | [] => none
    | closure :: rest =>
      if (σ.session s).strandFree then
        some ((σ.modify s fun o => { o with strand := rest }).runClosure env s closure)
      else none
  | .readData data =>
    if (σ.session s).strandFree ∧ (σ.session s).asyncReads ≠ 0 ∧ data.length ≤ 2048 then
      some (σ.readData s data)
    else none
  | .readError aborted =>
    if (σ.session s).strandFree ∧ (σ.session s).asyncReads ≠ 0 then some (σ.readError s aborted)
    else none
  | .advance => σ.advance env s
  | .postWrite text => some (σ.dispatch s (.write text))
  | .writeDone k ec =>
    if (σ.session s).strandFree then
      (σ.session s).asyncWrites[k]?.map fun w => σ.onWrite s k w ec
    else none
  | .sweep =>
    if s ∈ σ.toClose then some ({ σ with toClose := σ.toClose.erase s }.closeSession s) else none
  | .destroy =>
    if σ.owned s then none else some { σ with live := Function.update σ.live s false }

end World

open World

def step (env : Env) (σ : World) : Act → Option World
  | .accept now => some (σ.accept now)
  | .cleanupInactive shard now maxIdleTime =>
    if shard < σ.manager.shardCount then
      some { σ with toClose := σ.toClose ++ σ.inactiveSessions shard now maxIdleTime }
    else none
  | .cleanupUnauth maxUnauth sorted =>
    if sorted.Perm σ.unauthSessions ∧
        sorted.Pairwise fun a b => (σ.session a).lastAliveTime ≤ (σ.session b).lastAliveTime then
      some { σ with toClose := σ.toClose ++ sorted.take (sorted.length - maxUnauth) }
    else none
  | .on s e => if σ.live s then σ.event env s e else none

inductive Advanced (env : Env) (σ : World) (s : SessionPtr) : World → Prop where
  | drain (at_ : (σ.session s).phase = .drain) : Advanced env σ s (σ.drainStep env s)
  | reply (text : Bytes) (at_ : (σ.session s).phase = .reply text) :
      Advanced env σ s ((σ.setPhase s .drain).postWrite s env.config text)
  | lookup (nickname : String) (at_ : (σ.session s).phase = .loginLookup nickname) :
      Advanced env σ s (σ.lookupStep s nickname)
  | name (nickname : String) (at_ : (σ.session s).phase = .loginSet nickname) :
      Advanced env σ s ((σ.setNickname s nickname).setPhase s (.loginReady nickname))
  | ready (nickname : String) (at_ : (σ.session s).phase = .loginReady nickname) :
      Advanced env σ s ((σ.onNicknameRegistered s).setPhase s (.loginRegister nickname))
  | register (nickname : String) (at_ : (σ.session s).phase = .loginRegister nickname) :
      Advanced env σ s (σ.registerStep s nickname)
  | evict (nickname : String) (prev : SessionPtr)
    (at_ : (σ.session s).phase = .loginEvict nickname prev) :
      Advanced env σ s (σ.evictStep s nickname prev)
  | ack (nickname : String) (at_ : (σ.session s).phase = .loginAck nickname) :
      Advanced env σ s ((σ.setPhase s .drain).ackLogin env s nickname)
  | next (at_ : (σ.session s).phase = .next) :
      Advanced env σ s ((σ.setPhase s .idle).modify s Session.runNextTask)

theorem advance_cases {env : Env} {σ σ' : World} {s : SessionPtr} (h : σ.advance env s = some σ') :
    Advanced env σ s σ' := by
  unfold World.advance at h
  cases hp : (σ.session s).phase with
  | starting => simp [hp] at h
  | idle => simp [hp] at h
  | drain =>
    simp only [hp, Option.some.injEq] at h
    exact h ▸ .drain hp
  | reply text =>
    simp only [hp, Option.some.injEq] at h
    exact h ▸ .reply text hp
  | loginLookup nickname =>
    simp only [hp, Option.ite_none_right_eq_some, Option.some.injEq] at h
    exact h.2 ▸ .lookup nickname hp
  | loginSet nickname =>
    simp only [hp, Option.some.injEq] at h
    exact h ▸ .name nickname hp
  | loginReady nickname =>
    simp only [hp, Option.some.injEq] at h
    exact h ▸ .ready nickname hp
  | loginRegister nickname =>
    simp only [hp, Option.ite_none_right_eq_some, Option.some.injEq] at h
    exact h.2 ▸ .register nickname hp
  | loginEvict nickname prev =>
    simp only [hp, Option.some.injEq] at h
    exact h ▸ .evict nickname prev hp
  | loginAck nickname =>
    simp only [hp, Option.some.injEq] at h
    exact h ▸ .ack nickname hp
  | next =>
    simp only [hp, Option.some.injEq] at h
    exact h ▸ .next hp

inductive Happened (env : Env) (σ : World) (s : SessionPtr) : Event → World → Prop where
  | start (at_ : (σ.session s).phase = .starting) :
      Happened env σ s .start ((σ.setPhase s .idle).start s)
  | strand (closure : Closure) (rest : List Closure) (queue : (σ.session s).strand = closure :: rest)
      (free : (σ.session s).strandFree = true) :
      Happened env σ s .strand ((σ.modify s fun o => { o with strand := rest }).runClosure env s closure)
  | readData (data : Bytes) (free : (σ.session s).strandFree = true) :
      Happened env σ s (.readData data) (σ.readData s data)
  | readError (aborted : Bool) (free : (σ.session s).strandFree = true) :
      Happened env σ s (.readError aborted) (σ.readError s aborted)
  | advance {σ' : World} (advanced : Advanced env σ s σ') : Happened env σ s .advance σ'
  | postWrite (text : Bytes) : Happened env σ s (.postWrite text) (σ.dispatch s (.write text))
  | writeDone (k : Nat) (w : PendingWrite) (ec : Bool)
      (pending : (σ.session s).asyncWrites[k]? = some w) :
      Happened env σ s (.writeDone k ec) (σ.onWrite s k w ec)
  | sweep : Happened env σ s .sweep ({ σ with toClose := σ.toClose.erase s }.closeSession s)
  | destroy (unowned : σ.owned s = false) :
      Happened env σ s .destroy { σ with live := Function.update σ.live s false }

theorem event_cases {env : Env} {σ σ' : World} {s : SessionPtr} {e : Event}
    (h : σ.event env s e = some σ') : Happened env σ s e σ' := by
  cases e with
  | start =>
    simp only [World.event, Option.ite_none_right_eq_some, Option.some.injEq] at h
    exact h.2 ▸ .start h.1
  | strand =>
    unfold World.event at h
    dsimp only at h
    split at h
    · cases h
    · rename_i closure rest queue
      simp only [Option.ite_none_right_eq_some, Option.some.injEq] at h
      exact h.2 ▸ .strand closure rest queue h.1
  | readData data =>
    simp only [World.event, Option.ite_none_right_eq_some, Option.some.injEq] at h
    exact h.2 ▸ .readData data h.1.1
  | readError aborted =>
    simp only [World.event, Option.ite_none_right_eq_some, Option.some.injEq] at h
    exact h.2 ▸ .readError aborted h.1.1
  | advance => exact .advance (advance_cases h)
  | postWrite text =>
    simp only [World.event, Option.some.injEq] at h
    exact h ▸ .postWrite text
  | writeDone k ec =>
    simp only [World.event, Option.ite_none_right_eq_some] at h
    obtain ⟨w, hk, rfl⟩ := Option.map_eq_some_iff.mp h.2
    exact .writeDone k w ec hk
  | sweep =>
    simp only [World.event, Option.ite_none_right_eq_some, Option.some.injEq] at h
    exact h.2 ▸ .sweep
  | destroy =>
    simp only [World.event] at h
    split at h
    · cases h
    · rename_i unowned
      exact Option.some.inj h ▸ .destroy (Bool.eq_false_iff.mpr unowned)

/-- A step is a new connection, a cleanup that collects sessions, or an event of a session
that exists. -/
theorem step_cases {env : Env} {σ σ' : World} {a : Act} (h : step env σ a = some σ') :
    (∃ now, a = .accept now ∧ σ' = σ.accept now) ∨
    (∃ collected, (∀ s e, a ≠ .on s e) ∧ σ' = { σ with toClose := σ.toClose ++ collected }) ∨
    ∃ s e, a = .on s e ∧ σ.live s = true ∧ Happened env σ s e σ' := by
  cases a with
  | accept now => exact Or.inl ⟨now, rfl, (Option.some.inj h).symm⟩
  | cleanupInactive shard now maxIdleTime =>
    simp only [step, Option.ite_none_right_eq_some, Option.some.injEq] at h
    exact Or.inr (Or.inl ⟨_, fun _ _ => nofun, h.2.symm⟩)
  | cleanupUnauth maxUnauth sorted =>
    simp only [step, Option.ite_none_right_eq_some, Option.some.injEq] at h
    exact Or.inr (Or.inl ⟨_, fun _ _ => nofun, h.2.symm⟩)
  | on s e =>
    simp only [step, Option.ite_none_right_eq_some] at h
    exact Or.inr (Or.inr ⟨s, e, rfl, h.1, event_cases h.2⟩)

theorem advance_step_cases {env : Env} {σ σ' : World} {s : SessionPtr}
    (h : step env σ (.on s .advance) = some σ') : Advanced env σ s σ' := by
  simp only [step, Option.ite_none_right_eq_some] at h
  exact advance_cases h.2

/-- A login as text and as the parser reads it. -/
def loginText (nickname : String) : Bytes × Json :=
  (utf8 ("\x7b\"type\":\"login\",\"nickname\":\"" ++ nickname ++ "\"\x7d"),
    .object [("nickname", .string nickname), ("type", .string "login")])

def connects (s : SessionPtr) : List Act := [.accept 0, .on s .start, .on s .strand]

/-- Packets arrive in one read, and the handler goes some steps. -/
def sends (s : SessionPtr) (packets : List Bytes) (steps : Nat) : List Act :=
  .on s (.readData (packets.flatMap (MessageBufferManager.frame .little))) ::
    List.replicate steps (.on s .advance)

end DBMiddleWare
