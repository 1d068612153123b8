import DBMiddleWare.SessionManager

/-!
# Sessions and manager together

The state shared by all threads, and the operations of `DataHandler`,
`SessionManager` and `Session` that reach from one object into another. The
`DataHandler` outlives every session handler, so `data_handler_.lock()` succeeds.
-/

namespace DBMiddleWare

set_option autoImplicit false

/-- What the model takes as given: the secret, nlohmann's parser and printer, the
settings, and the byte order of the host. -/
structure Env where
  secret : Bytes
  parse : Bytes → Option Json
  dump : Json → String
  config : Config
  host : ByteOrder.Endian

/-- An environment whose parser knows the texts of a table. -/
def Env.ofTable (secret : Bytes) (table : List (Bytes × Json)) : Env where
  secret := secret
  parse text := table.lookup text
  dump _ := ""
  config := {}
  host := .little

structure World where
  session : SessionPtr → Session
  /-- the objects that exist, so that `weak_ptr::lock` succeeds on them -/
  live : SessionPtr → Bool
  nextPtr : SessionPtr
  sessionCounter : Int32
  manager : SessionManager
  nicknameMutex : Option SessionPtr
  /-- sessions a cleanup has collected and not closed yet -/
  toClose : List SessionPtr

/-- A literal of the source as its bytes. -/
def utf8 (s : String) : Bytes := s.toUTF8.data.toList

namespace World

def init (shardCount : Nat) : World where
  session := fun _ => .new 0 0
  live := fun _ => false
  nextPtr := 0
  sessionCounter := 0
  manager := { shardCount := shardCount }
  nicknameMutex := none
  toClose := []

variable (σ : World) (s : SessionPtr)

def modify (f : Session → Session) : World :=
  { σ with session := Function.update σ.session s (f (σ.session s)) }

def setPhase (phase : Phase) : World := σ.modify s fun o => { o with phase := phase }

/-- `DataHandler::remove_session`; the removed session is only logged. -/
def removeSession (sessionId : Int32) : World :=
  { σ with manager := σ.manager.removeSession sessionId }

def closeSession : World :=
  if (σ.session s).closed then σ.modify s Session.shut
  else (σ.modify s Session.shut).removeSession (σ.session s).sessionId

def addSession : World :=
  let sessionId := (σ.session s).sessionId
  let replaced := σ.manager.findSession sessionId
  let σ := { σ with manager := σ.manager.insertSession sessionId s }
  match replaced with
  | some r => if (σ.session r).closed then σ else σ.closeSession r
  | none => σ

/-- `post_write` on the strand of the session, where the closure runs at once. -/
def postWrite (cfg : Config) (text : Bytes) : World := σ.modify s (Session.postWrite cfg text)

/-- The completion handler of `do_write_queue` for the `k`-th outstanding write; `ec` is
whether it failed. -/
def onWrite (k : Nat) (w : PendingWrite) (ec : Bool) : World :=
  let σ := σ.modify s (Session.takeWrite k)
  if w.generation ≠ (σ.session s).generation then σ
  else if ec then σ.closeSession s
  else σ.modify s (Session.writeDone w)

def dispatch (closure : Closure) : World :=
  σ.modify s fun o => { o with strand := o.strand ++ [closure] }

def postTask (cfg : Config) (fn : Task) : World :=
  if cfg.maxTaskQueue ≤ (σ.session s).taskQueue.length then σ.closeSession s
  else σ.modify s (Session.pushTask fn)

/-- `do_read` called on the strand, as the read handler does. -/
def doRead (cfg : Config) : World :=
  if (σ.session s).state = .closed then σ
  else if (σ.session s).readPending then σ
  else (σ.modify s fun o => { o with readPending := true }).postTask s cfg .read

/-- `start`: `do_read` called on the thread of the acceptor. -/
def start : World :=
  if (σ.session s).state = .closed then σ
  else if (σ.session s).readPending then σ
  else (σ.modify s fun o => { o with readPending := true }).dispatch s (.task .read)

/-- `weak_ptr::lock`. -/
def lock (r : SessionPtr) : Option SessionPtr := if σ.live r then some r else none

def findSessionByNickname (nickname : String) : Option SessionPtr :=
  (σ.manager.owner nickname).bind σ.lock

def setNickname (nickname : String) : World := σ.modify s fun o => { o with nickname := nickname }

def onNicknameRegistered : World :=
  σ.modify s fun o => { o with nicknameRegistered := true, state := .ready }

/-- `prev && prev != session` for the previous owner of the nickname. -/
def previousOwner (nickname : String) : Option SessionPtr :=
  (σ.findSessionByNickname nickname).filter fun prev => prev != s

def loggedInElsewhere : Bytes :=
  utf8 "\x7b\"type\":\"error\",\"msg\":\"다른 곳에서 로그인되어 기존 연결이 종료됩니다.\"\x7d\n"

def indexNickname (nickname : String) : World :=
  { σ.modify s fun o => { o with registrations := o.registrations ++ [nickname] } with
    manager := σ.manager.setOwner nickname s }

/-- `register_nickname`; the notice for the previous owner is left on its strand. -/
def registerNickname (nickname : String) : World :=
  match σ.previousOwner s nickname with
  | some prev =>
    ((σ.dispatch prev (.write loggedInElsewhere)).closeSession prev).indexNickname s nickname
  | none => σ.indexNickname s nickname

/-- What `cleanup_inactive_sessions` collects while it holds the lock of a shard. -/
def inactiveSessions (shard : Nat) (now maxIdleTime : Int) : List SessionPtr :=
  (σ.manager.shardSessions shard).filter fun s => maxIdleTime < now - (σ.session s).lastAliveTime

def unauthSessions : List SessionPtr :=
  σ.manager.allSessions.filter fun s =>
    (σ.session s).state = .handshaking ∨ (σ.session s).state = .loginWait

section Fields
variable (σ : World) (s t : SessionPtr) (f : Session → Session)

theorem modify_session :
    (σ.modify s f).session t = if t = s then f (σ.session s) else σ.session t := by
  by_cases h : t = s
  · subst h
    rw [if_pos rfl]
    exact Function.update_self ..
  · rw [if_neg h]
    exact Function.update_of_ne h ..

@[simp] theorem modify_session_self : (σ.modify s f).session s = f (σ.session s) :=
  Function.update_self ..

theorem modify_view {α : Type} (view : Session → α) (h : ∀ o, view (f o) = view o) :
    view ((σ.modify s f).session t) = view (σ.session t) := by
  rw [modify_session]
  split
  · rename_i heq
    rw [heq, h]
  · rfl

@[simp] theorem modify_modify (g : Session → Session) :
    (σ.modify s f).modify s g = σ.modify s fun o => g (f o) := by
  simp only [modify, Function.update_self, Function.update_idem]

theorem indexNickname_session (nickname : String) : (σ.indexNickname s nickname).session =
    (σ.modify s fun o => { o with registrations := o.registrations ++ [nickname] }).session := rfl

theorem closeSession_session : (σ.closeSession s).session = (σ.modify s Session.shut).session := by
  unfold closeSession
  split <;> rfl

theorem closeSession_session_self : (σ.closeSession s).session s = (σ.session s).shut := by
  rw [closeSession_session, modify_session_self]

theorem closeSession_session_of_ne (h : t ≠ s) : (σ.closeSession s).session t = σ.session t := by
  rw [closeSession_session, modify_session, if_neg h]

theorem closeSession_view {α : Type} (view : Session → α) (h : ∀ o, view o.shut = view o) :
    view ((σ.closeSession s).session t) = view (σ.session t) := by
  rw [closeSession_session]
  exact modify_view σ s t Session.shut view h

@[simp] theorem closeSession_owner (nickname : String) :
    (σ.closeSession s).manager.owner nickname = σ.manager.owner nickname := by
  unfold closeSession
  split <;> rfl

theorem closeSession_live : (σ.closeSession s).live = σ.live := by
  unfold closeSession
  split <;> rfl

theorem closeSession_nextPtr : (σ.closeSession s).nextPtr = σ.nextPtr := by
  unfold closeSession
  split <;> rfl

theorem closeSession_mutex : (σ.closeSession s).nicknameMutex = σ.nicknameMutex := by
  unfold closeSession
  split <;> rfl

theorem closeSession_toClose : (σ.closeSession s).toClose = σ.toClose := by
  unfold closeSession
  split <;> rfl

theorem dispatch_view {α : Type} (closure : Closure) (view : Session → α)
    (h : ∀ (o : Session) strand, view { o with strand := strand } = view o) :
    view ((σ.dispatch s closure).session t) = view (σ.session t) :=
  modify_view σ s t _ view fun o => h o _

theorem indexNickname_view {α : Type} (nickname : String) (view : Session → α)
    (h : ∀ (o : Session) registrations, view { o with registrations := registrations } = view o) :
    view ((σ.indexNickname s nickname).session t) = view (σ.session t) := by
  rw [indexNickname_session]
  exact modify_view σ s t _ view fun o => h o _

end Fields

end World

end DBMiddleWare
