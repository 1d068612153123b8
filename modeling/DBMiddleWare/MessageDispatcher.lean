import DBMiddleWare.World

/-!
# The message dispatcher

The two message handlers, `dispatch` with its pre- and post-login rules, and the body
of the drain loop with its catch block. A handler returns the exception it threw, if
any. What `dispatch` decides depends only on the packet and on whether the session is
logged in: `route` is that decision.
-/

namespace DBMiddleWare

set_option autoImplicit false

def nicknameRequired : Bytes :=
  utf8 "\x7b\"type\":\"login_ack\",\"result\":\"error\",\"msg\":\"Nickname is required.\"\x7d\n"

def nicknameInUse : Bytes :=
  utf8 "\x7b\"type\":\"login_ack\",\"result\":\"error\",\"msg\":\"Nickname already in use.\"\x7d\n"

def loginOk : Bytes := utf8 "\x7b\"type\":\"login_ack\",\"result\":\"ok\"\x7d\n"

def insertOk : Bytes := utf8 "\x7b\"type\":\"insert_ack\",\"result\":\"ok\"\x7d\n"

def unknownType : Bytes := utf8 "\x7b\"type\":\"error\",\"msg\":\"Unknown message type.\"\x7d\n"

def parsingFailed : Bytes := utf8 "\x7b\"type\":\"error\",\"msg\":\"Message parsing failed\"\x7d\n"

/-- One of the two loops of the insert handler: the pieces, separated by commas. -/
def appendAll (oss : String) (pieces : List String) : String :=
  (pieces.foldl (fun (oss, first) piece => ((if first then oss else oss ++ ", ") ++ piece, false))
    (oss, true)).1

/-- A value of the insert message as the handler prints it between quotes. -/
def quoted (env : Env) : Json → String
  | .string s => "'" ++ s ++ "'"
  | v => "'" ++ env.dump v ++ "'"

/-- The statement the insert handler builds. -/
def insertQuery (env : Env) (msg : Json) : Except JsonError String :=
  match msg.value "table" "" with
  | .error e => .error e
  | .ok table =>
    match msg.valueJson "values" (.object []) with
    | .error e => .error e
    | .ok values =>
      let oss := "INSERT INTO " ++ table ++ " ("
      let oss := appendAll oss (values.items.map Prod.fst)
      let oss := oss ++ ") VALUES ("
      let oss := appendAll oss (values.items.map fun item => quoted env item.2)
      .ok (oss ++ ");")

/-- `handlers_`, as the constructor fills it. -/
def handlers : List (String × HandlerName) := [("login", .login), ("insert", .insert)]

namespace World

variable (env : Env) (σ : World) (s : SessionPtr)

def ackLogin (nickname : String) : World :=
  (σ.modify s fun o => { o with acked := o.acked ++ [nickname] }).postWrite s env.config loginOk

def login (msg : Json) : World × Option JsonError :=
  match msg.value "nickname" "" with
  | .error e => (σ, some e)
  | .ok nickname =>
    if nickname = "" then (σ.postWrite s env.config nicknameRequired, none)
    else if (σ.findSessionByNickname nickname).isSome then
      (σ.postWrite s env.config nicknameInUse, none)
    else
      let σ := σ.setNickname s nickname
      let σ := σ.onNicknameRegistered s
      let σ := σ.registerNickname s nickname
      (σ.ackLogin env s nickname, none)

def insert (msg : Json) : World × Option JsonError :=
  match insertQuery env msg with
  | .error e => (σ, some e)
  | .ok _ => (σ.postWrite s env.config insertOk, none)

def noteHandler (h : HandlerName) : World := σ.modify s fun o => { o with handled := o.handled ++ [h] }

def callHandler (h : HandlerName) (msg : Json) : World × Option JsonError :=
  match h with
  | .login => login env (σ.noteHandler s h) s msg
  | .insert => insert env (σ.noteHandler s h) s msg

/-- The type dispatch at the end of `dispatch`. -/
def dispatchType (msg : Json) : World × Option JsonError :=
  match msg.value "type" "" with
  | .error e => (σ, some e)
  | .ok type =>
    match handlers.lookup type with
    | some h => σ.callHandler env s h msg
    | none => (σ.postWrite s env.config unknownType, none)

def hasSecretPrefix (packet : Bytes) : Bool :=
  decide (env.secret.length ≤ packet.length) && packet.take env.secret.length == env.secret

def dispatchPacket (packet : Bytes) : World × Option JsonError :=
  let hasSecret := hasSecretPrefix env packet
  if !(σ.session s).nicknameRegistered then
    if !hasSecret then (σ.closeSession s, none)
    else
      match env.parse (packet.drop env.secret.length) with
      | none => (σ.closeSession s, none)
      | some msg =>
        match msg.value "type" "" with
        | .error e => (σ, some e)
        | .ok type =>
          if type ≠ "login" then (σ.closeSession s, none) else σ.dispatchType env s msg
  else
    match env.parse (if hasSecret then packet.drop env.secret.length else packet) with
    | none => (σ.closeSession s, none)
    | some msg =>
      match msg.value "type" "" with
      | .error e => (σ, some e)
      | .ok type =>
        if type = "keepalive" && !hasSecret then (σ.closeSession s, none)
        else σ.dispatchType env s msg

def noteReceived (packet : Bytes) : World :=
  σ.modify s fun o => { o with received := o.received ++ [packet] }

/-- The body of the drain loop of `do_read`, catch block included. -/
def handlePacket (packet : Bytes) : World :=
  match (σ.noteReceived s packet).dispatchPacket env s packet with
  | (σ, none) => σ
  | (σ, some _) => σ.postWrite s env.config parsingFailed

end World

inductive Route where
  | close
  | raise (e : JsonError)
  | unknown
  | handler (h : HandlerName) (msg : Json)

def routeType (msg : Json) : Route :=
  match msg.value "type" "" with
  | .error e => .raise e
  | .ok type =>
    match handlers.lookup type with
    | some h => .handler h msg
    | none => .unknown

open World in
def route (env : Env) (registered : Bool) (packet : Bytes) : Route :=
  let hasSecret := hasSecretPrefix env packet
  if !registered then
    if !hasSecret then .close
    else
      match env.parse (packet.drop env.secret.length) with
      | none => .close
      | some msg =>
        match msg.value "type" "" with
        | .error e => .raise e
        | .ok type => if type ≠ "login" then .close else routeType msg
  else
    match env.parse (if hasSecret then packet.drop env.secret.length else packet) with
    | none => .close
    | some msg =>
      match msg.value "type" "" with
      | .error e => .raise e
      | .ok type => if type = "keepalive" && !hasSecret then .close else routeType msg

/-- What `dispatch` does with a decision. -/
def World.follow (env : Env) (σ : World) (s : SessionPtr) : Route → World × Option JsonError
  | .close => (σ.closeSession s, none)
  | .raise e => (σ, some e)
  | .unknown => (σ.postWrite s env.config unknownType, none)
  | .handler h msg => σ.callHandler env s h msg

theorem dispatchType_eq_follow (env : Env) (σ : World) (s : SessionPtr) (msg : Json) :
    σ.dispatchType env s msg = σ.follow env s (routeType msg) := by
  unfold World.dispatchType routeType
  cases msg.value "type" "" with
  | error e => rfl
  | ok type => cases h : handlers.lookup type <;> simp only [h] <;> rfl

theorem dispatchPacket_eq_follow (env : Env) (σ : World) (s : SessionPtr) (packet : Bytes) :
    σ.dispatchPacket env s packet =
      σ.follow env s (route env (σ.session s).nicknameRegistered packet) := by
  unfold World.dispatchPacket route
  simp only [dispatchType_eq_follow]
  split
  · split
    · rfl
    · split
      · rfl
      · split
        · rfl
        · split <;> rfl
  · split
    · rfl
    · split
      · rfl
      · split <;> rfl

/-- What the drain loop makes of the outcome of `dispatch`. -/
def World.settle (env : Env) (s : SessionPtr) : World × Option JsonError → World
  | (σ, none) => σ
  | (σ, some _) => σ.postWrite s env.config parsingFailed

theorem handlePacket_eq_settle (env : Env) (σ : World) (s : SessionPtr) (packet : Bytes) :
    σ.handlePacket env s packet = World.settle env s
      ((σ.noteReceived s packet).follow env s (route env (σ.session s).nicknameRegistered packet)) := by
  have hregistered : ((σ.noteReceived s packet).session s).nicknameRegistered =
      (σ.session s).nicknameRegistered := by
    rw [World.noteReceived, World.modify_session_self]
  rw [← hregistered, ← dispatchPacket_eq_follow]
  rfl

end DBMiddleWare
