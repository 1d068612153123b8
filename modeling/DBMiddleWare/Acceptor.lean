import DBMiddleWare.AllowedIPManager
import DBMiddleWare.Library.Exceptions
import DBMiddleWare.Registry

/-!
# The acceptor

The completion handler of `async_accept` and what its calls may throw. An exception that
leaves the handler leaves `io_context::run` as well: the thread of `main` logs it and ends.
-/

namespace DBMiddleWare

open Execution Exceptions
set_option autoImplicit false

/-- The calls of the accept handler that can throw. `close_session`, `get_client_ip` and
`get_client_port` catch what they call. -/
inductive AcceptCall where
  | remoteEndpoint
  | warn
  | close
  | makeShared
  | addSession
  | start
  | info
  | asyncAccept
  deriving Repr, DecidableEq

/-- A completed `async_accept`: its error code, the address of the peer, and the calls of
the handler that throw this time. -/
structure Completion where
  ec : Int32
  ip : Bytes
  now : Int
  raises : AcceptCall → Bool

/-- The calls for a peer that is on the whitelist or is not. -/
def peerCalls (allowed : Bool) : List AcceptCall :=
  if allowed then [.makeShared, .addSession, .start, .info] else [.warn, .close]

def Completion.calls (c : Completion) (allowed : Bool) : List AcceptCall :=
  (if c.ec = 0 then .remoteEndpoint :: peerCalls allowed else []) ++ [.asyncAccept]

structure Server where
  world : World
  allowedIpMgr : AllowedIPManager
  /-- accepts that have been started and have not completed -/
  asyncAccepts : Nat
  /-- threads inside `io.run()` -/
  ioThreads : Nat
  -- record of the exceptions that left `io.run()`, and of the peers of the sessions
  escaped : List AcceptCall := []
  clientIp : SessionPtr → Bytes := fun _ => []

namespace World

def fetchAdd (σ : World) : World := { σ with sessionCounter := σ.sessionCounter + 1 }

def makeSession (σ : World) (sessionId : Int32) (now : Int) : World :=
  { σ with
    session := Function.update σ.session σ.nextPtr (.new sessionId now)
    live := Function.update σ.live σ.nextPtr true
    nextPtr := σ.nextPtr + 1 }

end World

namespace Server

abbrev Handler := EStateM AcceptCall Server

def call (c : Completion) (k : AcceptCall) : Handler Unit := if c.raises k then throw k else pure ()

def onWorld (f : World → World) (x : Server) : Server := { x with world := f x.world }

def noteClient (ip : Bytes) (x : Server) : Server :=
  { x with clientIp := Function.update x.clientIp x.world.nextPtr ip }

def makeSession (c : Completion) : Handler SessionPtr := do
  let x ← get
  modify (onWorld World.fetchAdd)
  call c .makeShared
  modify fun y => (y.noteClient c.ip).onWorld fun σ => σ.makeSession x.world.sessionCounter c.now
  return x.world.nextPtr

/-- When `add_session` throws, the last reference to the session goes. -/
def addSession (c : Completion) (session : SessionPtr) : Handler Unit := do
  if c.raises .addSession then
    modify (onWorld fun σ => { σ with live := Function.update σ.live session false })
    throw .addSession
  else
    modify (onWorld fun σ => σ.addSession session)

def start (c : Completion) (session : SessionPtr) : Handler Unit := do
  call c .start
  modify (onWorld fun σ => (σ.setPhase session .idle).start session)

def admitPeer (c : Completion) (allowed : Bool) : Handler Unit := do
  if !allowed then
    call c .warn
    call c .close
  else
    let session ← makeSession c
    addSession c session
    start c session
    call c .info

def onConnected (c : Completion) : Handler Unit := do
  if c.ec = 0 then
    call c .remoteEndpoint
    let x ← get
    admitPeer c (x.allowedIpMgr.isAllowed c.ip)

def startAccept (c : Completion) : Handler Unit := do
  call c .asyncAccept
  modify fun x => { x with asyncAccepts := x.asyncAccepts + 1 }

def onAccept (c : Completion) : Handler Unit := do
  onConnected c
  startAccept c

/-- A thread inside `io.run()` runs the handler; its catch block ends the thread. -/
def complete (x : Server) (c : Completion) : Server :=
  match (onAccept c).run { x with asyncAccepts := x.asyncAccepts - 1 } with
  | .ok _ y => y
  | .error e y => { y with ioThreads := y.ioThreads - 1, escaped := y.escaped ++ [e] }

inductive Act where
  | completion (c : Completion)
  /-- the other handlers and threads -/
  | other (a : DBMiddleWare.Act)

def ofAcceptor : DBMiddleWare.Act → Bool
  | .accept _ => true
  | .on _ .start => true
  | _ => false

def step (env : Env) (x : Server) : Act → Option Server
  | .completion c => if x.asyncAccepts = 0 ∨ x.ioThreads = 0 then none else some (x.complete c)
  | .other a => if ofAcceptor a then none else (DBMiddleWare.step env x.world a).map
      fun σ => { x with world := σ }

/-- After the constructor, which starts the first accept, and the start of the threads. -/
def init (shardCount : Nat) (allowed : AllowedIPManager) (hardwareConcurrency : Nat) : Server where
  world := .init shardCount
  allowedIpMgr := allowed
  asyncAccepts := 1
  ioThreads := if hardwareConcurrency = 0 then 4 else hardwareConcurrency

/-- Sessions are made for peers of the whitelist, and only these are registered. -/
structure Whitelisted (x : Server) : Prop where
  created : ∀ s, s < x.world.nextPtr → x.allowedIpMgr.isAllowed (x.clientIp s) = true
  registered : ∀ id s, x.world.manager.findSession id = some s → s < x.world.nextPtr

/-- The part of the server that the handler leaves alone up to its last statement. -/
def rest (x : Server) : AllowedIPManager × Nat × Nat × List AcceptCall :=
  (x.allowedIpMgr, x.asyncAccepts, x.ioThreads, x.escaped)

structure Kept (r : AllowedIPManager × Nat × Nat × List AcceptCall) (x : Server) : Prop where
  whitelisted : Whitelisted x
  rest : x.rest = r

section Handler
variable {P : Server → Prop} {Q : Unit → Server → Prop} {E : AcceptCall → Server → Prop} {c : Completion}

theorem triple_call {k : AcceptCall} (ok : ∀ x, P x → c.raises k = false → Q () x)
    (error : ∀ x, P x → c.raises k = true → E k x) : Triple P (call c k) Q E := by
  intro x hx
  unfold call
  cases hk : c.raises k with
  | true => exact .error (error x hx hk)
  | false => exact .ok (ok x hx hk)

theorem call_keeps (k : AcceptCall) : Keeps P (call c k) :=
  triple_call (fun _ hx _ => hx) fun _ hx _ => hx

end Handler

section Sessions
variable {σ : World} {r : AllowedIPManager × Nat × Nat × List AcceptCall} {c : Completion}

theorem addSession_nextPtr (s : SessionPtr) : (σ.addSession s).nextPtr = σ.nextPtr := by
  rcases addSession_cases σ s with h | ⟨t, _, h⟩
  · rw [h]
  · rw [h, World.closeSession_nextPtr]

theorem addSession_registered {s t : SessionPtr} {id : Int32}
    (h : (σ.addSession s).manager.findSession id = some t) :
    t = s ∨ σ.manager.findSession id = some t := by
  have hinsert : ∀ id, (σ.manager.insertSession (σ.session s).sessionId s).findSession id = some t →
      t = s ∨ σ.manager.findSession id = some t := by
    intro id hid
    rw [SessionManager.findSession_insertSession] at hid
    split at hid
    · exact Or.inl (Option.some.inj hid).symm
    · exact Or.inr hid
  rcases addSession_cases σ s with heq | ⟨u, _, heq⟩
  · rw [heq] at h
    exact hinsert id h
  · rw [heq, closeSession_findSession] at h
    split at h
    · cases h
    · exact hinsert id h

theorem keeps_makeSession :
    Triple (fun x => Kept r x ∧ x.allowedIpMgr.isAllowed c.ip = true) (makeSession c)
    (fun s x => Kept r x ∧ s < x.world.nextPtr) fun _ => Kept r := by
  unfold makeSession
  refine .bind (Q := fun y x => y = x ∧ Kept r x ∧ x.allowedIpMgr.isAllowed c.ip = true)
    (.get fun x hx => ⟨rfl, hx⟩) fun y => ?_
  refine .bind (Q := fun _ x => x.world.nextPtr = y.world.nextPtr ∧ Kept r x ∧
      x.allowedIpMgr.isAllowed c.ip = true) (.modify fun x hx => ?_) fun _ => ?_
  · obtain ⟨rfl, hkept, hallowed⟩ := hx
    exact ⟨rfl, ⟨⟨hkept.whitelisted.created, hkept.whitelisted.registered⟩, hkept.rest⟩, hallowed⟩
  refine .bind (Q := fun _ x => x.world.nextPtr = y.world.nextPtr ∧ Kept r x ∧
    x.allowedIpMgr.isAllowed c.ip = true) (triple_call (fun _ hx _ => hx) fun _ hx _ => hx.2.1)
      fun _ => ?_
  refine .bind (Q := fun _ x => Kept r x ∧ y.world.nextPtr < x.world.nextPtr) (.modify fun x hx => ?_)
    fun _ => .pure fun _ hx => hx
  obtain ⟨hnext, hkept, hallowed⟩ := hx
  refine ⟨⟨⟨fun s hs => ?_, fun id s hs => ?_⟩, hkept.rest⟩, ?_⟩
  · change x.allowedIpMgr.isAllowed (Function.update x.clientIp x.world.nextPtr c.ip s) = true
    by_cases hnew : s = x.world.nextPtr
    · rw [hnew, Function.update_self]
      exact hallowed
    · rw [Function.update_of_ne hnew]
      exact hkept.whitelisted.created s (Nat.lt_of_le_of_ne (Nat.lt_succ_iff.mp hs) hnew)
  · exact Nat.lt_succ_of_lt (hkept.whitelisted.registered id s hs)
  · rw [← hnext]
    exact Nat.lt_succ_self _

theorem keeps_addSession (s : SessionPtr) :
    Triple (fun x => Kept r x ∧ s < x.world.nextPtr) (addSession c s)
    (fun _ => Kept r) fun _ => Kept r := by
  unfold addSession
  refine .ite (fun _ => ?_) fun _ => .modify fun x hx => ?_
  · refine .bind (Q := fun _ => Kept r) (.modify fun x hx => ?_) fun _ => ?_
    · exact ⟨⟨hx.1.whitelisted.created, hx.1.whitelisted.registered⟩, hx.1.rest⟩
    · exact .throw fun _ hx => hx
  · obtain ⟨hkept, hs⟩ := hx
    refine ⟨⟨fun t ht => ?_, fun id t ht => ?_⟩, hkept.rest⟩
    · change t < (x.world.addSession s).nextPtr at ht
      rw [addSession_nextPtr] at ht
      exact hkept.whitelisted.created t ht
    · change t < (x.world.addSession s).nextPtr
      rw [addSession_nextPtr]
      rcases addSession_registered ht with rfl | hold
      · exact hs
      · exact hkept.whitelisted.registered id t hold

theorem keeps_start (s : SessionPtr) : Keeps (Kept r) (start c s) := by
  unfold start
  refine .bind (call_keeps .start) fun _ => .modify fun x hx => ?_
  have hstart : ((x.world.setPhase s .idle).start s).nextPtr = x.world.nextPtr ∧
      ((x.world.setPhase s .idle).start s).manager = x.world.manager := by
    unfold World.start
    split
    · exact ⟨rfl, rfl⟩
    · split
      · exact ⟨rfl, rfl⟩
      · exact ⟨rfl, rfl⟩
  refine ⟨⟨fun t ht => ?_, fun id t ht => ?_⟩, hx.rest⟩
  · exact hx.whitelisted.created t (hstart.1 ▸ ht)
  · change ((x.world.setPhase s .idle).start s).manager.findSession id = some t at ht
    change t < ((x.world.setPhase s .idle).start s).nextPtr
    rw [hstart.2] at ht
    rw [hstart.1]
    exact hx.whitelisted.registered id t ht

theorem keeps_admitPeer (allowed : Bool) :
    Triple (fun x => Kept r x ∧ x.allowedIpMgr.isAllowed c.ip = allowed) (admitPeer c allowed)
      (fun _ => Kept r) fun _ => Kept r := by
  unfold admitPeer
  refine .ite (fun hblocked => ?_) fun hallowed => ?_
  · refine .bind (Q := fun _ => Kept r) ?_ fun _ => call_keeps .close
    exact (call_keeps .warn).pre fun _ hx => hx.1
  · refine .bind (keeps_makeSession.pre fun x hx => ⟨hx.1, ?_⟩) fun s => ?_
    · rw [hx.2]
      simpa using hallowed
    · refine .bind (keeps_addSession s) fun _ => ?_
      exact .bind (keeps_start s) fun _ => call_keeps .info

/-- However the handler ends before its last statement, no other peer has a session. -/
theorem keeps_onConnected : Keeps (Kept r) (onConnected c) := by
  unfold onConnected
  refine .ite (fun _ => ?_) fun _ => .pure fun _ hx => hx
  refine .bind (call_keeps .remoteEndpoint) fun _ => ?_
  refine .bind (Q := fun y x => y = x ∧ Kept r x) (.get fun x hx => ⟨rfl, hx⟩) fun y => ?_
  apply (keeps_admitPeer (y.allowedIpMgr.isAllowed c.ip)).pre
  intro x hx
  exact ⟨hx.2, hx.1 ▸ rfl⟩

end Sessions

/-- The program ends when none of the calls throws, and otherwise with the exception of one. -/
def Calls {α : Type} (c : Completion) (ks : List AcceptCall) (p : Handler α) : Prop :=
  Triple (fun _ => True) p (fun _ _ => ∀ k ∈ ks, c.raises k = false)
    fun e _ => e ∈ ks ∧ c.raises e = true

section Calls
variable {α β : Type} {c : Completion} {ks ls : List AcceptCall}

theorem calls_call (k : AcceptCall) : Calls c [k] (call c k) := by
  apply triple_call
  · intro _ _ hk l hl
    rwa [List.mem_singleton.mp hl]
  · intro _ _ hk
    exact ⟨List.mem_singleton_self k, hk⟩

theorem calls_modify (f : Server → Server) : Calls c [] (modify f) := .modify fun _ _ _ hk => nomatch hk

theorem calls_pure (a : α) : Calls c [] (pure a) := .pure fun _ _ _ hk => nomatch hk

theorem Calls.bind {p : Handler α} {f : α → Handler β} (h : Calls c ks p) (h' : ∀ a, Calls c ls (f a)) :
    Calls c (ks ++ ls) (p >>= f) := by
  refine Triple.bind (h.conseq (fun _ hs => hs) (fun _ _ hks => hks) fun e _ he => ?_) fun a => ?_
  · exact ⟨List.mem_append_left ls he.1, he.2⟩
  · intro s hks
    refine (h' a s trivial).mono (fun _ _ hls k hk => ?_) fun e _ he => ?_
    · exact (List.mem_append.mp hk).elim (hks k) (hls k)
    · exact ⟨List.mem_append_right ks he.1, he.2⟩

theorem calls_get {f : Server → Handler β} (h : ∀ x, Calls c ks (f x)) : Calls c ks (get >>= f) :=
  fun x hx => h x x hx

theorem calls_makeSession : Calls c [.makeShared] (makeSession c) :=
  calls_get fun _ => (calls_modify _).bind fun _ => (calls_call .makeShared).bind fun _ =>
    (calls_modify _).bind fun _ => calls_pure _

theorem calls_addSession (s : SessionPtr) : Calls c [.addSession] (addSession c s) := by
  unfold addSession
  refine Triple.ite (fun hraises => ?_) fun hquiet => ?_
  · refine .bind (Q := fun _ _ => True) (.modify fun _ _ => trivial) fun _ => ?_
    exact .throw fun _ _ => ⟨List.mem_singleton_self _, hraises⟩
  · refine .modify fun _ _ k hk => ?_
    rw [List.mem_singleton.mp hk]
    exact Bool.eq_false_iff.mpr hquiet

theorem calls_start (s : SessionPtr) : Calls c [.start] (start c s) :=
  (calls_call .start).bind fun _ => calls_modify _

theorem calls_startAccept : Calls c [.asyncAccept] (startAccept c) :=
  (calls_call .asyncAccept).bind fun _ => calls_modify _

theorem calls_admitPeer (allowed : Bool) : Calls c (peerCalls allowed) (admitPeer c allowed) := by
  cases allowed with
  | false => exact (calls_call .warn).bind fun _ => calls_call .close
  | true =>
    refine calls_makeSession.bind fun s => ?_
    exact (calls_addSession s).bind fun _ => (calls_start s).bind fun _ => calls_call .info

/-- The handler ends by its last statement exactly when no call on its way throws. -/
theorem exits_onAccept (x : Server) :
    Exit (fun _ _ => ∀ k ∈ c.calls (x.allowedIpMgr.isAllowed c.ip), c.raises k = false)
      (fun e _ => e ∈ c.calls (x.allowedIpMgr.isAllowed c.ip) ∧ c.raises e = true)
      ((onAccept c).run x) := by
  unfold onAccept onConnected Completion.calls
  by_cases hec : c.ec = 0
  · rw [if_pos hec, if_pos hec, EStateM.run_bind, EStateM.run_bind]
    cases hraises : c.raises .remoteEndpoint with
    | true =>
      rw [show (call c .remoteEndpoint).run x = .error .remoteEndpoint x by simp [call, hraises]]
      exact .error ⟨by simp, hraises⟩
    | false =>
      rw [show (call c .remoteEndpoint).run x = .ok () x by simp [call, hraises]]
      have hrest : Calls c (peerCalls (x.allowedIpMgr.isAllowed c.ip) ++ [.asyncAccept]) (do
          admitPeer c (x.allowedIpMgr.isAllowed c.ip)
          startAccept c) := (calls_admitPeer _).bind fun _ => calls_startAccept
      refine (hrest x trivial).mono (fun _ _ hks k hk => ?_) fun e _ he => ?_
      · rcases List.mem_cons.mp hk with rfl | hk
        · exact hraises
        · exact hks k hk
      · exact ⟨List.mem_cons_of_mem _ he.1, he.2⟩
  · rw [if_neg hec, if_neg hec]
    exact ((calls_pure _).bind fun _ => calls_startAccept) x trivial

end Calls

def Quiet (x : Server) (c : Completion) : Prop :=
  ∀ k ∈ c.calls (x.allowedIpMgr.isAllowed c.ip), c.raises k = false

/-- The completions of a run go through the handler without an exception. -/
def Unthrown (x : Server) : Act → Prop
  | .completion c => Quiet x c
  | .other _ => True

instance (x : Server) (c : Completion) : Decidable (Quiet x c) := by
  unfold Quiet
  infer_instance

instance (x : Server) : ∀ a, Decidable (Unthrown x a)
  | .completion c => inferInstanceAs (Decidable (Quiet x c))
  | .other _ => instDecidableTrue

structure Accepting (x : Server) : Prop where
  outstanding : x.asyncAccepts = 1
  contained : x.escaped = []
  whitelisted : Whitelisted x

section Steps
variable {env : Env} {x x' : Server} {c : Completion}

theorem keeps_onAccept (m : AllowedIPManager) (n t : Nat) (es : List AcceptCall) :
    Triple (Kept (m, n, t, es)) (onAccept c) (fun _ => Kept (m, n + 1, t, es))
      fun _ => Kept (m, n, t, es) := by
  unfold onAccept startAccept
  refine .bind keeps_onConnected fun _ => .bind (call_keeps .asyncAccept) fun _ => .modify fun y hy => ?_
  have hrest := hy.rest
  simp only [rest, Prod.mk.injEq] at hrest
  refine ⟨⟨hy.whitelisted.created, hy.whitelisted.registered⟩, ?_⟩
  simp only [rest, hrest]

/-- A completion renews the accept, or an exception ends a thread. -/
theorem complete_cases (h : Whitelisted x) :
    (Quiet x c ∧ Kept (x.allowedIpMgr, x.asyncAccepts - 1 + 1, x.ioThreads, x.escaped) (x.complete c)) ∨
    (¬ Quiet x c ∧ ∃ e,
      Kept (x.allowedIpMgr, x.asyncAccepts - 1, x.ioThreads - 1, x.escaped ++ [e]) (x.complete c)) := by
  have hexit := exits_onAccept (c := c) { x with asyncAccepts := x.asyncAccepts - 1 }
  have hkeeps := keeps_onAccept (c := c) x.allowedIpMgr (x.asyncAccepts - 1) x.ioThreads x.escaped
    { x with asyncAccepts := x.asyncAccepts - 1 } ⟨⟨h.created, h.registered⟩, rfl⟩
  unfold complete
  cases hrun : (onAccept c).run { x with asyncAccepts := x.asyncAccepts - 1 } with
  | ok _ y =>
    rw [hrun] at hexit hkeeps
    exact Or.inl ⟨hexit.of_ok, hkeeps.of_ok⟩
  | error e y =>
    rw [hrun] at hexit hkeeps
    obtain ⟨hcalled, hraised⟩ := hexit.of_error
    have hkept := hkeeps.of_error
    have hrest := hkept.rest
    simp only [rest, Prod.mk.injEq] at hrest
    refine Or.inr ⟨fun hquiet => ?_, e, ⟨⟨hkept.whitelisted.created, hkept.whitelisted.registered⟩, ?_⟩⟩
    · have hnot := hquiet e hcalled
      rw [hraised] at hnot
      cases hnot
    · simp only [rest, hrest]

def CreatesNone (_ : Control) (op : Control.Op) : Prop := ∀ sessionId, op ≠ .accept sessionId

theorem creates_none_step {c₀ c c' : Control} {op : Control.Op} (none : CreatesNone c op)
    (step : Control.Step env c op c')
    (h : c.nextPtr = c₀.nextPtr ∧ ∀ id s, c.manager.findSession id = some s →
      c₀.manager.findSession id = some s) :
    c'.nextPtr = c₀.nextPtr ∧ ∀ id s, c'.manager.findSession id = some s →
      c₀.manager.findSession id = some s := by
  cases step with
  | accept sessionId => exact absurd rfl (none sessionId)
  | close s =>
    exact ⟨(c.close_nextPtr s).trans h.1, fun id t ht => h.2 id t (Control.close_findSession c s t ht).1⟩
  | _ => exact h

/-- Nothing but the accept handler creates or registers a session. -/
theorem whitelisted_other {a : DBMiddleWare.Act} {σ : World} (h : Whitelisted x)
    (acceptor : ¬ ofAcceptor a = true)
    (hstep : DBMiddleWare.step env x.world a = some σ) : Whitelisted { x with world := σ } := by
  have hwatch : Watch env CreatesNone x.world a := by
    constructor
    · rintro c op hop sessionId rfl
      cases hop
    · rintro now rfl
      exact absurd rfl acceptor
    · exact fun _ _ _ => nofun
    · exact fun _ _ _ _ _ => nofun
    · exact fun _ _ _ _ _ => nofun
    · exact fun _ _ _ _ => nofun
    · exact fun _ _ _ _ => nofun
    · exact fun _ _ _ _ _ _ => nofun
  have hσ := watched_preserved (I := fun c : Control => c.nextPtr = x.world.control.nextPtr ∧
      ∀ id s, c.manager.findSession id = some s → x.world.control.manager.findSession id = some s)
    (fun _ _ _ => creates_none_step) hwatch hstep ⟨rfl, fun _ _ hs => hs⟩
  constructor
  · intro s hs
    change s < σ.control.nextPtr at hs
    rw [hσ.1] at hs
    exact h.created s hs
  · intro id s hs
    change s < σ.control.nextPtr
    rw [hσ.1]
    exact h.registered id s (hσ.2 id s hs)

/-- As long as no exception has left `io.run()`, its threads are there. -/
theorem threads_step {a : Act} (h : Whitelisted x ∧ (x.escaped = [] → x.ioThreads ≠ 0))
    (hx : step env x a = some x') : Whitelisted x' ∧ (x'.escaped = [] → x'.ioThreads ≠ 0) := by
  cases a with
  | completion c =>
    simp only [step, Option.ite_none_left_eq_some, Option.some.injEq] at hx
    obtain ⟨_, rfl⟩ := hx
    rcases complete_cases (c := c) h.1 with ⟨_, hkept⟩ | ⟨_, e, hkept⟩
    · have hrest := hkept.rest
      simp only [rest, Prod.mk.injEq] at hrest
      rw [hrest.2.2.1, hrest.2.2.2]
      exact ⟨hkept.whitelisted, h.2⟩
    · have hrest := hkept.rest
      simp only [rest, Prod.mk.injEq] at hrest
      rw [hrest.2.2.2]
      exact ⟨hkept.whitelisted, fun hnone => by simp at hnone⟩
  | other a =>
    simp only [step, Option.ite_none_left_eq_some, Option.map_eq_some_iff] at hx
    obtain ⟨hacceptor, σ, hσ, rfl⟩ := hx
    exact ⟨whitelisted_other h.1 hacceptor hσ, h.2⟩

theorem Accepting.step {a : Act} (h : Accepting x) (unthrown : Unthrown x a)
    (hx : step env x a = some x') :
    Accepting x' := by
  cases a with
  | completion c =>
    simp only [Server.step, Option.ite_none_left_eq_some, Option.some.injEq] at hx
    obtain ⟨_, rfl⟩ := hx
    rcases complete_cases (c := c) h.whitelisted with ⟨_, hkept⟩ | ⟨hnot, _⟩
    · have hrest := hkept.rest
      simp only [rest, Prod.mk.injEq] at hrest
      refine ⟨?_, hrest.2.2.2.trans h.contained, hkept.whitelisted⟩
      rw [hrest.2.1, h.outstanding]
    · exact absurd unthrown hnot
  | other a =>
    simp only [Server.step, Option.ite_none_left_eq_some, Option.map_eq_some_iff] at hx
    obtain ⟨hacceptor, σ, hσ, rfl⟩ := hx
    exact ⟨h.outstanding, h.contained, whitelisted_other h.whitelisted hacceptor hσ⟩

/-- A call that throws loses the accept, and its exception ends a thread. -/
theorem not_accepting_of_thrown {a : Act} (h : Accepting x) (threads : x.ioThreads ≠ 0)
    (thrown : ¬ Unthrown x a) :
    ∃ y, step env x a = some y ∧ ¬ Accepting y := by
  cases a with
  | completion c =>
    refine ⟨x.complete c, ?_, fun hy => ?_⟩
    · rw [step, if_neg (by simp [h.outstanding, threads])]
    · rcases complete_cases (c := c) h.whitelisted with ⟨hquiet, _⟩ | ⟨_, e, hkept⟩
      · exact thrown hquiet
      · have hrest := hkept.rest
        simp only [rest, Prod.mk.injEq] at hrest
        have hcontained := hy.contained
        rw [hrest.2.2.2] at hcontained
        simp at hcontained
  | other a => exact absurd trivial thrown

theorem init_whitelisted (shardCount : Nat) (allowed : AllowedIPManager) (hardwareConcurrency : Nat) :
    Whitelisted (init shardCount allowed hardwareConcurrency) :=
  ⟨nofun, fun id s hs => by simp [init, World.init, SessionManager.findSession,
    SessionManager.bucket] at hs⟩

theorem threads_of_run {shardCount : Nat} {allowed : AllowedIPManager} {hardwareConcurrency : Nat}
    {acts : List Act}
    (run : exec (step env) (init shardCount allowed hardwareConcurrency) acts = some x) :
    Whitelisted x ∧ (x.escaped = [] → x.ioThreads ≠ 0) := by
  refine invariant (I := fun x => Whitelisted x ∧ (x.escaped = [] → x.ioThreads ≠ 0))
    (fun _ _ _ h hx => threads_step h hx) ⟨init_whitelisted shardCount allowed hardwareConcurrency,
      fun _ => ?_⟩ run
  unfold init
  dsimp only
  split
  · nofun
  · assumption

end Steps

/-- After every completion of a run one accept is outstanding, no exception has reached `io.run()`
and only whitelisted peers have sessions, exactly when no call on the way of a completion throws. -/
theorem acceptor_kept_iff (env : Env) (shardCount : Nat) (allowed : AllowedIPManager)
    (hardwareConcurrency : Nat) (acts : List Act) :
    (∀ as x, as <+: acts → exec (step env) (init shardCount allowed hardwareConcurrency) as = some x →
      Accepting x) ↔
      Along (step env) Unthrown (init shardCount allowed hardwareConcurrency) acts := by
  constructor
  · intro haccepting
    rw [along_iff]
    intro as a hpre x run
    by_contra thrown
    have hx : Accepting x := haccepting as x ((List.prefix_append as [a]).trans hpre) run
    have hthreads := (threads_of_run run).2 hx.contained
    obtain ⟨y, hy, hnot⟩ : ∃ y, step env x a = some y ∧ ¬ Accepting y :=
      not_accepting_of_thrown hx hthreads thrown
    exact hnot (haccepting (as ++ [a]) y hpre (exec_concat_eq_some.mpr ⟨x, run, hy⟩))
  · intro unthrown as x hpre run
    exact invariant_along (fun _ _ _ h hg hx => h.step hg hx)
      (⟨rfl, rfl, init_whitelisted shardCount allowed hardwareConcurrency⟩ : Accepting (init _ _ _))
      (along_initial unthrown hpre) run

/-- A peer of the whitelist that has disconnected when the handler asks for its address. -/
def vanished : Completion where
  ec := 0
  ip := utf8 "10.0.0.1"
  now := 0
  raises k := k = .remoteEndpoint

theorem vanished_peer_loses_acceptor :
    (exec (step (Env.ofTable [] [])) (init 4 ⟨[utf8 "10.0.0.1"]⟩ 4) [.completion vanished]).map
      (fun x => (x.asyncAccepts, x.ioThreads, x.escaped)) = some (0, 3, [.remoteEndpoint]) ∧
    ¬ ∀ as x, as <+: [.completion vanished] →
      exec (step (Env.ofTable [] [])) (init 4 ⟨[utf8 "10.0.0.1"]⟩ 4) as = some x → Accepting x := by
  have hrun : (exec (step (Env.ofTable [] [])) (init 4 ⟨[utf8 "10.0.0.1"]⟩ 4) [.completion vanished]).map
      (fun x => (x.asyncAccepts, x.ioThreads, x.escaped)) = some (0, 3, [.remoteEndpoint]) := by
    decide +kernel
  refine ⟨hrun, fun haccepting => ?_⟩
  obtain ⟨x, run, hx⟩ := Option.map_eq_some_iff.mp hrun
  simp only [Prod.mk.injEq] at hx
  have houtstanding := (haccepting _ x (List.prefix_refl _) run).outstanding
  rw [hx.1] at houtstanding
  cases houtstanding

end Server

end DBMiddleWare
