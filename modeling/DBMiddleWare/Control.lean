import Mathlib.Logic.Relation
import DBMiddleWare.Machine

/-!
# The control of the server

What is left of the server when buffers, queues and strands are forgotten: the control
part of every session, the registry and the nickname index. The operations stand for
what the code does to these parts, whoever calls it.
-/

namespace DBMiddleWare

set_option autoImplicit false

/-- The nickname of a login between its lookup and the end of its registration. -/
def Phase.pending : Phase → Option String
  | .loginSet nickname => some nickname
  | .loginReady nickname => some nickname
  | .loginRegister nickname => some nickname
  | .loginEvict nickname _ => some nickname
  | _ => none

/-- The nickname of a login that has set it in its session. -/
def Phase.carried : Phase → Option String
  | .loginReady nickname => some nickname
  | .loginRegister nickname => some nickname
  | .loginEvict nickname _ => some nickname
  | _ => none

/-- The handler is outside the login. -/
def Phase.resting : Phase → Bool
  | .idle => true
  | .drain => true
  | .reply _ => true
  | .next => true
  | _ => false

theorem Phase.pending_of_resting {p : Phase} (h : p.resting = true) : p.pending = none := by
  cases p <;> first | rfl | cases h

theorem Phase.carried_of_pending {p : Phase} (h : p.pending = none) : p.carried = none := by
  cases p <;> first | rfl | cases h

theorem Phase.pending_of_carried {p : Phase} {n : String} (h : p.carried = some n) :
    p.pending = some n := by
  cases p <;> first | exact h | cases h

theorem Phase.carried_of_indexing {p : Phase} {n : String}
    (h : p = .loginRegister n ∨ ∃ prev, p = .loginEvict n prev) : p.carried = some n := by
  rcases h with rfl | ⟨prev, rfl⟩
  · rfl
  · rfl

/-- A decision starts a login at most up to its lookup. -/
theorem Route.phase_pending (env : Env) (r : Route) : (r.phase env).pending = none := by
  unfold Route.phase
  split
  · rfl
  · rfl
  · rfl
  · split
    · rfl
    · split <;> rfl
  · split <;> rfl

namespace SessionControl

def flag (o : SessionControl) : SessionControl := { o with closed := true }

def goto (phase : Phase) (o : SessionControl) : SessionControl := { o with phase := phase }

def receive (env : Env) (packet : Bytes) (o : SessionControl) : SessionControl :=
  { o with
    received := o.received ++ [packet]
    handled := o.handled ++ (route env o.nicknameRegistered packet).handler?.toList
    phase := (route env o.nicknameRegistered packet).phase env }

def name (nickname : String) (o : SessionControl) : SessionControl :=
  { o with nickname := nickname, phase := .loginReady nickname }

def ready (nickname : String) (o : SessionControl) : SessionControl :=
  { o with nicknameRegistered := true, state := .ready, phase := .loginRegister nickname }

def index (nickname : String) (o : SessionControl) : SessionControl :=
  { o with registrations := o.registrations ++ [nickname], phase := .loginAck nickname }

def ack (nickname : String) (o : SessionControl) : SessionControl :=
  { o with acked := o.acked ++ [nickname], phase := .drain }

end SessionControl

structure Control where
  session : SessionPtr → SessionControl
  live : SessionPtr → Bool
  nextPtr : SessionPtr
  manager : SessionManager

namespace Control

def modify (c : Control) (s : SessionPtr) (f : SessionControl → SessionControl) : Control :=
  { c with session := Function.update c.session s (f (c.session s)) }

def accept (c : Control) (sessionId : Int32) : Control where
  session := Function.update c.session c.nextPtr { sessionId := sessionId }
  live := Function.update c.live c.nextPtr true
  nextPtr := c.nextPtr + 1
  manager := c.manager.insertSession sessionId c.nextPtr

def close (c : Control) (s : SessionPtr) : Control :=
  if (c.session s).closed then c.modify s .shut
  else { c.modify s .shut with manager := c.manager.removeSession (c.session s).sessionId }

def find (c : Control) (nickname : String) : Option SessionPtr :=
  (c.manager.owner nickname).filter fun r => c.live r

inductive Op where
  | accept (sessionId : Int32)
  | destroy (s : SessionPtr)
  | close (s : SessionPtr)
  /-- the overflow limit of the write queue -/
  | flag (s : SessionPtr)
  | goto (s : SessionPtr)
  | receive (s : SessionPtr) (packet : Bytes)
  | lookup (s : SessionPtr) (nickname : String)
  | name (s : SessionPtr) (nickname : String)
  | ready (s : SessionPtr) (nickname : String)
  | evict (s : SessionPtr) (nickname : String) (prev : SessionPtr)
  | index (s : SessionPtr) (nickname : String)
  | ack (s : SessionPtr) (nickname : String)

inductive Step (env : Env) (c : Control) : Op → Control → Prop where
  | accept (sessionId : Int32) : Step env c (.accept sessionId) (c.accept sessionId)
  | destroy (s : SessionPtr) (idle : (c.session s).phase = .idle) :
      Step env c (.destroy s) { c with live := Function.update c.live s false }
  | close (s : SessionPtr) : Step env c (.close s) (c.close s)
  | flag (s : SessionPtr) : Step env c (.flag s) (c.modify s .flag)
  | goto (s : SessionPtr) (phase : Phase) (alive : c.live s = true)
      (outside : (c.session s).phase.pending = none) (resting : phase.resting = true) :
      Step env c (.goto s) (c.modify s (.goto phase))
  | receive (s : SessionPtr) (packet : Bytes) (drain : (c.session s).phase = .drain) :
      Step env c (.receive s packet) (c.modify s (.receive env packet))
  | lookup (s : SessionPtr) (nickname : String) (at_ : (c.session s).phase = .loginLookup nickname)
      (free : c.find nickname = none) :
      Step env c (.lookup s nickname) (c.modify s (.goto (.loginSet nickname)))
  | name (s : SessionPtr) (nickname : String) (at_ : (c.session s).phase = .loginSet nickname) :
      Step env c (.name s nickname) (c.modify s (.name nickname))
  | ready (s : SessionPtr) (nickname : String) (at_ : (c.session s).phase = .loginReady nickname) :
      Step env c (.ready s nickname) (c.modify s (.ready nickname))
  | evict (s : SessionPtr) (nickname : String) (prev : SessionPtr)
      (at_ : (c.session s).phase = .loginRegister nickname) (found : c.find nickname = some prev)
      (other : prev ≠ s) :
      Step env c (.evict s nickname prev) (c.modify s (.goto (.loginEvict nickname prev)))
  | index (s : SessionPtr) (nickname : String)
      (at_ : (c.session s).phase = .loginRegister nickname ∨
        ∃ prev, (c.session s).phase = .loginEvict nickname prev) :
      Step env c (.index s nickname)
        { c.modify s (.index nickname) with manager := c.manager.setOwner nickname s }
  | ack (s : SessionPtr) (nickname : String) (at_ : (c.session s).phase = .loginAck nickname) :
      Step env c (.ack s nickname) (c.modify s (.ack nickname))

/-- The operations whose circumstances matter to the properties below. -/
def Op.checked : Op → Bool
  | .flag _ => true
  | .lookup _ _ => true
  | .ready _ _ => true
  | _ => false

def Run (env : Env) (guard : Control → Op → Prop) : Control → Control → Prop :=
  Relation.ReflTransGen fun c c' => ∃ op, guard c op ∧ Step env c op c'

section Fields
variable (c : Control) (s t : SessionPtr) (f g : SessionControl → SessionControl)

theorem modify_session :
    (c.modify s f).session t = if t = s then f (c.session s) else c.session t := by
  by_cases h : t = s
  · subst h
    rw [if_pos rfl]
    exact Function.update_self ..
  · rw [if_neg h]
    exact Function.update_of_ne h ..

@[simp] theorem modify_session_self : (c.modify s f).session s = f (c.session s) :=
  Function.update_self ..

theorem modify_session_of_ne (h : t ≠ s) : (c.modify s f).session t = c.session t :=
  Function.update_of_ne h ..

theorem modify_view {α : Type} (view : SessionControl → α) (h : ∀ o, view (f o) = view o) :
    view ((c.modify s f).session t) = view (c.session t) := by
  rw [modify_session]
  split
  · rename_i heq
    rw [heq, h]
  · rfl

@[simp] theorem modify_modify : (c.modify s f).modify s g = c.modify s (fun o => g (f o)) := by
  simp only [modify, Function.update_self, Function.update_idem]

theorem modify_eq_self (h : f (c.session s) = c.session s) : c.modify s f = c := by
  simp only [modify, h, Function.update_eq_self]

theorem accept_session_new (sessionId : Int32) :
    (c.accept sessionId).session c.nextPtr = { sessionId := sessionId } :=
  Function.update_self ..

theorem accept_session_of_ne (sessionId : Int32) (h : t ≠ c.nextPtr) :
    (c.accept sessionId).session t = c.session t :=
  Function.update_of_ne h ..

theorem accept_live_of_ne (sessionId : Int32) (h : t ≠ c.nextPtr) :
    (c.accept sessionId).live t = c.live t :=
  Function.update_of_ne h ..

theorem accept_findSession (sessionId id : Int32) : (c.accept sessionId).manager.findSession id =
    if id = sessionId then some c.nextPtr else c.manager.findSession id :=
  c.manager.findSession_insertSession sessionId c.nextPtr id

theorem close_session : (c.close s).session = (c.modify s .shut).session := by
  unfold close
  split <;> rfl

@[simp] theorem close_session_self : (c.close s).session s = (c.session s).shut := by
  rw [close_session, modify_session_self]

theorem close_session_of_ne (h : t ≠ s) : (c.close s).session t = c.session t := by
  rw [close_session, modify_session_of_ne c s t _ h]

theorem close_view {α : Type} (view : SessionControl → α) (h : ∀ o, view o.shut = view o) :
    view ((c.close s).session t) = view (c.session t) := by
  rw [close_session]
  exact modify_view c s t _ view h

/-- Closing only takes entries out of the registry. -/
theorem close_findSession {id : Int32} (h : (c.close s).manager.findSession id = some t) :
    c.manager.findSession id = some t ∧
    ((c.session s).closed = false → id ≠ (c.session s).sessionId) := by
  unfold close at h
  split at h
  · rename_i hclosed
    exact ⟨h, fun hopen => by simp [hopen] at hclosed⟩
  · change (c.manager.removeSession (c.session s).sessionId).findSession id = some t at h
    rw [SessionManager.findSession_removeSession] at h
    split at h
    · cases h
    · rename_i hid
      exact ⟨h, fun _ => hid⟩

@[simp] theorem close_live : (c.close s).live = c.live := by
  unfold close
  split <;> rfl

@[simp] theorem close_nextPtr : (c.close s).nextPtr = c.nextPtr := by
  unfold close
  split <;> rfl

@[simp] theorem close_owner (nickname : String) :
    (c.close s).manager.owner nickname = c.manager.owner nickname := by
  unfold close
  split <;> rfl

end Fields

theorem modify_forall {P : SessionPtr → SessionControl → Prop} {c : Control} {s : SessionPtr}
    {f : SessionControl → SessionControl} (old : ∀ t, P t (c.session t)) (here : P s (f (c.session s)))
    (t : SessionPtr) : P t ((c.modify s f).session t) := by
  rw [modify_session]
  split
  · rename_i heq
    exact heq ▸ here
  · exact old t

theorem accept_forall {P : SessionPtr → SessionControl → Prop} {c : Control} {sessionId : Int32}
    (old : ∀ t, t ≠ c.nextPtr → P t (c.session t)) (new : P c.nextPtr { sessionId := sessionId })
    (t : SessionPtr) : P t ((c.accept sessionId).session t) := by
  by_cases ht : t = c.nextPtr
  · rw [ht, accept_session_new]
    exact new
  · rw [accept_session_of_ne c t sessionId ht]
    exact old t ht

/-- Nothing leads to a session that has not been created. -/
structure Known (c : Control) : Prop where
  live : ∀ t, c.live t = true → t < c.nextPtr
  begun : ∀ t, (c.session t).phase ≠ .starting → t < c.nextPtr
  owner : ∀ n t, c.manager.owner n = some t → t < c.nextPtr

theorem Step.nextPtr_le {env : Env} {op : Op} {c c' : Control} (step : Step env c op c') :
    c.nextPtr ≤ c'.nextPtr := by
  cases step with
  | accept => exact Nat.le_succ _
  | close s =>
    rw [close_nextPtr]
  | _ => exact Nat.le_refl _

/-- What a step can do to a session that exists. -/
inductive Touch (env : Env) (o : SessionControl) : SessionControl → Prop where
  | same : Touch env o o
  | shut : Touch env o o.shut
  | flag : Touch env o o.flag
  | goto (phase : Phase) : Touch env o (o.goto phase)
  | receive (packet : Bytes) : Touch env o (o.receive env packet)
  | name (nickname : String) : Touch env o (o.name nickname)
  | ready (nickname : String) : Touch env o (o.ready nickname)
  | index (nickname : String) : Touch env o (o.index nickname)
  | ack (nickname : String) : Touch env o (o.ack nickname)

theorem Touch.modify {env : Env} {c : Control} {s t : SessionPtr} {f : SessionControl → SessionControl}
    (h : ∀ o, Touch env o (f o)) : Touch env (c.session t) ((c.modify s f).session t) := by
  rw [modify_session]
  split
  · rename_i heq
    exact heq ▸ h _
  · exact .same

theorem Step.touch {env : Env} {op : Op} {c c' : Control} {t : SessionPtr} (step : Step env c op c')
    (existing : t < c.nextPtr) : Touch env (c.session t) (c'.session t) := by
  cases step with
  | accept sessionId =>
    rw [accept_session_of_ne c t sessionId (Nat.ne_of_lt existing)]
    exact .same
  | destroy s _ => exact .same
  | close s =>
    rw [close_session]
    exact .modify fun _ => .shut
  | flag s => exact .modify fun _ => .flag
  | goto s phase _ _ _ => exact .modify fun _ => .goto phase
  | receive s packet _ => exact .modify fun _ => .receive packet
  | lookup s nickname _ _ => exact .modify fun _ => .goto _
  | name s nickname _ => exact .modify fun _ => .name nickname
  | ready s nickname _ => exact .modify fun _ => .ready nickname
  | evict s nickname prev _ _ _ => exact .modify fun _ => .goto _
  | index s nickname _ => exact Touch.modify fun _ => .index nickname
  | ack s nickname _ => exact .modify fun _ => .ack nickname

section Known
variable {c c' : Control}

theorem Known.modify (h : Known c) {s : SessionPtr} {f : SessionControl → SessionControl}
    (begun : (f (c.session s)).phase ≠ .starting → s < c.nextPtr) : Known (c.modify s f) := by
  exact ⟨h.live, modify_forall (P := fun t o => o.phase ≠ .starting → t < c.nextPtr)
    h.begun begun, h.owner⟩

theorem Known.step {env : Env} {op : Op} (h : Known c) (step : Step env c op c') : Known c' := by
  have here : ∀ {s p}, (c.session s).phase = p → p ≠ .starting → s < c.nextPtr :=
    fun hp hne => h.begun _ (hp ▸ hne)
  cases step with
  | accept sessionId =>
    constructor
    · intro t ht
      by_cases hnew : t = c.nextPtr
      · exact hnew ▸ Nat.lt_succ_self _
      · exact Nat.lt_succ_of_lt (h.live t ((accept_live_of_ne c t sessionId hnew).symm.trans ht))
    · apply accept_forall (P := fun t o => o.phase ≠ .starting → t < c.nextPtr + 1)
      · exact fun t _ hp => Nat.lt_succ_of_lt (h.begun t hp)
      · exact fun hp => absurd rfl hp
    · intro n t ht
      exact Nat.lt_succ_of_lt (h.owner n t ht)
  | destroy s _ =>
    refine ⟨fun t ht => ?_, h.begun, h.owner⟩
    by_cases hts : t = s
    · simp [hts] at ht
    · exact h.live t ((Function.update_of_ne hts ..).symm.trans ht)
  | close s =>
    constructor
    · intro t ht
      rw [close_live] at ht
      exact (close_nextPtr c s).symm ▸ h.live t ht
    · intro t hp
      rw [close_view c s t SessionControl.phase SessionControl.shut_phase] at hp
      exact (close_nextPtr c s).symm ▸ h.begun t hp
    · intro n t ht
      rw [close_owner] at ht
      exact (close_nextPtr c s).symm ▸ h.owner n t ht
  | flag s => exact h.modify fun hp => h.begun s hp
  | goto s phase alive _ _ => exact h.modify fun _ => h.live s alive
  | receive s packet at_ => exact h.modify fun _ => here at_ (by simp)
  | lookup s nickname at_ _ => exact h.modify fun _ => here at_ (by simp)
  | name s nickname at_ => exact h.modify fun _ => here at_ (by simp)
  | ready s nickname at_ => exact h.modify fun _ => here at_ (by simp)
  | evict s nickname prev at_ _ _ => exact h.modify fun _ => here at_ (by simp)
  | index s nickname at_ =>
    have hs : s < c.nextPtr := by
      rcases at_ with hp | ⟨prev, hp⟩
      · exact here hp (by simp)
      · exact here hp (by simp)
    have hindexed : Known (c.modify s (.index nickname)) := h.modify fun _ => hs
    refine ⟨hindexed.live, hindexed.begun, fun n t ht => ?_⟩
    change (c.manager.setOwner nickname s).owner n = some t at ht
    rw [SessionManager.owner_setOwner] at ht
    split at ht
    · exact Option.some.inj ht ▸ hs
    · exact h.owner n t ht
  | ack s nickname at_ => exact h.modify fun _ => here at_ (by simp)

end Known

end Control

end DBMiddleWare
