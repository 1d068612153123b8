import DBMiddleWare.Simulation
import DBMiddleWare.PreLogin

/-!
# Authentication

Whatever a session may do after login goes back to one step of its own handler: a lookup
that found a nickname free while the handler had a login packet with the secret in hand.
-/

namespace DBMiddleWare

open Execution Control
set_option autoImplicit false

/-- The secret followed by a login with a nickname. -/
def AsksLogin (env : Env) (packet : Bytes) (nickname : String) : Prop :=
  ∃ text members, packet = env.secret ++ text ∧ env.parse text = some (.object members) ∧
    members.lookup "type" = some (.string "login") ∧
    members.lookup "nickname" = some (.string nickname) ∧ nickname ≠ ""

/-- In this history the session was granted a login: its handler held a packet that asks for
it, and `find_session_by_nickname` returned no live session. -/
def Granted (env : Env) (shardCount : Nat) (acts : List Act) (s : SessionPtr) : Prop :=
  ∃ pre post σ nickname packet, acts = pre ++ .on s .advance :: post ∧
    exec (step env) (World.init shardCount) pre = some σ ∧
    (σ.session s).phase = .loginLookup nickname ∧ σ.findSessionByNickname nickname = none ∧
    (σ.session s).received.getLast? = some packet ∧ AsksLogin env packet nickname

theorem Granted.more {env : Env} {shardCount : Nat} {acts : List Act} {s : SessionPtr}
    (h : Granted env shardCount acts s) (a : Act) : Granted env shardCount (acts ++ [a]) s := by
  obtain ⟨pre, post, σ, nickname, packet, hacts, h⟩ := h
  exact ⟨pre, post ++ [a], σ, nickname, packet, by rw [hacts, List.append_assoc]; rfl, h⟩

/-- The login state of every session that has any is justified by `granted`. -/
structure Authentic (env : Env) (granted : SessionPtr → Prop) (c : Control) : Prop where
  registered : ∀ s, (c.session s).nicknameRegistered = true → granted s
  inserted : ∀ s, .insert ∈ (c.session s).handled → granted s
  indexed : ∀ n s, c.manager.owner n = some s → granted s
  pending : ∀ s n, (c.session s).phase.pending = some n → granted s
  asked : ∀ s n, (c.session s).phase = .loginLookup n → (c.session s).nicknameRegistered = true ∨
    ∃ packet, (c.session s).received.getLast? = some packet ∧ AsksLogin env packet n

def LookupGranted (granted : SessionPtr → Prop) (_ : Control) : Op → Prop
  | .lookup s _ => granted s
  | _ => True

section Invariant
variable {env : Env} {granted : SessionPtr → Prop} {c c' : Control}

theorem Authentic.mono (h : Authentic env granted c) {granted' : SessionPtr → Prop}
    (le : ∀ s, granted s → granted' s) : Authentic env granted' c where
  registered s hs := le s (h.registered s hs)
  inserted s hs := le s (h.inserted s hs)
  indexed n s hs := le s (h.indexed n s hs)
  pending s n hs := le s (h.pending s n hs)
  asked := h.asked

theorem Authentic.modify (h : Authentic env granted c) {s : SessionPtr}
    {f : SessionControl → SessionControl}
    (registered : (f (c.session s)).nicknameRegistered = true → granted s)
    (inserted : .insert ∈ (f (c.session s)).handled → granted s)
    (pending : ∀ n, (f (c.session s)).phase.pending = some n → granted s)
    (asked : ∀ n, (f (c.session s)).phase = .loginLookup n →
      (f (c.session s)).nicknameRegistered = true ∨
        ∃ packet, (f (c.session s)).received.getLast? = some packet ∧ AsksLogin env packet n) :
    Authentic env granted (c.modify s f) := by
  constructor
  · exact modify_forall (P := fun t o => o.nicknameRegistered = true → granted t) h.registered registered
  · exact modify_forall (P := fun t o => .insert ∈ o.handled → granted t) h.inserted inserted
  · exact h.indexed
  · exact modify_forall (P := fun t o => ∀ n, o.phase.pending = some n → granted t) h.pending pending
  · exact modify_forall (P := fun _ o => ∀ n, o.phase = .loginLookup n → o.nicknameRegistered = true ∨
      ∃ packet, o.received.getLast? = some packet ∧ AsksLogin env packet n) h.asked asked

theorem Authentic.moves (h : Authentic env granted c) {s : SessionPtr}
    {f : SessionControl → SessionControl}
    (registered : ∀ o, (f o).nicknameRegistered = o.nicknameRegistered)
    (handled : ∀ o, (f o).handled = o.handled)
    (pending : ∀ n, (f (c.session s)).phase.pending = some n → granted s)
    (leaves : ∀ n, (f (c.session s)).phase ≠ .loginLookup n) : Authentic env granted (c.modify s f) :=
  h.modify (fun hs => h.registered s (registered (c.session s) ▸ hs))
    (fun hs => h.inserted s (handled (c.session s) ▸ hs)) pending fun n hp => absurd hp (leaves n)

/-- Only a packet that asks for a login takes an unregistered session to its lookup. -/
theorem asks_of_route {packet : Bytes} {n : String}
    (h : (route env false packet).phase env = .loginLookup n) : AsksLogin env packet n := by
  rcases route_unregistered env packet with ⟨hroute, _⟩ | ⟨e, hroute, _⟩ |
    ⟨text, members, hpacket, hparse, htype, hroute⟩
  · rw [hroute] at h
    cases h
  · rw [hroute] at h
    cases h
  · rw [hroute] at h
    simp only [Route.phase] at h
    split at h
    · cases h
    · rename_i nickname hnickname
      split at h
      · cases h
      · rename_i hne
        obtain rfl : nickname = n := by injection h
        obtain ⟨members', hmembers, hlookup⟩ := (Json.value_eq_ok hne).mp hnickname
        obtain rfl : members = members' := by injection hmembers
        exact ⟨text, members, hpacket, hparse, htype, hlookup, hne⟩

theorem not_insert_of_route {packet : Bytes} : (route env false packet).handler? ≠ some .insert := by
  rcases route_unregistered env packet with ⟨hroute, _⟩ | ⟨e, hroute, _⟩ | ⟨_, _, _, _, _, hroute⟩
  all_goals
    rw [hroute]
    simp [Route.handler?]

theorem Authentic.receive (h : Authentic env granted c) (s : SessionPtr) (packet : Bytes) :
    Authentic env granted (c.modify s (.receive env packet)) := by
  apply h.modify
  · exact h.registered s
  · intro hs
    rcases List.mem_append.mp hs with hs | hs
    · exact h.inserted s hs
    · cases hr : (c.session s).nicknameRegistered with
      | true => exact h.registered s hr
      | false =>
        rw [hr, Option.mem_toList] at hs
        exact absurd hs not_insert_of_route
  · intro n hp
    rw [SessionControl.receive, Route.phase_pending] at hp
    cases hp
  · intro n hp
    cases hr : (c.session s).nicknameRegistered with
    | true => exact Or.inl hr
    | false =>
      simp only [SessionControl.receive, hr] at hp
      exact Or.inr ⟨packet, by simp [SessionControl.receive], asks_of_route hp⟩

theorem Authentic.accept (h : Authentic env granted c) (sessionId : Int32) :
    Authentic env granted (c.accept sessionId) := by
  constructor
  · apply accept_forall (P := fun t o => o.nicknameRegistered = true → granted t)
    · exact fun t _ => h.registered t
    · exact fun hr => by cases hr
  · apply accept_forall (P := fun t o => .insert ∈ o.handled → granted t)
    · exact fun t _ => h.inserted t
    · exact fun hi => by cases hi
  · exact h.indexed
  · apply accept_forall (P := fun t o => ∀ n, o.phase.pending = some n → granted t)
    · exact fun t _ => h.pending t
    · exact fun n hp => by cases hp
  · apply accept_forall (P := fun _ o => ∀ n, o.phase = .loginLookup n → o.nicknameRegistered = true ∨
      ∃ packet, o.received.getLast? = some packet ∧ AsksLogin env packet n)
    · exact fun t _ => h.asked t
    · exact fun n hp => by cases hp

theorem Authentic.close (h : Authentic env granted c) (s : SessionPtr) :
    Authentic env granted (c.close s) := by
  have hmodify : Authentic env granted (c.modify s .shut) := by
    apply h.modify
    · rw [SessionControl.shut_registered]
      exact h.registered s
    · rw [SessionControl.shut_handled]
      exact h.inserted s
    · rw [SessionControl.shut_phase]
      exact h.pending s
    · rw [SessionControl.shut_phase, SessionControl.shut_registered, SessionControl.shut_received]
      exact h.asked s
  constructor
  · rw [close_session]
    exact hmodify.registered
  · rw [close_session]
    exact hmodify.inserted
  · intro n t ht
    rw [close_owner] at ht
    exact h.indexed n t ht
  · rw [close_session]
    exact hmodify.pending
  · rw [close_session]
    exact hmodify.asked

theorem Authentic.index (h : Authentic env granted c) {s : SessionPtr} {nickname : String}
    (pending : (c.session s).phase.pending = some nickname) : Authentic env granted
      { c.modify s (.index nickname) with manager := c.manager.setOwner nickname s } := by
  have hmodify : Authentic env granted (c.modify s (.index nickname)) :=
    h.moves (fun _ => rfl) (fun _ => rfl) (fun n hp => by cases hp) fun n hp => by cases hp
  refine ⟨hmodify.registered, hmodify.inserted, fun n t ht => ?_, hmodify.pending, hmodify.asked⟩
  change (c.manager.setOwner nickname s).owner n = some t at ht
  rw [SessionManager.owner_setOwner] at ht
  split at ht
  · exact Option.some.inj ht ▸ h.pending s nickname pending
  · exact h.indexed n t ht

theorem Authentic.step {op : Op} (h : Authentic env granted c) (guard : LookupGranted granted c op)
    (step : Step env c op c') : Authentic env granted c' := by
  cases step with
  | accept sessionId => exact h.accept sessionId
  | destroy s _ => exact ⟨h.registered, h.inserted, h.indexed, h.pending, h.asked⟩
  | close s => exact h.close s
  | flag s => exact h.modify (h.registered s) (h.inserted s) (h.pending s) (h.asked s)
  | goto s phase _ _ resting =>
    apply h.moves (f := .goto phase) (fun _ => rfl) (fun _ => rfl)
    · intro n hp
      rw [SessionControl.goto, Phase.pending_of_resting resting] at hp
      cases hp
    · rintro n rfl
      cases resting
  | receive s packet _ => exact h.receive s packet
  | lookup s nickname _ _ =>
    exact h.moves (fun _ => rfl) (fun _ => rfl) (fun _ _ => guard) fun n hp => by cases hp
  | name s nickname at_ =>
    have hs : granted s := h.pending s nickname (by rw [at_]; rfl)
    exact h.moves (fun _ => rfl) (fun _ => rfl) (fun _ _ => hs) fun n hp => by cases hp
  | ready s nickname at_ =>
    have hs : granted s := h.pending s nickname (by rw [at_]; rfl)
    exact h.modify (fun _ => hs) (fun _ => hs) (fun _ _ => hs) fun n hp => by cases hp
  | evict s nickname prev at_ _ _ =>
    have hs : granted s := h.pending s nickname (by rw [at_]; rfl)
    exact h.moves (fun _ => rfl) (fun _ => rfl) (fun _ _ => hs) fun n hp => by cases hp
  | index s nickname at_ =>
    exact h.index (Phase.pending_of_carried (Phase.carried_of_indexing at_))
  | ack s nickname _ =>
    exact h.moves (fun _ => rfl) (fun _ => rfl) (fun n hp => by cases hp) fun n hp => by cases hp

end Invariant

theorem grants_eq_some {σ : World} {a : Act} {s : SessionPtr} {n : String}
    (h : σ.grants a = some (s, n)) : a = .on s .advance ∧ (σ.session s).phase = .loginLookup n ∧
      σ.findSessionByNickname n = none := by
  unfold World.grants at h
  split at h
  · split at h
    · rename_i hp
      split at h
      · cases h
      · rename_i hfind
        obtain ⟨rfl, rfl⟩ := Prod.mk.inj (Option.some.inj h)
        exact ⟨rfl, hp, by simpa using hfind⟩
    · cases h
  · cases h

theorem authentic_of_run {env : Env} {shardCount : Nat} {acts : List Act} {σ : World}
    (run : exec (step env) (World.init shardCount) acts = some σ) :
    Authentic env (Granted env shardCount acts) σ.control := by
  refine history_invariant (H := fun acts σ => Authentic env (Granted env shardCount acts) σ.control)
    ?_ (fun acts σ a σ' run h hstep => ?_) run
  · constructor
    · intro s hs
      cases hs
    · intro s hs
      simp [World.control, World.init, Session.new] at hs
    · intro n s hs
      simp [World.control, World.init, SessionManager.owner] at hs
    · intro s n hs
      cases hs
    · intro s n hs
      cases hs
  · have hmore : Authentic env (Granted env shardCount (acts ++ [a])) σ.control :=
      h.mono fun s hs => hs.more a
    have hchecks : Checks env (LookupGranted (Granted env shardCount (acts ++ [a]))) σ a := by
      refine ⟨fun c op hop => by cases op <;> trivial, fun _ _ _ _ => trivial, fun s n hs => ?_,
        fun _ _ _ => trivial⟩
      obtain ⟨rfl, hphase, hfind⟩ := grants_eq_some hs
      rcases h.asked s n hphase with hregistered | ⟨packet, hpacket, hasks⟩
      · exact (h.registered s hregistered).more _
      · exact ⟨acts, [], σ, n, packet, rfl, run, hphase, hfind, hpacket, hasks⟩
    exact watched_preserved (fun _ _ _ hg hop hc => hc.step hg hop) hchecks.watch hstep hmore

/-- The nicknames, the registered flags and the nickname index are the same. -/
structure SameLogins (σ σ' : World) : Prop where
  nickname : ∀ t, (σ'.session t).nickname = (σ.session t).nickname
  registered : ∀ t, (σ'.session t).nicknameRegistered = (σ.session t).nicknameRegistered
  index : σ'.manager.nicknameIndex = σ.manager.nicknameIndex

/-- The answer to the packet is the ok acknowledgement. -/
def AnsweredOk (σ σ' : World) (s : SessionPtr) : Prop :=
  ∃ m, (σ'.session s).posted = (σ.session s).posted ++ [m] ∧ m.text = loginOk

section Packet
variable (env : Env) (σ : World) (s : SessionPtr)

theorem SameLogins.trans {σ₁ σ₂ σ₃ : World} (h : SameLogins σ₁ σ₂) (h' : SameLogins σ₂ σ₃) :
    SameLogins σ₁ σ₃ :=
  ⟨fun t => (h'.nickname t).trans (h.nickname t), fun t => (h'.registered t).trans (h.registered t),
    h'.index.trans h.index⟩

theorem sameLogins_modify {f : Session → Session} (nickname : ∀ o, (f o).nickname = o.nickname)
    (registered : ∀ o, (f o).nicknameRegistered = o.nicknameRegistered) :
    SameLogins σ (σ.modify s f) where
  nickname t := World.modify_view σ s t f (fun o => o.nickname) nickname
  registered t := World.modify_view σ s t f (fun o => o.nicknameRegistered) registered
  index := rfl

theorem sameLogins_closeSession : SameLogins σ (σ.closeSession s) where
  nickname t := World.closeSession_view σ s t (fun o => o.nickname) fun o => o.shut_nickname
  registered t := World.closeSession_view σ s t (fun o => o.nicknameRegistered)
    fun o => o.shut_registered
  index := by
    unfold World.closeSession
    split <;> rfl

theorem sameLogins_postWrite (text : Bytes) : SameLogins σ (σ.postWrite s env.config text) :=
  sameLogins_modify σ s
    (fun o => WriteQueue.postWrite_view SessionControl.nickname (fun _ => rfl) env.config text o)
    fun o => WriteQueue.postWrite_view SessionControl.nicknameRegistered (fun _ => rfl) env.config text o

theorem posted_ackLogin (nickname : String) :
    ∃ m, ((σ.ackLogin env s nickname).session s).posted = (σ.session s).posted ++ [m] ∧
      m.text = loginOk := by
  rw [World.ackLogin, World.postWrite, World.modify_session_self, WriteQueue.postWrite_posted,
    World.modify_session_self]
  exact ⟨_, rfl, rfl⟩

theorem posted_registerNickname (nickname : String) :
    ((σ.registerNickname s nickname).session s).posted = (σ.session s).posted := by
  have hindex : ∀ τ : World, ((τ.indexNickname s nickname).session s).posted = (τ.session s).posted :=
    fun τ => World.indexNickname_view τ s s nickname (fun o => o.posted) fun _ _ => rfl
  unfold World.registerNickname
  split
  · rw [hindex, World.closeSession_view _ _ _ (fun o => o.posted) fun _ => rfl]
    exact World.dispatch_view σ _ s _ (fun o => o.posted) fun _ _ => rfl
  · exact hindex σ

theorem posted_login (nickname : String) :
    ∃ m, (((((σ.setNickname s nickname).onNicknameRegistered s).registerNickname s nickname).ackLogin
      env s nickname).session s).posted = (σ.session s).posted ++ [m] ∧ m.text = loginOk := by
  obtain ⟨m, hm, htext⟩ := posted_ackLogin env
    (((σ.setNickname s nickname).onNicknameRegistered s).registerNickname s nickname) s nickname
  refine ⟨m, ?_, htext⟩
  rw [hm, posted_registerNickname, World.onNicknameRegistered, World.setNickname, World.modify_modify,
    World.modify_session_self]

theorem sameLogins_login (msg : Json) :
    SameLogins σ (World.settle env s (World.login env σ s msg)) ∨
    AnsweredOk σ (World.settle env s (World.login env σ s msg)) s := by
  unfold World.login
  split
  · exact Or.inl (sameLogins_postWrite env σ s parsingFailed)
  · split
    · exact Or.inl (sameLogins_postWrite env σ s nicknameRequired)
    · split
      · exact Or.inl (sameLogins_postWrite env σ s nicknameInUse)
      · exact Or.inr (posted_login env σ s _)

theorem sameLogins_insert (msg : Json) :
    SameLogins σ (World.settle env s (World.insert env σ s msg)) := by
  unfold World.insert
  split
  · exact sameLogins_postWrite env σ s parsingFailed
  · exact sameLogins_postWrite env σ s insertOk

theorem sameLogins_follow (r : Route) :
    SameLogins σ (World.settle env s (σ.follow env s r)) ∨
    AnsweredOk σ (World.settle env s (σ.follow env s r)) s := by
  have hnote : ∀ h, SameLogins σ (σ.noteHandler s h) := fun h =>
    sameLogins_modify σ s (fun _ => rfl) fun _ => rfl
  cases r with
  | close => exact Or.inl (sameLogins_closeSession σ s)
  | raise e => exact Or.inl (sameLogins_postWrite env σ s parsingFailed)
  | unknown => exact Or.inl (sameLogins_postWrite env σ s unknownType)
  | handler h msg =>
    cases h with
    | login =>
      rcases sameLogins_login env (σ.noteHandler s .login) s msg with hsame | ⟨m, hm, htext⟩
      · exact Or.inl ((hnote .login).trans hsame)
      · have hposted : ((σ.noteHandler s .login).session s).posted = (σ.session s).posted :=
          World.modify_view σ s s _ (fun o => o.posted) fun _ => rfl
        exact Or.inr ⟨m, hm.trans (congrArg (· ++ [m]) hposted), htext⟩
    | insert =>
      exact Or.inl ((hnote .insert).trans (sameLogins_insert env (σ.noteHandler s .insert) s msg))

theorem sameLogins_handlePacket (packet : Bytes)
    (notOk : ¬ AnsweredOk σ (σ.handlePacket env s packet) s) :
    SameLogins σ (σ.handlePacket env s packet) := by
  have hreceived : SameLogins σ (σ.noteReceived s packet) :=
    sameLogins_modify σ s (fun _ => rfl) fun _ => rfl
  rw [handlePacket_eq_settle] at notOk ⊢
  rcases sameLogins_follow env (σ.noteReceived s packet) s
    (route env (σ.session s).nicknameRegistered packet) with hsame | ⟨m, hm, htext⟩
  · exact hreceived.trans hsame
  · have hposted : ((σ.noteReceived s packet).session s).posted = (σ.session s).posted :=
      World.modify_view σ s s _ (fun o => o.posted) fun _ => rfl
    exact absurd ⟨m, hm.trans (congrArg (· ++ [m]) hposted), htext⟩ notOk

end Packet

/-- A session is registered, reaches the insert handler or enters the nickname index only after it
was granted a login; and a packet that is not answered by the ok acknowledgement leaves all
logins as they were. -/
theorem authentication_sound (env : Env) (shardCount : Nat) :
    (∀ acts σ, exec (step env) (World.init shardCount) acts = some σ → ∀ s,
      (σ.session s).nicknameRegistered = true ∨ .insert ∈ (σ.session s).handled ∨
        (∃ n, σ.manager.owner n = some s) → Granted env shardCount acts s) ∧
    ∀ σ s packet, ¬ AnsweredOk σ (σ.handlePacket env s packet) s →
      SameLogins σ (σ.handlePacket env s packet) := by
  refine ⟨fun acts σ run s hs => ?_, fun σ s packet => sameLogins_handlePacket env σ s packet⟩
  have h := authentic_of_run run
  rcases hs with hs | hs | ⟨n, hs⟩
  · exact h.registered s hs
  · exact h.inserted s hs
  · exact h.indexed n s hs

end DBMiddleWare
