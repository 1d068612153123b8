import DBMiddleWare.MessageDispatcher
import DBMiddleWare.WriteQueue

/-!
# The gate before login

What a packet can do while its session has no nickname. Every rejection of `dispatch`
closes the session; an exception of `value("type", "")` is not a rejection, it is
answered by the read loop and the session stays open.
-/

namespace DBMiddleWare

set_option autoImplicit false

/-- The secret followed by the text of an object whose type is "login". -/
def LoginPacket (env : Env) (packet : Bytes) : Prop :=
  ∃ text members, packet = env.secret ++ text ∧ env.parse text = some (.object members) ∧
    members.lookup "type" = some (.string "login")

/-- The secret followed by a JSON value that is no object, or whose type is no string. -/
def TypeThrows (env : Env) (packet : Bytes) : Prop :=
  ∃ text msg, packet = env.secret ++ text ∧ env.parse text = some msg ∧
    ∀ members, msg = .object members → ∃ v, members.lookup "type" = some v ∧ ∀ t, v ≠ .string t

section Gate
variable {env : Env} {packet : Bytes}

theorem hasSecretPrefix_iff :
    World.hasSecretPrefix env packet = true ↔ ∃ text, packet = env.secret ++ text := by
  constructor
  · intro h
    simp only [World.hasSecretPrefix, Bool.and_eq_true, beq_iff_eq] at h
    exact ⟨packet.drop env.secret.length, by rw [← h.2, List.length_take_of_le (of_decide_eq_true h.1),
      List.take_append_drop]⟩
  · rintro ⟨text, rfl⟩
    simp [World.hasSecretPrefix]

/-- The three decisions about a packet of a session that is not logged in. -/
theorem route_unregistered (env : Env) (packet : Bytes) :
    (route env false packet = .close ∧ ¬ LoginPacket env packet ∧ ¬ TypeThrows env packet) ∨
    (∃ e, route env false packet = .raise e ∧ ¬ LoginPacket env packet ∧ TypeThrows env packet) ∨
    ∃ text members, packet = env.secret ++ text ∧ env.parse text = some (.object members) ∧
      members.lookup "type" = some (.string "login") ∧
      route env false packet = .handler .login (.object members) := by
  by_cases hsecret : ∃ text, packet = env.secret ++ text
  · obtain ⟨text, rfl⟩ := hsecret
    have hprefix : World.hasSecretPrefix env (env.secret ++ text) = true :=
      hasSecretPrefix_iff.mpr ⟨text, rfl⟩
    have hnone : env.parse text = none → route env false (env.secret ++ text) = .close := by
      intro hparse
      simp [route, hprefix, hparse]
    have herror : ∀ msg e, env.parse text = some msg → msg.value "type" "" = .error e →
        route env false (env.secret ++ text) = .raise e := by
      intro msg e hparse hvalue
      simp [route, hprefix, hparse, hvalue]
    have hok : ∀ msg type, env.parse text = some msg → msg.value "type" "" = .ok type →
        route env false (env.secret ++ text) = if type ≠ "login" then .close else routeType msg := by
      intro msg type hparse hvalue
      simp [route, hprefix, hparse, hvalue]
    have hlogin : LoginPacket env (env.secret ++ text) →
        ∃ msg, env.parse text = some msg ∧ msg.value "type" "" = .ok "login" := by
      rintro ⟨text', members, htext, hparse, htype⟩
      obtain rfl := List.append_cancel_left htext
      exact ⟨_, hparse, (Json.value_eq_ok (by decide)).mpr ⟨members, rfl, htype⟩⟩
    have hthrows : TypeThrows env (env.secret ++ text) →
        ∃ msg e, env.parse text = some msg ∧ msg.value "type" "" = .error e := by
      rintro ⟨text', msg, htext, hparse, hmsg⟩
      obtain rfl := List.append_cancel_left htext
      obtain ⟨e, he⟩ := (Json.value_eq_error msg "type" "").mpr hmsg
      exact ⟨msg, e, hparse, he⟩
    cases hparse : env.parse text with
    | none =>
      refine Or.inl ⟨hnone hparse, fun h => ?_, fun h => ?_⟩
      · obtain ⟨_, hsome, _⟩ := hlogin h
        simp [hparse] at hsome
      · obtain ⟨_, _, hsome, _⟩ := hthrows h
        simp [hparse] at hsome
    | some msg =>
      cases hvalue : msg.value "type" "" with
      | error e =>
        refine Or.inr (Or.inl ⟨e, herror msg e hparse hvalue, fun h => ?_, text, msg, rfl, hparse, ?_⟩)
        · obtain ⟨msg', hsome, hok⟩ := hlogin h
          rw [hparse, Option.some.injEq] at hsome
          simp [← hsome, hvalue] at hok
        · exact (Json.value_eq_error msg "type" "").mp ⟨e, hvalue⟩
      | ok type =>
        have hroute := hok msg type hparse hvalue
        by_cases htype : type = "login"
        · subst htype
          obtain ⟨members, rfl, hl⟩ := (Json.value_eq_ok (by decide)).mp hvalue
          refine Or.inr (Or.inr ⟨text, members, rfl, hparse, hl, ?_⟩)
          rw [hroute, if_neg (by simp)]
          simp only [routeType, hvalue]
          rfl
        · rw [if_pos htype] at hroute
          refine Or.inl ⟨hroute, fun h => ?_, fun h => ?_⟩
          · obtain ⟨msg', hsome, hok⟩ := hlogin h
            rw [hparse, Option.some.injEq] at hsome
            rw [← hsome, hvalue] at hok
            exact htype (Except.ok.inj hok)
          · obtain ⟨msg', e, hsome, herr⟩ := hthrows h
            rw [hparse, Option.some.injEq] at hsome
            simp [← hsome, hvalue] at herr
  · have hprefix : World.hasSecretPrefix env packet = false :=
      Bool.eq_false_iff.mpr fun h => hsecret (hasSecretPrefix_iff.mp h)
    refine Or.inl ⟨by simp [route, hprefix], ?_, ?_⟩
    · rintro ⟨text, _, rfl, _⟩
      exact hsecret ⟨text, rfl⟩
    · rintro ⟨text, _, rfl, _⟩
      exact hsecret ⟨text, rfl⟩

end Gate

section Packet
variable (env : Env) (σ : World) (s : SessionPtr) (packet : Bytes)

theorem handlePacket_of_close
    (h : route env (σ.session s).nicknameRegistered packet = .close) :
    σ.handlePacket env s packet = (σ.noteReceived s packet).closeSession s := by
  rw [handlePacket_eq_settle, h]
  rfl

theorem handlePacket_of_raise {e : JsonError}
    (h : route env (σ.session s).nicknameRegistered packet = .raise e) :
    σ.handlePacket env s packet =
      (σ.noteReceived s packet).postWrite s env.config parsingFailed := by
  rw [handlePacket_eq_settle, h]
  rfl

theorem closed_of_close :
    (((σ.noteReceived s packet).closeSession s).session s).handled = (σ.session s).handled ∧
    ((((σ.noteReceived s packet).closeSession s).session s).state = .closed ↔
      (σ.session s).state = .closed ∨ (σ.session s).closed = false) := by
  rw [World.closeSession_session_self, World.noteReceived,
    World.modify_session_self]
  simp only [Session.shut, SessionControl.shut]
  split
  · rename_i hclosed
    exact ⟨rfl, by simp [show (σ.session s).closed = true from hclosed]⟩
  · rename_i hclosed
    exact ⟨rfl, by simp [show (σ.session s).closed = false from Bool.eq_false_iff.mpr hclosed]⟩

theorem closed_of_answer (text : Bytes) :
    (((σ.noteReceived s packet).postWrite s env.config text).session s).handled =
      (σ.session s).handled ∧
    (((σ.noteReceived s packet).postWrite s env.config text).session s).state =
      (σ.session s).state := by
  rw [World.postWrite, World.modify_session_self, World.noteReceived, World.modify_session_self]
  exact ⟨WriteQueue.postWrite_view SessionControl.handled (fun _ => rfl) ..,
    WriteQueue.postWrite_view SessionControl.state (fun _ => rfl) ..⟩

/-- Anything but a login closes a session that is not logged in, as long as its type can
be read. -/
theorem pre_login_gate (unregistered : (σ.session s).nicknameRegistered = false)
    (other : ¬ LoginPacket env packet) :
    (((σ.handlePacket env s packet).session s).handled = (σ.session s).handled ∧
      ((σ.handlePacket env s packet).session s).state = .closed) ↔
    ((σ.session s).state = .closed ∨
      ((σ.session s).closed = false ∧ ¬ TypeThrows env packet)) := by
  rcases route_unregistered env packet with ⟨hroute, _, hthrows⟩ | ⟨e, hroute, _, hthrows⟩ |
    ⟨text, members, hpacket, hparse, htype, _⟩
  · rw [← unregistered] at hroute
    obtain ⟨hhandled, hstate⟩ := closed_of_close σ s packet
    rw [handlePacket_of_close env σ s packet hroute, hstate]
    constructor
    · rintro ⟨_, h | h⟩
      · exact Or.inl h
      · exact Or.inr ⟨h, hthrows⟩
    · rintro (h | h)
      · exact ⟨hhandled, Or.inl h⟩
      · exact ⟨hhandled, Or.inr h.1⟩
  · rw [← unregistered] at hroute
    obtain ⟨hhandled, hstate⟩ := closed_of_answer env σ s packet parsingFailed
    rw [handlePacket_of_raise env σ s packet hroute, hstate]
    constructor
    · rintro ⟨_, h⟩
      exact Or.inl h
    · rintro (h | h)
      · exact ⟨hhandled, h⟩
      · exact absurd hthrows h.2
  · exact absurd ⟨text, members, hpacket, hparse, htype⟩ other

end Packet

/-- A packet without the secret on a new session. -/
theorem pre_login_gate_no_secret :
    let env := Env.ofTable [115] []
    let σ := (World.init 4).addSession 0
    (((σ.handlePacket env 0 [120]).session 0).handled = (σ.session 0).handled ∧
      ((σ.handlePacket env 0 [120]).session 0).state = .closed) ↔
    ((σ.session 0).state = .closed ∨
      ((σ.session 0).closed = false ∧ ¬ TypeThrows env [120])) := by
  refine pre_login_gate _ _ 0 [120] (by decide +kernel) ?_
  rintro ⟨text, members, hpacket, _⟩
  simp [Env.ofTable] at hpacket

/-- The secret followed by an empty array leaves a new session open, with an answer queued. -/
theorem pre_login_gate_array :
    let env := Env.ofTable (utf8 "secret") [(utf8 "[]", .array [])]
    let σ := (World.init 4).addSession 0
    let o := (σ.handlePacket env 0 (utf8 "secret[]")).session 0
    (σ.session 0).nicknameRegistered = false ∧ ¬ LoginPacket env (utf8 "secret[]") ∧
      o.state = .handshaking ∧ o.closed = false ∧ o.socketOpen = true ∧
      o.posted.map Message.text = [parsingFailed] := by
  refine ⟨by decide +kernel, ?_, by decide +kernel⟩
  rintro ⟨text, members, hpacket, hparse, _⟩
  have htext : text = utf8 "[]" := by
    have h : utf8 "secret" ++ utf8 "[]" = utf8 "secret" ++ text := hpacket ▸ (by decide +kernel)
    exact (List.append_cancel_left h).symm
  rw [htext] at hparse
  have harray : (Env.ofTable (utf8 "secret") [(utf8 "[]", .array [])]).parse (utf8 "[]") =
      some (.array []) := by
    simp [Env.ofTable]
  rw [harray] at hparse
  cases hparse

end DBMiddleWare
