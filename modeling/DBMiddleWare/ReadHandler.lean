import DBMiddleWare.Framing
import DBMiddleWare.HandlerSteps
import DBMiddleWare.WriteQueue

/-!
# A whole read

The read handler takes the frames of the buffer one after the other. Whatever the packets
say, their handling leaves the loop and the rest of the buffer alone, so a handler that is
not interrupted handles exactly the messages of the reference parser, in their order.
-/

namespace DBMiddleWare

open Execution MessageBufferManager
set_option autoImplicit false

/-- What the handling of a packet leaves alone: where the handler stands and what it has not
read yet. -/
structure KeepsLoop (s : SessionPtr) (σ σ' : World) : Prop where
  live : σ'.live = σ.live
  mutex : σ'.nicknameMutex = σ.nicknameMutex
  phase : (σ'.session s).phase = (σ.session s).phase
  buffer : (σ'.session s).msgBufMgr = (σ.session s).msgBufMgr

section KeepsLoop
variable (env : Env) (σ : World) (s t : SessionPtr)

theorem KeepsLoop.trans {s : SessionPtr} {σ₁ σ₂ σ₃ : World} (h : KeepsLoop s σ₁ σ₂)
    (h' : KeepsLoop s σ₂ σ₃) :
    KeepsLoop s σ₁ σ₃ :=
  ⟨h'.live.trans h.live, h'.mutex.trans h.mutex, h'.phase.trans h.phase, h'.buffer.trans h.buffer⟩

theorem keepsLoop_modify {f : Session → Session} (phase : ∀ o, (f o).phase = o.phase)
    (buffer : ∀ o, (f o).msgBufMgr = o.msgBufMgr) : KeepsLoop s σ (σ.modify t f) where
  live := rfl
  mutex := rfl
  phase := World.modify_view σ t s f (fun o => o.phase) phase
  buffer := World.modify_view σ t s f (fun o => o.msgBufMgr) buffer

theorem keepsLoop_closeSession : KeepsLoop s σ (σ.closeSession t) where
  live := World.closeSession_live σ t
  mutex := World.closeSession_mutex σ t
  phase := World.closeSession_view σ t s (fun o => o.phase) fun o => o.toSessionControl.shut_phase
  buffer := World.closeSession_view σ t s (fun o => o.msgBufMgr) fun _ => rfl

theorem keepsLoop_postWrite (text : Bytes) : KeepsLoop s σ (σ.postWrite t env.config text) :=
  keepsLoop_modify σ s t
    (fun o => WriteQueue.postWrite_view SessionControl.phase (fun _ => rfl) env.config text o)
    fun o => congrArg SessionReader.msgBufMgr (WriteQueue.postWrite_frame env.config text o).2.1

theorem keepsLoop_registerNickname (nickname : String) :
    KeepsLoop s σ (σ.registerNickname t nickname) := by
  have hindex : ∀ τ : World, KeepsLoop s τ (τ.indexNickname t nickname) := by
    intro τ
    obtain ⟨hlive, hmutex, hphase, hbuffer⟩ := keepsLoop_modify τ s t
      (f := fun o => { o with registrations := o.registrations ++ [nickname] }) (fun _ => rfl)
        fun _ => rfl
    exact ⟨hlive, hmutex, hphase, hbuffer⟩
  unfold World.registerNickname
  split
  · rename_i prev _
    have hnotice : KeepsLoop s σ (σ.dispatch prev (.write World.loggedInElsewhere)) :=
      keepsLoop_modify σ s prev (fun _ => rfl) fun _ => rfl
    exact (hnotice.trans (keepsLoop_closeSession _ s prev)).trans (hindex _)
  · exact hindex σ

theorem keepsLoop_login (msg : Json) : KeepsLoop s σ (World.settle env s (σ.login env s msg)) := by
  unfold World.login
  split
  · exact keepsLoop_postWrite env σ s s parsingFailed
  · rename_i nickname _
    split
    · exact keepsLoop_postWrite env σ s s nicknameRequired
    · split
      · exact keepsLoop_postWrite env σ s s nicknameInUse
      · have hnamed : KeepsLoop s σ (σ.setNickname s nickname) :=
          keepsLoop_modify σ s s (fun _ => rfl) fun _ => rfl
        have hready : KeepsLoop s (σ.setNickname s nickname)
            ((σ.setNickname s nickname).onNicknameRegistered s) :=
          keepsLoop_modify _ s s (fun _ => rfl) fun _ => rfl
        have hregister := (hnamed.trans hready).trans (keepsLoop_registerNickname _ s s nickname)
        have hacked := hregister.trans (keepsLoop_modify _ s s
          (f := fun o => { o with acked := o.acked ++ [nickname] }) (fun _ => rfl) fun _ => rfl)
        exact hacked.trans (keepsLoop_postWrite env _ s s loginOk)

theorem keepsLoop_handlePacket (packet : Bytes) : KeepsLoop s σ (σ.handlePacket env s packet) := by
  have hreceived : KeepsLoop s σ (σ.noteReceived s packet) :=
    keepsLoop_modify σ s s (fun _ => rfl) fun _ => rfl
  rw [handlePacket_eq_settle]
  refine hreceived.trans ?_
  cases route env (σ.session s).nicknameRegistered packet with
  | close => exact keepsLoop_closeSession _ s s
  | raise e => exact keepsLoop_postWrite env _ s s parsingFailed
  | unknown => exact keepsLoop_postWrite env _ s s unknownType
  | handler h msg =>
    have hnoted : KeepsLoop s (σ.noteReceived s packet) ((σ.noteReceived s packet).noteHandler s h) :=
      keepsLoop_modify _ s s (fun _ => rfl) fun _ => rfl
    refine hnoted.trans ?_
    cases h with
    | login => exact keepsLoop_login env _ s msg
    | insert =>
      rw [World.follow, World.callHandler, World.insert]
      cases insertQuery env msg with
      | error e => exact keepsLoop_postWrite env _ s s parsingFailed
      | ok query => exact keepsLoop_postWrite env _ s s insertOk

end KeepsLoop

/-- The drain loop over the buffer of a session: the packets it handles, and the world when the
buffer has no further one. -/
inductive Drained (env : Env) (s : SessionPtr) : World → List Bytes → World → Prop where
  | stop {σ : World} {mgr : MessageBufferManager}
      (extract : (σ.session s).msgBufMgr.extractMessage env.host = (none, mgr)) :
      Drained env s σ [] (σ.modify s fun o => { o with msgBufMgr := mgr })
  | packet {σ σ' : World} {packet : Bytes} {packets : List Bytes} {mgr : MessageBufferManager}
      (extract : (σ.session s).msgBufMgr.extractMessage env.host = (some packet, mgr))
      (rest : Drained env s ((σ.modify s fun o => { o with msgBufMgr := mgr }).handlePacket env s packet)
        packets σ') : Drained env s σ (packet :: packets) σ'

/-- After the loop: an invalid length ends the session, otherwise the next read is asked for. -/
def World.afterLoop (env : Env) (σ : World) (s : SessionPtr) : World :=
  if (σ.session s).msgBufMgr.lastClearByInvalidLength then (σ.setPhase s .idle).closeSession s
  else (σ.setPhase s .next).doRead s env.config

section Drained
variable {env : Env} {s : SessionPtr}

/-- The loop runs over exactly the frames of the buffer. -/
theorem drained_parse (σ : World) :
    ∃ σ', Drained env s σ (wire.parse (σ.session s).msgBufMgr.buffer).1 σ' ∧
    (σ'.session s).msgBufMgr = leftover (wire.parse (σ.session s).msgBufMgr.buffer).2 := by
  generalize hb : (σ.session s).msgBufMgr.buffer = b
  induction b using wire.items_induction generalizing σ with
  | more b hl =>
    rw [← hb] at hl
    refine ⟨_, by rw [← hb, wire.parse_more hl]; exact .stop (extractMessage_of_more hl), ?_⟩
    rw [World.modify_session_self, ← hb, wire.parse_more hl]
    rfl
  | bad b hl =>
    rw [← hb] at hl
    refine ⟨_, by rw [← hb, wire.parse_bad hl]; exact .stop (extractMessage_of_bad hl), ?_⟩
    rw [World.modify_session_self, ← hb, wire.parse_bad hl]
    rfl
  | item b packet rest hl ih =>
    have hrest : ((((σ.modify s fun o => { o with msgBufMgr := ⟨rest, false⟩ }).handlePacket env s
        packet).session s).msgBufMgr).buffer = rest := by
      rw [(keepsLoop_handlePacket env _ s packet).buffer, World.modify_session_self]
    obtain ⟨σ', hdrained, hleft⟩ := ih _ hrest
    rw [wire.parse_item hl]
    rw [← hb] at hl
    exact ⟨σ', .packet (extractMessage_of_item hl) hdrained, hleft⟩

theorem Drained.advances {σ σ' : World} {packets : List Bytes} (h : Drained env s σ packets σ')
    (alive : σ.live s = true) (free : σ.nicknameMutex = none) (at_ : (σ.session s).phase = .drain) :
    Advances env s σ (σ'.afterLoop env s) := by
  induction h with
  | @stop σ mgr extract =>
    refine .cons alive (τ := _) ?_ (.refl env s _)
    rw [World.advance, at_]
    simp only [World.drainStep, extract, World.afterLoop, World.modify_session_self]
  | @packet σ σ' packet packets mgr extract rest ih =>
    have hkeeps := keepsLoop_handlePacket env (σ.modify s fun o => { o with msgBufMgr := mgr }) s packet
    have hphase := hkeeps.phase
    rw [World.modify_session_self] at hphase
    exact (advances_handlePacket alive free at_ extract).trans
      (ih (hkeeps.live ▸ alive) (hkeeps.mutex.trans free) (hphase.trans at_))

/-- The handler of a read, left alone, handles the messages that the reference parser finds in the
buffer, in order, and then goes on as `do_read` does after its loop. -/
theorem advances_read (σ : World) (alive : σ.live s = true) (free : σ.nicknameMutex = none)
    (at_ : (σ.session s).phase = .drain) :
    ∃ σ', Drained env s σ (wire.parse (σ.session s).msgBufMgr.buffer).1 σ' ∧
      Advances env s σ (σ'.afterLoop env s) := by
  obtain ⟨σ', hdrained, _⟩ := drained_parse σ
  exact ⟨σ', hdrained, hdrained.advances alive free at_⟩

end Drained

end DBMiddleWare
