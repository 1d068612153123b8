import DBMiddleWare.HandlerSteps
import DBMiddleWare.Locality

/-!
# A login that has passed its lookup

Nothing refuses it any more: each further step of its handler brings it nearer to the
answer ok, and no step of another thread takes it back.
-/

namespace DBMiddleWare

open Execution Control
set_option autoImplicit false

/-- The steps of the handler up to the answer ok. -/
def Phase.stepsLeft (nickname : String) : Phase → Nat
  | .loginSet n => if n = nickname then 5 else 0
  | .loginReady n => if n = nickname then 4 else 0
  | .loginRegister n => if n = nickname then 3 else 0
  | .loginEvict n _ => if n = nickname then 2 else 0
  | .loginAck n => if n = nickname then 1 else 0
  | _ => 0

/-- After the answers in `before` the login has been answered ok, or is in a few steps. -/
def Promised (before : List String) (nickname : String) (k : Nat) (o : SessionControl) : Prop :=
  (before ++ [nickname]).Sublist o.acked ∨
    (before.Sublist o.acked ∧ 0 < o.phase.stepsLeft nickname ∧ o.phase.stepsLeft nickname ≤ k)

theorem Control.Touch.acked {env : Env} {o o' : SessionControl} (h : Touch env o o') :
    o.acked.Sublist o'.acked := by
  cases h with
  | shut => rw [SessionControl.shut_view SessionControl.acked fun _ _ _ _ _ => rfl]
  | ack nickname => exact List.sublist_append_left _ _
  | _ => exact .refl _

section Step
variable {env : Env} {σ σ' : World} {t : SessionPtr} {a : Act} {before : List String} {nickname : String}
  {k : Nat}

theorem acked_mono (existing : t < σ.nextPtr) (hs : DBMiddleWare.step env σ a = some σ') :
    (σ.session t).acked.Sublist (σ'.session t).acked := by
  have h : t < σ'.control.nextPtr ∧ (σ.session t).acked.Sublist (σ'.control.session t).acked :=
    control_preserved (I := fun c => t < c.nextPtr ∧ (σ.session t).acked.Sublist (c.session t).acked)
      (fun _ _ _ hop hc => ⟨Nat.lt_of_lt_of_le hc.1 hop.nextPtr_le, hc.2.trans (hop.touch hc.1).acked⟩)
      hs ⟨existing, .refl _⟩
  exact h.2

theorem stepsLeft_of_strandFree {o : SessionControl} (free : o.strandFree = true) (nickname : String) :
    o.phase.stepsLeft nickname = 0 := by
  unfold SessionControl.strandFree at free
  cases hp : o.phase <;> simp_all [Phase.stepsLeft]

theorem Remote.phase_eq {o o' : Session} (h : Remote o o') : o'.phase = o.phase := by
  cases h with
  | same => rfl
  | shut => exact o.toSessionControl.shut_phase
  | notice text => rfl

theorem onWrite_phase (σ : World) (s : SessionPtr) (k : Nat) (w : PendingWrite) (ec : Bool) :
    ((σ.onWrite s k w ec).session s).phase = (σ.session s).phase := by
  have htaken : ((σ.modify s (Session.takeWrite k)).session s).phase = (σ.session s).phase :=
    World.modify_view σ s s (Session.takeWrite k) (fun o => o.phase) fun _ => rfl
  unfold World.onWrite
  dsimp only
  split
  · exact htaken
  · split
    · exact (World.closeSession_view _ s s (fun o => o.phase)
        fun o => o.toSessionControl.shut_phase).trans htaken
    · refine (World.modify_view _ s s _ (fun o => o.phase) fun o => ?_).trans htaken
      exact congrArg SessionControl.phase (WriteQueue.doWriteQueue_frame _).1

/-- While a handler runs, only its own steps move it. -/
theorem event_phase {e : Event} (h : Happened env σ t e σ') (waits : e ≠ .advance) :
    (σ'.session t).phase = (σ.session t).phase ∨ (σ.session t).strandFree = true := by
  cases h with
  | start at_ => exact Or.inr (by simp [SessionControl.strandFree, at_])
  | strand closure rest _ free => exact Or.inr free
  | readData data free => exact Or.inr free
  | readError aborted free => exact Or.inr free
  | advance _ => exact absurd rfl waits
  | postWrite text => exact Or.inl (World.modify_view σ t t _ (fun o => o.phase) fun _ => rfl)
  | writeDone k w ec _ => exact Or.inl (onWrite_phase σ t k w ec)
  | sweep =>
    exact Or.inl (World.closeSession_view { σ with toClose := σ.toClose.erase t } t t (fun o => o.phase)
      fun o => o.toSessionControl.shut_phase)
  | destroy _ => exact Or.inl rfl

theorem step_phase (existing : t < σ.nextPtr) (hs : DBMiddleWare.step env σ a = some σ')
    (waits : a ≠ .on t .advance) :
    (σ'.session t).phase = (σ.session t).phase ∨ (σ.session t).strandFree = true := by
  by_cases hother : ∀ e, a ≠ .on t e
  · exact Or.inl (step_seen hs existing hother).1.phase_eq
  · push Not at hother
    obtain ⟨e, rfl⟩ := hother
    simp only [DBMiddleWare.step, Option.ite_none_right_eq_some] at hs
    exact event_phase (event_cases hs.2) fun he => waits (he ▸ rfl)

theorem Promised.waits (h : Promised before nickname k (σ.session t).toSessionControl)
    (existing : t < σ.nextPtr) (hs : DBMiddleWare.step env σ a = some σ') (waits : a ≠ .on t .advance) :
    Promised before nickname k (σ'.session t).toSessionControl := by
  have hmono := acked_mono existing hs
  rcases h with hacked | ⟨hbefore, hpos, hle⟩
  · exact Or.inl (hacked.trans hmono)
  · rcases step_phase existing hs waits with hphase | hfree
    · exact Or.inr ⟨hbefore.trans hmono, hphase ▸ hpos, hphase ▸ hle⟩
    · rw [stepsLeft_of_strandFree hfree] at hpos
      exact absurd hpos (Nat.lt_irrefl 0)

theorem ackLogin_acked (env : Env) (σ : World) (s : SessionPtr) (nickname : String) :
    ((σ.ackLogin env s nickname).session s).acked = (σ.session s).acked ++ [nickname] := by
  rw [World.ackLogin, World.postWrite, World.modify_session_self,
    WriteQueue.postWrite_view SessionControl.acked fun _ => rfl, World.modify_session_self]

theorem asked_of_pos {n nickname : String} {k : Nat} (h : 0 < if n = nickname then k else 0) :
    n = nickname := by
  by_contra hne
  rw [if_neg hne] at h
  exact Nat.lt_irrefl 0 h

theorem Advanced.stepsLeft (h : Advanced env σ t σ')
    (underway : 0 < (σ.session t).phase.stepsLeft nickname) :
    (σ'.session t).acked = (σ.session t).acked ++ [nickname] ∨
    (0 < (σ'.session t).phase.stepsLeft nickname ∧
      (σ'.session t).phase.stepsLeft nickname < (σ.session t).phase.stepsLeft nickname) := by
  cases h with
  | drain at_ => simp [at_, Phase.stepsLeft] at underway
  | reply text at_ => simp [at_, Phase.stepsLeft] at underway
  | lookup n at_ => simp [at_, Phase.stepsLeft] at underway
  | next at_ => simp [at_, Phase.stepsLeft] at underway
  | name n at_ =>
    rw [at_] at underway
    obtain rfl := asked_of_pos underway
    exact Or.inr (by simp [at_, Phase.stepsLeft])
  | ready n at_ =>
    rw [at_] at underway
    obtain rfl := asked_of_pos underway
    exact Or.inr (by simp [at_, Phase.stepsLeft])
  | register n at_ =>
    rw [at_] at underway
    obtain rfl := asked_of_pos underway
    refine Or.inr ?_
    unfold World.registerStep
    split
    · simp [at_, Phase.stepsLeft]
    · simp [at_, Phase.stepsLeft]
  | evict n prev at_ =>
    rw [at_] at underway
    obtain rfl := asked_of_pos underway
    refine Or.inr ?_
    unfold World.evictStep
    simp [at_, Phase.stepsLeft]
  | ack n at_ =>
    rw [at_] at underway
    obtain rfl := asked_of_pos underway
    apply Or.inl
    rw [ackLogin_acked, World.setPhase, World.modify_session_self]

theorem Promised.advance (h : Promised before nickname k (σ.session t).toSessionControl)
    (existing : t < σ.nextPtr) (hs : DBMiddleWare.step env σ (.on t .advance) = some σ') :
    Promised before nickname (k - 1) (σ'.session t).toSessionControl := by
  have hmono := acked_mono existing hs
  rcases h with hacked | ⟨hbefore, hpos, hle⟩
  · exact Or.inl (hacked.trans hmono)
  · rcases (advance_step_cases hs).stepsLeft hpos with hanswer | ⟨hpos', hlt⟩
    · apply Or.inl
      rw [hanswer]
      exact hbefore.append_right [nickname]
    · exact Or.inr ⟨hbefore.trans hmono, hpos', by omega⟩

/-- However the steps of the others fall, the answer is there once the handler has gone on often
enough. -/
theorem Promised.run {more : List Act} (h : Promised before nickname k (σ.session t).toSessionControl)
    (existing : t < σ.nextPtr) (run : exec (DBMiddleWare.step env) σ more = some σ') :
    Promised before nickname (k - more.count (.on t .advance)) (σ'.session t).toSessionControl := by
  induction more generalizing σ k with
  | nil =>
    rw [exec_nil, Option.some.injEq] at run
    rw [← run]
    exact h
  | cons a more ih =>
    obtain ⟨τ, hτ, hrest⟩ := exec_cons_eq_some.mp run
    have hexisting : t < τ.nextPtr := Nat.lt_of_lt_of_le existing (nextPtr_le_of_step hτ)
    by_cases ha : a = .on t .advance
    · subst ha
      rw [List.count_cons_self, Nat.add_comm, ← Nat.sub_sub]
      exact ih (h.advance existing hτ) hexisting hrest
    · rw [List.count_cons_of_ne ha]
      exact ih (h.waits existing hτ ha) hexisting hrest

/-- A login whose nickname is free at its lookup is answered ok. -/
theorem lookup_answered {more : List Act} (existing : t < σ.nextPtr)
    (at_ : (σ.session t).phase = .loginLookup nickname) (free : σ.findSessionByNickname nickname = none)
    (run : exec (DBMiddleWare.step env) σ (.on t .advance :: more) = some σ')
    (enough : 5 ≤ more.count (.on t .advance)) :
    ((σ.session t).acked ++ [nickname]).Sublist (σ'.session t).acked := by
  obtain ⟨τ, hτ, hrest⟩ := exec_cons_eq_some.mp run
  have hexisting : t < τ.nextPtr := Nat.lt_of_lt_of_le existing (nextPtr_le_of_step hτ)
  have hphase : (τ.session t).phase = .loginSet nickname := by
    have hlookup := hτ
    simp only [DBMiddleWare.step, Option.ite_none_right_eq_some, World.event, World.advance, at_,
      Option.some.injEq] at hlookup
    rw [← hlookup.2.2, World.lookupStep, free]
    exact setPhase_phase ..
  have hpromised : Promised (σ.session t).acked nickname 5 (τ.session t).toSessionControl := by
    refine Or.inr ⟨acked_mono existing hτ, ?_⟩
    simp [hphase, Phase.stepsLeft]
  rcases hpromised.run hexisting hrest with hacked | ⟨_, hpos, hle⟩
  · exact hacked
  · omega

/-- Its handler can go on to the answer at once, unless another one holds the nickname mutex. -/
theorem lookup_answers (alive : σ.live t = true) (unlocked : σ.nicknameMutex = none)
    (at_ : (σ.session t).phase = .loginLookup nickname)
    (free : σ.findSessionByNickname nickname = none) :
    ∃ τ, Advances env t σ τ ∧ ((σ.session t).acked ++ [nickname]).Sublist (τ.session t).acked := by
  have hdrain : ((σ.setPhase t .drain).session t).phase = .drain := setPhase_phase ..
  have hlookup : σ.advance env t = some ((σ.setPhase t .drain).setPhase t (.loginSet nickname)) := by
    rw [World.advance, at_, setPhase_setPhase]
    refine (if_pos unlocked).trans (congrArg some ?_)
    rw [World.lookupStep, free]
    rfl
  have hprevious : (((σ.setPhase t .drain).setNickname t nickname).onNicknameRegistered
      t).previousOwner t
      nickname = none := congrArg (Option.filter _) free
  refine ⟨_, .cons alive hlookup
    (advances_login (σ := σ.setPhase t .drain) alive unlocked hdrain free), ?_⟩
  rw [ackLogin_acked, World.registerNickname, hprevious]
  simp [World.indexNickname_session, World.onNicknameRegistered, World.setNickname, World.setPhase]

end Step

end DBMiddleWare
