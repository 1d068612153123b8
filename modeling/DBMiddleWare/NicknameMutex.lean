import DBMiddleWare.Locality

/-!
# What the nickname mutex protects

While a registration closes the previous owner it holds the nickname mutex, so the
index entry that it has found stays as it is until it is overwritten.
-/

namespace DBMiddleWare

open Execution
set_option autoImplicit false

/-- The mutex and the index are as before, and no session has begun to evict another. -/
structure Undisturbed (σ σ' : World) : Prop where
  mutex : σ'.nicknameMutex = σ.nicknameMutex
  owner : ∀ n, σ'.manager.owner n = σ.manager.owner n
  evict : ∀ t n prev, (σ'.session t).phase = .loginEvict n prev →
    (σ.session t).phase = .loginEvict n prev

namespace Undisturbed
variable {σ σ₁ σ₂ : World}

theorem trans (h : Undisturbed σ σ₁) (h' : Undisturbed σ₁ σ₂) : Undisturbed σ σ₂ :=
  ⟨h'.mutex.trans h.mutex, fun n => (h'.owner n).trans (h.owner n),
    fun t n prev hp => h.evict t n prev (h'.evict t n prev hp)⟩

theorem closeSession (σ : World) (s : SessionPtr) : Undisturbed σ (σ.closeSession s) := by
  have hphase : ∀ t, ((σ.closeSession s).session t).phase = (σ.session t).phase := fun t =>
    World.closeSession_view σ s t (fun o => o.phase) fun o => o.toSessionControl.shut_phase
  exact ⟨World.closeSession_mutex σ s, World.closeSession_owner σ s,
    fun t n prev hp => (hphase t).symm.trans hp⟩

/-- Only `register_nickname` touches the mutex, the index or an eviction. -/
theorem ownSteps (s : SessionPtr) : OwnSteps s Undisturbed where
  beside _ _ _ := ⟨rfl, fun _ => rfl, fun _ _ _ hp => hp⟩
  trans _ _ _ h h' := h.trans h'
  close σ := closeSession σ s
  modify σ f begins := by
    refine ⟨rfl, fun _ => rfl, fun t n prev hp => ?_⟩
    rw [World.modify_session] at hp
    split at hp
    · rename_i heq
      exact heq ▸ begins n prev hp
    · exact hp

theorem addSession (σ : World) (s : SessionPtr) : Undisturbed σ (σ.addSession s) := by
  have hinserted : Undisturbed σ
      { σ with manager := σ.manager.insertSession (σ.session s).sessionId s } :=
    ⟨rfl, fun _ => rfl, fun _ _ _ hp => hp⟩
  rcases addSession_cases σ s with h | ⟨r, _, h⟩
  · rw [h]
    exact hinserted
  · rw [h]
    exact hinserted.trans (closeSession _ r)

theorem accept (σ : World) (now : Int) : Undisturbed σ (σ.accept now) := by
  have hnew : Undisturbed σ { σ with
      session := Function.update σ.session σ.nextPtr (.new σ.sessionCounter now)
      live := Function.update σ.live σ.nextPtr true
      nextPtr := σ.nextPtr + 1
      sessionCounter := σ.sessionCounter + 1 } := by
    refine ⟨rfl, fun _ => rfl, fun t n prev hp => ?_⟩
    change (Function.update σ.session σ.nextPtr _ t).phase = _ at hp
    by_cases ht : t = σ.nextPtr
    · rw [ht, Function.update_self] at hp
      cases hp
    · rwa [Function.update_of_ne ht] at hp
  exact hnew.trans (addSession _ σ.nextPtr)

end Undisturbed

/-- A session evicts only while it holds the mutex, and the entry is that of the other session
that it evicts. -/
def EvictsOwner (σ : World) : Prop :=
  ∀ s n prev, (σ.session s).phase = .loginEvict n prev →
    σ.nicknameMutex = some s ∧ σ.manager.owner n = some prev ∧ prev ≠ s

section Step
variable {env : Env} {σ σ' : World} {s : SessionPtr}

theorem EvictsOwner.undisturbed (h : EvictsOwner σ) (same : Undisturbed σ σ') : EvictsOwner σ' := by
  intro t n prev hp
  rw [same.mutex, same.owner]
  exact h t n prev (same.evict t n prev hp)

/-- Nobody evicts while the mutex is free, or held by another session. -/
theorem EvictsOwner.not_evicting (h : EvictsOwner σ) {t : SessionPtr} (other : σ.nicknameMutex ≠ some t)
    (n : String) (prev : SessionPtr) : (σ.session t).phase ≠ .loginEvict n prev :=
  fun hp => other (h t n prev hp).1

theorem EvictsOwner.register (h : EvictsOwner σ) (free : σ.nicknameMutex = none) (nickname : String) :
    EvictsOwner (σ.registerStep s nickname) := by
  have hnone : ∀ t n prev, (σ.session t).phase ≠ .loginEvict n prev := fun t =>
    h.not_evicting (by simp [free])
  unfold World.registerStep
  split
  · rename_i prev hprev
    obtain ⟨hfind, hother⟩ := Option.filter_eq_some_iff.mp hprev
    obtain ⟨r, howner, hlock⟩ := Option.bind_eq_some_iff.mp hfind
    have hr : r = prev := by
      unfold World.lock at hlock
      split at hlock
      · exact Option.some.inj hlock
      · cases hlock
    intro t n prev' hp
    change ((World.setPhase _ s (.loginEvict nickname prev)).session t).phase = _ at hp
    rw [World.setPhase, World.modify_session] at hp
    split at hp
    · rename_i heq
      rw [Phase.loginEvict.injEq] at hp
      obtain ⟨rfl, rfl⟩ := hp
      exact ⟨heq ▸ rfl, hr ▸ howner, heq ▸ by simpa using hother⟩
    · have hsame : ((σ.dispatch prev (.write World.loggedInElsewhere)).session t).phase =
        (σ.session t).phase :=
        World.dispatch_view σ prev t _ (fun o => o.phase) fun _ _ => rfl
      exact absurd (hsame.symm.trans hp) (hnone t n prev')
  · intro t n prev hp
    rw [World.setPhase, World.modify_session] at hp
    split at hp
    · cases hp
    · have hsame : ((σ.indexNickname s nickname).session t).phase = (σ.session t).phase :=
        World.indexNickname_view σ s t nickname (fun o => o.phase) fun _ _ => rfl
      exact absurd (hsame.symm.trans hp) (hnone t n prev)

theorem EvictsOwner.evict (h : EvictsOwner σ) {nickname : String} {prev : SessionPtr}
    (at_ : (σ.session s).phase = .loginEvict nickname prev) :
    EvictsOwner (σ.evictStep s nickname prev) := by
  intro t n prev' hp
  change ((World.setPhase _ s (.loginAck nickname)).session t).phase = _ at hp
  rw [World.setPhase, World.modify_session] at hp
  split at hp
  · cases hp
  · rename_i hne
    have hindexed : (((σ.closeSession prev).indexNickname s nickname).session t).phase =
        ((σ.closeSession prev).session t).phase :=
      World.indexNickname_view _ s t nickname (fun o => o.phase) fun _ _ => rfl
    have hclosed : ((σ.closeSession prev).session t).phase = (σ.session t).phase :=
      World.closeSession_view σ prev t (fun o => o.phase) fun o => o.toSessionControl.shut_phase
    -- only the holder of the mutex evicts
    have hholder := (h t n prev' ((hindexed.trans hclosed).symm.trans hp)).1
    rw [(h s nickname prev at_).1] at hholder
    exact absurd (Option.some.inj hholder).symm hne

theorem EvictsOwner.step {a : Act} (h : EvictsOwner σ) (hs : DBMiddleWare.step env σ a = some σ') :
    EvictsOwner σ' := by
  rcases step_cases hs with ⟨now, _, rfl⟩ | ⟨collected, _, rfl⟩ | ⟨s, e, rfl, alive, happened⟩
  · exact h.undisturbed (.accept σ now)
  · exact h
  · rcases (Undisturbed.ownSteps s).event happened with hsame | ⟨rfl,
      ⟨n, at_, rfl⟩ | ⟨n, prev, at_, rfl⟩⟩
    · exact h.undisturbed hsame
    · simp only [DBMiddleWare.step, World.event, World.advance, at_, Option.ite_none_right_eq_some] at hs
      exact h.register hs.2.1 n
    · exact h.evict at_

theorem evictsOwner_init (shardCount : Nat) : EvictsOwner (World.init shardCount) := nofun

end Step

end DBMiddleWare
