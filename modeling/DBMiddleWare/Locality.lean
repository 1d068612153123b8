import DBMiddleWare.Simulation

/-!
# What a session can do to the others

An event of one session changes that session. The others see of it at most a
`close_session` or the notice of an eviction on their strand, and it takes no entry of
the nickname index in their name.
-/

namespace DBMiddleWare

set_option autoImplicit false

/-- A relation that holds across closing a session, and across an update of it that begins no
eviction. -/
structure OwnSteps (s : SessionPtr) (R : World → World → Prop) : Prop where
  beside : ∀ σ live toClose, R σ { σ with live := live, toClose := toClose }
  trans : ∀ σ₁ σ₂ σ₃, R σ₁ σ₂ → R σ₂ σ₃ → R σ₁ σ₃
  modify : ∀ σ f, (∀ n prev, (f (σ.session s)).phase = .loginEvict n prev →
    (σ.session s).phase = .loginEvict n prev) → R σ (σ.modify s f)
  close : ∀ σ, R σ (σ.closeSession s)

theorem not_evict_of_pending {phase : Phase} (outside : phase.pending = none) (n : String)
    (prev : SessionPtr) : phase ≠ .loginEvict n prev := by
  rintro rfl
  cases outside

section OwnSteps
variable {s : SessionPtr} {R : World → World → Prop} (h : OwnSteps s R) (σ : World)
include h

theorem OwnSteps.refl : R σ σ := h.beside σ σ.live σ.toClose

theorem OwnSteps.keep {f : Session → Session} (phase : ∀ o, (f o).phase = o.phase) :
    R σ (σ.modify s f) :=
  h.modify σ f fun _ _ hp => (phase _).symm.trans hp

theorem OwnSteps.setPhase {phase : Phase} (begins : ∀ n prev, phase ≠ .loginEvict n prev) :
    R σ (σ.setPhase s phase) := h.modify σ _ fun n prev hp => absurd hp (begins n prev)

theorem OwnSteps.postWrite (cfg : Config) (text : Bytes) : R σ (σ.postWrite s cfg text) := by
  apply h.keep
  intro o
  exact WriteQueue.postWrite_view SessionControl.phase (fun _ => rfl) cfg text o

theorem OwnSteps.postTask (cfg : Config) (fn : Task) : R σ (σ.postTask s cfg fn) := by
  unfold World.postTask
  split
  · exact h.close σ
  · exact h.keep σ fun o => congrArg SessionControl.phase (pushTask_control fn o)

theorem OwnSteps.doRead (cfg : Config) : R σ (σ.doRead s cfg) := by
  unfold World.doRead
  split
  · exact h.refl σ
  · split
    · exact h.refl σ
    · exact h.trans _ _ _ (h.keep σ (f := fun o => { o with readPending := true }) fun _ => rfl)
        (h.postTask _ cfg .read)

theorem OwnSteps.start : R σ (σ.start s) := by
  unfold World.start
  split
  · exact h.refl σ
  · split
    · exact h.refl σ
    · exact h.trans _ _ _ (h.keep σ (f := fun o => { o with readPending := true }) fun _ => rfl)
        (h.keep _ fun _ => rfl)

theorem OwnSteps.enter (env : Env) (r : Route) : R σ (σ.enter env s r) := by
  have hmove : R σ (σ.modify s fun o =>
      { o with handled := o.handled ++ r.handler?.toList, phase := r.phase env }) :=
    h.modify σ _ fun n prev hp => absurd hp (not_evict_of_pending (Route.phase_pending env r) n prev)
  unfold World.enter
  dsimp only
  split
  · exact h.trans _ _ _ hmove (h.close _)
  · exact hmove

theorem OwnSteps.drainStep (env : Env) : R σ (σ.drainStep env s) := by
  unfold World.drainStep
  split
  · rename_i packet mgr _
    have htaken := h.keep σ (f := fun o => { o with msgBufMgr := mgr }) fun _ => rfl
    have hnoted := h.keep (σ.modify s fun o => { o with msgBufMgr := mgr })
      (f := fun o => { o with received := o.received ++ [packet] }) fun _ => rfl
    exact h.trans _ _ _ (h.trans _ _ _ htaken hnoted) (h.enter _ env _)
  · rename_i mgr _
    refine h.trans _ _ _ (h.keep σ (f := fun o => { o with msgBufMgr := mgr }) fun _ => rfl) ?_
    dsimp only
    split
    · exact h.trans _ _ _ (h.setPhase _ (by simp)) (h.close _)
    · exact h.trans _ _ _ (h.setPhase _ (by simp)) (h.doRead _ env.config)

theorem OwnSteps.lookupStep (nickname : String) : R σ (σ.lookupStep s nickname) := by
  unfold World.lookupStep
  split
  · exact h.setPhase σ (by simp)
  · exact h.setPhase σ (by simp)

theorem OwnSteps.readError (aborted : Bool) : R σ (σ.readError s aborted) := by
  have hnext : R σ (σ.modify s fun o =>
      { o with asyncReads := o.asyncReads - 1, readPending := false, phase := .next }) :=
    h.modify σ _ (by simp)
  unfold World.readError
  dsimp only
  split
  · exact hnext
  · exact h.trans _ _ _ hnext (h.close _)

theorem OwnSteps.onWrite (k : Nat) (w : PendingWrite) (ec : Bool) : R σ (σ.onWrite s k w ec) := by
  refine h.trans _ _ _ (h.keep σ (f := Session.takeWrite k) fun _ => rfl) ?_
  unfold World.onWrite
  dsimp only
  split
  · exact h.refl _
  · split
    · exact h.close _
    · exact h.keep _ fun o => congrArg SessionControl.phase (WriteQueue.doWriteQueue_frame _).1

theorem OwnSteps.advance {env : Env} {σ σ' : World} (hs : Advanced env σ s σ') :
    R σ σ' ∨ (∃ n, (σ.session s).phase = .loginRegister n ∧ σ' = σ.registerStep s n) ∨
      ∃ n prev, (σ.session s).phase = .loginEvict n prev ∧ σ' = σ.evictStep s n prev := by
  cases hs with
  | drain _ => exact Or.inl (h.drainStep σ env)
  | reply text _ => exact Or.inl (h.trans _ _ _ (h.setPhase σ (by simp)) (h.postWrite _ env.config text))
  | lookup n _ => exact Or.inl (h.lookupStep σ n)
  | name n _ =>
    have hnamed := h.keep σ (f := fun o => { o with nickname := n }) fun _ => rfl
    exact Or.inl (h.trans _ _ _ hnamed (h.setPhase _ (by simp)))
  | ready n _ =>
    have hready := h.keep σ (f := fun o => { o with nicknameRegistered := true, state := .ready })
      fun _ => rfl
    exact Or.inl (h.trans _ _ _ hready (h.setPhase _ (by simp)))
  | register n at_ => exact Or.inr (Or.inl ⟨n, at_, rfl⟩)
  | evict n prev at_ => exact Or.inr (Or.inr ⟨n, prev, at_, rfl⟩)
  | ack n _ =>
    have hacked := h.keep (σ.setPhase s .drain) (f := fun o => { o with acked := o.acked ++ [n] })
      fun _ => rfl
    exact Or.inl (h.trans _ _ _ (h.trans _ _ _ (h.setPhase σ (by simp)) hacked)
      (h.postWrite _ env.config loginOk))
  | next _ =>
    have hran := h.keep (σ.setPhase s .idle)
      fun o => congrArg SessionControl.phase (runNextTask_control o)
    exact Or.inl (h.trans _ _ _ (h.setPhase σ (by simp)) hran)

/-- Only `register_nickname` does more than a session does to itself. -/
theorem OwnSteps.event {env : Env} {σ σ' : World} {e : Event} (hs : Happened env σ s e σ') :
    R σ σ' ∨ e = .advance ∧
      ((∃ n, (σ.session s).phase = .loginRegister n ∧ σ' = σ.registerStep s n) ∨
        ∃ n prev, (σ.session s).phase = .loginEvict n prev ∧ σ' = σ.evictStep s n prev) := by
  cases hs with
  | start _ => exact Or.inl (h.trans _ _ _ (h.setPhase σ (by simp)) (h.start _))
  | strand closure rest _ _ =>
    have htaken := h.keep σ (f := fun o => { o with strand := rest }) fun _ => rfl
    cases closure with
    | write text => exact Or.inl (h.trans _ _ _ htaken (h.postWrite _ env.config text))
    | task fn => exact Or.inl (h.trans _ _ _ htaken (h.postTask _ env.config fn))
  | readData data _ => exact Or.inl (h.modify σ _ (by simp))
  | readError aborted _ => exact Or.inl (h.readError σ aborted)
  | advance advanced => exact (h.advance advanced).imp_right fun hregister => ⟨rfl, hregister⟩
  | postWrite text => exact Or.inl (h.keep σ fun _ => rfl)
  | writeDone k w ec _ => exact Or.inl (h.onWrite σ k w ec)
  | sweep => exact Or.inl (h.trans _ _ _ (h.beside σ σ.live (σ.toClose.erase s)) (h.close _))
  | destroy _ => exact Or.inl (h.beside σ _ σ.toClose)

end OwnSteps

/-- The other sessions are as they were, and have no new entry in the index. -/
def Local (s : SessionPtr) (σ σ' : World) : Prop :=
  ∀ t, t ≠ s → σ'.session t = σ.session t ∧
    ∀ n, σ'.manager.owner n = some t → σ.manager.owner n = some t

section Local
variable {s : SessionPtr} {σ : World}

theorem Local.trans {σ₁ σ₂ σ₃ : World} (h : Local s σ₁ σ₂) (h' : Local s σ₂ σ₃) : Local s σ₁ σ₃ :=
  fun t ht => ⟨(h' t ht).1.trans (h t ht).1, fun n hn => (h t ht).2 n ((h' t ht).2 n hn)⟩

theorem local_modify (s : SessionPtr) (σ : World) (f : Session → Session) :
    Local s σ (σ.modify s f) := by
  intro t ht
  rw [World.modify_session, if_neg ht]
  exact ⟨rfl, fun _ h => h⟩

theorem local_ownSteps (s : SessionPtr) : OwnSteps s (Local s) where
  beside _ _ _ _ _ := ⟨rfl, fun _ hn => hn⟩
  trans _ _ _ h h' := h.trans h'
  modify σ f _ := local_modify s σ f
  close σ t ht := by
    rw [World.closeSession_session]
    refine ⟨(local_modify s σ Session.shut t ht).1, fun n hn => ?_⟩
    rwa [World.closeSession_owner] at hn

theorem local_indexNickname (s : SessionPtr) (σ : World) (nickname : String) :
    Local s σ (σ.indexNickname s nickname) := by
  intro t ht
  rw [World.indexNickname_session]
  refine ⟨(local_modify s σ _ t ht).1, fun n hn => ?_⟩
  change (σ.manager.setOwner nickname s).owner n = some t at hn
  rw [SessionManager.owner_setOwner] at hn
  split at hn
  · exact absurd (Option.some.inj hn).symm ht
  · exact hn

end Local

inductive Remote (o : Session) : Session → Prop where
  | same : Remote o o
  | shut : Remote o o.shut
  | notice (text : Bytes) : Remote o { o with strand := o.strand ++ [.write text] }

/-- What a session sees of the steps of the others. -/
def Seen (t : SessionPtr) (σ σ' : World) : Prop :=
  Remote (σ.session t) (σ'.session t) ∧ ∀ n, σ'.manager.owner n = some t → σ.manager.owner n = some t

section Remote
variable {env : Env} {σ σ' : World} {s t : SessionPtr}

theorem Local.seen (h : Local s σ σ') (other : t ≠ s) : Seen t σ σ' :=
  ⟨(h t other).1.symm ▸ .same, (h t other).2⟩

theorem seen_closeSession (σ : World) (r t : SessionPtr) : Seen t σ (σ.closeSession r) := by
  refine ⟨?_, fun n hn => ?_⟩
  · rw [World.closeSession_session, World.modify_session]
    split
    · rename_i heq
      exact heq ▸ .shut
    · exact .same
  · rwa [World.closeSession_owner] at hn

theorem seen_dispatch (σ : World) (r t : SessionPtr) (text : Bytes) :
    Seen t σ (σ.dispatch r (.write text)) := by
  refine ⟨?_, fun _ hn => hn⟩
  rw [World.dispatch, World.modify_session]
  split
  · rename_i heq
    exact heq ▸ .notice text
  · exact .same

theorem Seen.then_local {σ'' : World} (h : Seen t σ σ') (h' : Local s σ' σ'') (other : t ≠ s) :
    Seen t σ σ'' :=
  ⟨(h' t other).1.symm ▸ h.1, fun n hn => h.2 n ((h' t other).2 n hn)⟩

theorem Seen.of_same {σ₁ : World} (h : Seen t σ₁ σ') (session : σ₁.session t = σ.session t)
    (owner : ∀ n, σ₁.manager.owner n = some t → σ.manager.owner n = some t) : Seen t σ σ' :=
  ⟨session ▸ h.1, fun n hn => owner n (h.2 n hn)⟩

theorem registerStep_seen (nickname : String) (other : t ≠ s) :
    Seen t σ (σ.registerStep s nickname) := by
  unfold World.registerStep
  split
  · rename_i prev _
    have hphase := local_modify s (σ.dispatch prev (.write World.loggedInElsewhere))
      fun o => { o with phase := .loginEvict nickname prev }
    exact (seen_dispatch σ prev t _).then_local (fun u hu => hphase u hu) other
  · exact ((local_indexNickname s σ nickname).trans (local_modify s _ _)).seen other

theorem evictStep_seen (nickname : String) (prev : SessionPtr) (other : t ≠ s) :
    Seen t σ (σ.evictStep s nickname prev) := by
  have hregister := (local_indexNickname s (σ.closeSession prev) nickname).trans
    (local_modify s _ fun o => { o with phase := .loginAck nickname })
  exact (seen_closeSession σ prev t).then_local (fun u hu => hregister u hu) other

theorem event_seen {e : Event} (h : Happened env σ s e σ') (other : t ≠ s) : Seen t σ σ' := by
  rcases (local_ownSteps s).event h with hlocal | ⟨_, ⟨n, _, rfl⟩ | ⟨n, prev, _, rfl⟩⟩
  · exact hlocal.seen other
  · exact registerStep_seen n other
  · exact evictStep_seen n prev other

/-- A step that is no event of an existing session leaves it alone, closes it, or puts the
notice of an eviction on its strand. -/
theorem step_seen {a : Act} (h : step env σ a = some σ') (existing : t < σ.nextPtr)
    (other : ∀ e, a ≠ .on t e) : Seen t σ σ' := by
  rcases step_cases h with ⟨now, _, rfl⟩ | ⟨collected, _, rfl⟩ | ⟨s, e, rfl, _, happened⟩
  · have hne : t ≠ σ.nextPtr := Nat.ne_of_lt existing
    have hsession : Function.update σ.session σ.nextPtr (.new σ.sessionCounter now) t = σ.session t :=
      Function.update_of_ne hne ..
    rw [World.accept]
    rcases addSession_cases _ σ.nextPtr with heq | ⟨r, _, heq⟩
    · rw [heq]
      exact ⟨hsession ▸ .same, fun _ hn => hn⟩
    · rw [heq]
      exact (seen_closeSession _ r t).of_same hsession fun _ hn => hn
  · exact ⟨.same, fun _ hn => hn⟩
  · exact event_seen happened fun heq => other e (heq ▸ rfl)

end Remote

end DBMiddleWare
