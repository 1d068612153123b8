import DBMiddleWare.Simulation

/-!
# The nickname index

A nickname is stored in the session and in the index. `register_nickname` writes the
index after `set_nickname` has written the session, and nothing removes the entry of
an earlier nickname: a session that logs in again keeps both.
-/

namespace DBMiddleWare

open Execution Control
set_option autoImplicit false

structure IndexAgrees (c : Control) : Prop where
  agrees : ∀ n t, c.manager.owner n = some t → (c.session t).nickname = n
  unnamed : ∀ t n, (c.session t).phase = .loginSet n → ∀ m, c.manager.owner m ≠ some t
  carries : ∀ t n, (c.session t).phase.carried = some n → (c.session t).nickname = n

/-- A login that passes its lookup belongs to a session that does not hold its nickname. -/
def HoldsNone (c : Control) : Op → Prop
  | .lookup s _ => c.manager.owner (c.session s).nickname ≠ some s
  | _ => True

section Invariant
variable {c c' : Control}

theorem IndexAgrees.modify (h : IndexAgrees c) (s : SessionPtr) {f : SessionControl → SessionControl}
    (nickname : ∀ o, (f o).nickname = o.nickname)
    (unnamed : ∀ n, (f (c.session s)).phase = .loginSet n → ∀ m, c.manager.owner m ≠ some s)
    (carries : ∀ n, (f (c.session s)).phase.carried = some n → (c.session s).nickname = n) :
    IndexAgrees (c.modify s f) := by
  have hnickname : ∀ t, ((c.modify s f).session t).nickname = (c.session t).nickname :=
    fun t => modify_view c s t f SessionControl.nickname nickname
  constructor
  · intro n t ht
    exact (hnickname t).trans (h.agrees n t ht)
  · exact modify_forall (P := fun t o => ∀ n, o.phase = .loginSet n → ∀ m, c.manager.owner m ≠ some t)
      h.unnamed unnamed
  · intro t
    rw [hnickname]
    exact modify_forall (P := fun t o => ∀ n, o.phase.carried = some n → (c.session t).nickname = n)
      h.carries carries t

theorem IndexAgrees.quiet (h : IndexAgrees c) (s : SessionPtr) {f : SessionControl → SessionControl}
    (nickname : ∀ o, (f o).nickname = o.nickname)
    (phase : (f (c.session s)).phase = (c.session s).phase ∨ (f (c.session s)).phase.pending = none) :
    IndexAgrees (c.modify s f) := by
  apply h.modify s nickname
  · intro n hp
    rcases phase with hsame | hnone
    · exact h.unnamed s n (hsame ▸ hp)
    · rw [hp] at hnone
      cases hnone
  · intro n hp
    rcases phase with hsame | hnone
    · exact h.carries s n (hsame ▸ hp)
    · rw [Phase.carried_of_pending hnone] at hp
      cases hp

theorem IndexAgrees.close (h : IndexAgrees c) (s : SessionPtr) : IndexAgrees (c.close s) := by
  have hnickname : ∀ t, ((c.close s).session t).nickname = (c.session t).nickname :=
    fun t => close_view c s t SessionControl.nickname SessionControl.shut_nickname
  have hphase : ∀ t, ((c.close s).session t).phase = (c.session t).phase :=
    fun t => close_view c s t SessionControl.phase SessionControl.shut_phase
  constructor
  · intro n t ht
    rw [close_owner] at ht
    exact (hnickname t).trans (h.agrees n t ht)
  · intro t n hp m
    rw [close_owner]
    exact h.unnamed t n ((hphase t).symm.trans hp) m
  · intro t n hp
    rw [hphase] at hp
    exact (hnickname t).trans (h.carries t n hp)

theorem IndexAgrees.accept (h : IndexAgrees c) (known : Known c) (sessionId : Int32) :
    IndexAgrees (c.accept sessionId) := by
  constructor
  · intro n t ht
    rw [accept_session_of_ne c t sessionId (Nat.ne_of_lt (known.owner n t ht))]
    exact h.agrees n t ht
  · apply accept_forall (P := fun t o => ∀ n, o.phase = .loginSet n → ∀ m, c.manager.owner m ≠ some t)
    · exact fun t _ => h.unnamed t
    · exact fun n hp => by cases hp
  · apply accept_forall (P := fun _ o => ∀ n, o.phase.carried = some n → o.nickname = n)
    · exact fun t _ => h.carries t
    · exact fun n hp => by cases hp

/-- The session has no entry, so its nickname may change before it gets one. -/
theorem IndexAgrees.lookup (h : IndexAgrees c) {s : SessionPtr} (nickname : String)
    (holdsNone : c.manager.owner (c.session s).nickname ≠ some s) :
    IndexAgrees (c.modify s (.goto (.loginSet nickname))) := by
  apply h.modify s (f := .goto (.loginSet nickname)) fun _ => rfl
  · intro _ _ m hm
    apply holdsNone
    rw [h.agrees m s hm]
    exact hm
  · intro n hp
    cases hp

theorem IndexAgrees.name (h : IndexAgrees c) {s : SessionPtr} {nickname : String}
    (at_ : (c.session s).phase = .loginSet nickname) : IndexAgrees (c.modify s (.name nickname)) := by
  constructor
  · intro n t ht
    have hts : t ≠ s := by
      rintro rfl
      exact h.unnamed t nickname at_ n ht
    rw [modify_session_of_ne c s t _ hts]
    exact h.agrees n t ht
  · intro t n hp
    rw [modify_session] at hp
    split at hp
    · cases hp
    · exact h.unnamed t n hp
  · intro t n hp
    rw [modify_session] at hp ⊢
    split at hp
    · rename_i heq
      rw [if_pos heq]
      exact Option.some.inj hp
    · rename_i hne
      rw [if_neg hne]
      exact h.carries t n hp

theorem IndexAgrees.index (h : IndexAgrees c) {s : SessionPtr} {nickname : String}
    (carried : (c.session s).phase.carried = some nickname) :
    IndexAgrees { c.modify s (.index nickname) with manager := c.manager.setOwner nickname s } := by
  have hq : IndexAgrees (c.modify s (.index nickname)) := h.quiet s (fun _ => rfl) (Or.inr rfl)
  have howner : ∀ n, (c.manager.setOwner nickname s).owner n =
      if n = nickname then some s else c.manager.owner n :=
    c.manager.owner_setOwner s nickname
  constructor
  · intro n t ht
    change (c.manager.setOwner nickname s).owner n = some t at ht
    rw [howner] at ht
    split at ht
    · rename_i heq
      obtain rfl := Option.some.inj ht
      rw [modify_view c s s (.index nickname) SessionControl.nickname fun _ => rfl]
      exact heq ▸ h.carries s nickname carried
    · exact hq.agrees n t ht
  · intro t n hp m hm
    change (c.manager.setOwner nickname s).owner m = some t at hm
    rw [howner] at hm
    split at hm
    · obtain rfl := Option.some.inj hm
      change ((c.modify s (.index nickname)).session s).phase = _ at hp
      rw [modify_session_self] at hp
      cases hp
    · exact hq.unnamed t n hp m hm
  · exact hq.carries

theorem IndexAgrees.step {env : Env} {op : Op} (h : IndexAgrees c) (known : Known c)
    (holds : HoldsNone c op) (step : Step env c op c') : IndexAgrees c' := by
  cases step with
  | accept sessionId => exact h.accept known sessionId
  | destroy s _ => exact ⟨h.agrees, h.unnamed, h.carries⟩
  | close s => exact h.close s
  | flag s => exact h.quiet s (fun _ => rfl) (Or.inl rfl)
  | goto s phase _ _ resting =>
    exact h.quiet s (fun _ => rfl) (Or.inr (Phase.pending_of_resting resting))
  | receive s packet _ => exact h.quiet s (fun _ => rfl) (Or.inr (Route.phase_pending env _))
  | lookup s nickname _ _ => exact h.lookup nickname holds
  | name s nickname at_ => exact h.name at_
  | ready s nickname at_ =>
    have hcarried : (c.session s).nickname = nickname := h.carries s nickname (by rw [at_]; rfl)
    exact h.modify s (fun _ => rfl) (fun n hp => by cases hp)
      fun n hp => hcarried.trans (Option.some.inj hp)
  | evict s nickname prev at_ _ _ =>
    have hcarried : (c.session s).nickname = nickname := h.carries s nickname (by rw [at_]; rfl)
    exact h.modify s (fun _ => rfl) (fun n hp => by cases hp)
      fun n hp => hcarried.trans (Option.some.inj hp)
  | index s nickname at_ =>
    exact h.index (Phase.carried_of_indexing at_)
  | ack s nickname _ => exact h.quiet s (fun _ => rfl) (Or.inr rfl)

end Invariant

/-- No session that already holds its nickname passes the lookup of another login. -/
def GrantsOnce (σ : World) (a : Act) : Prop :=
  ∀ g ∈ σ.grants a, σ.manager.owner (σ.session g.1).nickname ≠ some g.1

instance (σ : World) (a : Act) : Decidable (GrantsOnce σ a) := by
  unfold GrantsOnce
  infer_instance

theorem checks_grantsOnce (env : Env) {σ : World} {a : Act} (h : GrantsOnce σ a) :
    Checks env HoldsNone σ a where
  free c op hop := by cases op <;> trivial
  flag _ _ _ _ := trivial
  lookup s n hs := h (s, n) hs
  ready _ _ _ := trivial

theorem indexAgrees_init (shardCount : Nat) : IndexAgrees (World.init shardCount).control where
  agrees n t h := by simp [World.control, World.init, SessionManager.owner] at h
  unnamed t n h := by cases h
  carries t n h := by cases h

/-- The index and the sessions agree in every run in which no session that holds a nickname
is granted another one. -/
theorem nickname_index_agrees (env : Env) (shardCount : Nat) (acts : List Act) (σ : World)
    (once : Along (step env) GrantsOnce (World.init shardCount) acts)
    (run : exec (step env) (World.init shardCount) acts = some σ) (s : SessionPtr) :
    (∀ n, σ.manager.owner n = some s → (σ.session s).nickname = n) ∧
    ∀ n m, σ.manager.owner n = some s → σ.manager.owner m = some s → n = m := by
  have h : Known σ.control ∧ IndexAgrees σ.control :=
    simulation_invariant (I := fun c => Known c ∧ IndexAgrees c) World.control
      (fun _ _ _ hg hs => run_step (checks_grantsOnce env hg) hs)
      (fun _ _ hx hxy => hxy.elim fun _ hop => ⟨hx.1.step hop.2, hx.2.step hx.1 hop.1 hop.2⟩)
      ⟨known_init shardCount, indexAgrees_init shardCount⟩ once run
  constructor
  · intro n hn
    exact h.2.agrees n s hn
  · intro n m hn hm
    exact (h.2.agrees n s hn).symm.trans (h.2.agrees m s hm)

/-- One client that logs in. -/
theorem nickname_index_agrees_login :
    ∃ σ, exec (step (Env.ofTable [115] [loginText "kim"])) (World.init 4)
        (connects 0 ++ sends 0 [[115] ++ (loginText "kim").1] 8) = some σ ∧
      (∀ n, σ.manager.owner n = some 0 → (σ.session 0).nickname = n) ∧
      ∀ n m, σ.manager.owner n = some 0 → σ.manager.owner m = some 0 → n = m := by
  obtain ⟨σ, run⟩ := Option.isSome_iff_exists.mp
    (show (exec (step (Env.ofTable [115] [loginText "kim"])) (World.init 4)
      (connects 0 ++ sends 0 [[115] ++ (loginText "kim").1] 8)).isSome by decide +kernel)
  exact ⟨σ, run, nickname_index_agrees _ 4 _ σ (by decide +kernel) run 0⟩

/-- A client that logs in twice keeps two nicknames. -/
theorem second_login_keeps_first_nickname :
    (exec (step (Env.ofTable [115] [loginText "kim", loginText "lee"])) (World.init 4)
      (connects 0 ++ sends 0 [[115] ++ (loginText "kim").1, [115] ++ (loginText "lee").1] 14)).map
      (fun σ => (σ.live 0, (σ.session 0).nickname, σ.manager.owner "kim", σ.manager.owner "lee")) =
      some (true, "lee", some 0, some 0) := by
  decide +kernel

end DBMiddleWare
