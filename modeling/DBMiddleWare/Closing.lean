import DBMiddleWare.Simulation

/-!
# Closing

The flag, the state, the socket and the registry entry of a session go together in
`close_session`. Two other places touch one of them alone: the overflow limit of
the write queue sets the flag, and `on_nickname_registered` sets the state.
-/

namespace DBMiddleWare

open Execution Control
set_option autoImplicit false

/-- What closing is about. -/
def SessionControl.closing (o : SessionControl) : Int32 × Bool × SessionState × Bool × Nat :=
  (o.sessionId, o.closed, o.state, o.socketOpen, o.closeCalls)

structure ClosedTogether (c : Control) : Prop where
  identified : ∀ id t, c.manager.findSession id = some t → t < c.nextPtr ∧ (c.session t).sessionId = id
  together : ∀ t, (c.session t).closed = true →
    (c.session t).state = .closed ∧ (c.session t).socketOpen = false ∧
      ∀ id, c.manager.findSession id ≠ some t
  called : ∀ t, 0 < (c.session t).closeCalls → (c.session t).closed = true

/-- The flag is only set on a session that is closed, and only an open session is
made ready. -/
def KeepsTogether (c : Control) : Op → Prop
  | .flag s => (c.session s).closed = true
  | .ready s _ => (c.session s).closed = false
  | _ => True

section Invariant
variable {c c' : Control}

theorem ClosedTogether.of_same (h : ClosedTogether c)
    (session : ∀ t, (c'.session t).closing = (c.session t).closing)
    (find : ∀ id, c'.manager.findSession id = c.manager.findSession id)
    (next : c'.nextPtr = c.nextPtr) : ClosedTogether c' := by
  simp only [SessionControl.closing, Prod.mk.injEq] at session
  constructor
  · intro id t ht
    obtain ⟨hlt, hid⟩ := h.identified id t (find id ▸ ht)
    exact ⟨next ▸ hlt, (session t).1.trans hid⟩
  · intro t ht
    obtain ⟨_, hclosed, hstate, hsocket, _⟩ := session t
    obtain ⟨h1, h2, h3⟩ := h.together t (hclosed ▸ ht)
    exact ⟨hstate.trans h1, hsocket.trans h2, fun id => find id ▸ h3 id⟩
  · intro t ht
    obtain ⟨_, hclosed, _, _, hcalls⟩ := session t
    exact hclosed.trans (h.called t (hcalls ▸ ht))

theorem ClosedTogether.modify (h : ClosedTogether c) (s : SessionPtr)
    {f : SessionControl → SessionControl} (hf : ∀ o, (f o).closing = o.closing) :
    ClosedTogether (c.modify s f) :=
  h.of_same (fun t => modify_view c s t f _ hf) (fun _ => rfl) rfl

theorem ClosedTogether.accept (h : ClosedTogether c) (sessionId : Int32) :
    ClosedTogether (c.accept sessionId) := by
  have hnew := accept_session_new c sessionId
  have hother : ∀ t, t ≠ c.nextPtr → (c.accept sessionId).session t = c.session t :=
    fun t => accept_session_of_ne c t sessionId
  have hfind := accept_findSession c sessionId
  have hregistered : ∀ id t, t ≠ c.nextPtr →
      (c.accept sessionId).manager.findSession id = some t → c.manager.findSession id = some t := by
    intro id t ht hid
    rw [hfind] at hid
    split at hid
    · exact absurd (Option.some.inj hid).symm ht
    · exact hid
  constructor
  · intro id t hid
    by_cases ht : t = c.nextPtr
    · subst ht
      rw [hfind] at hid
      split at hid
      · rename_i heq
        rw [hnew]
        exact ⟨Nat.lt_succ_self _, heq.symm⟩
      · exact absurd (h.identified id _ hid).1 (Nat.lt_irrefl _)
    · obtain ⟨hlt, hsession⟩ := h.identified id t (hregistered id t ht hid)
      rw [hother t ht]
      exact ⟨Nat.lt_succ_of_lt hlt, hsession⟩
  · intro t hclosed
    by_cases ht : t = c.nextPtr
    · subst ht
      simp [hnew] at hclosed
    · rw [hother t ht] at hclosed ⊢
      obtain ⟨hstate, hsocket, hnone⟩ := h.together t hclosed
      exact ⟨hstate, hsocket, fun id hid => hnone id (hregistered id t ht hid)⟩
  · apply accept_forall (P := fun _ o => 0 < o.closeCalls → o.closed = true)
    · exact fun t _ => h.called t
    · exact fun hcalls => absurd hcalls (Nat.lt_irrefl 0)

theorem ClosedTogether.close (h : ClosedTogether c) (s : SessionPtr) : ClosedTogether (c.close s) := by
  constructor
  · intro id t hid
    obtain ⟨hlt, hsession⟩ := h.identified id t (close_findSession c s t hid).1
    rw [close_nextPtr, close_view c s t SessionControl.sessionId SessionControl.shut_sessionId]
    exact ⟨hlt, hsession⟩
  · intro t hclosed
    by_cases ht : t = s
    · subst ht
      rw [close_session_self]
      rcases (c.session t).shut_cases with ⟨hbefore, hshut⟩ | ⟨hbefore, hshut⟩
      · obtain ⟨hstate, hsocket, hnone⟩ := h.together t hbefore
        rw [hshut]
        exact ⟨hstate, hsocket, fun id hid => hnone id (close_findSession c t t hid).1⟩
      · rw [hshut]
        refine ⟨rfl, rfl, fun id hid => ?_⟩
        obtain ⟨hregistered, hother⟩ := close_findSession c t t hid
        exact hother hbefore (h.identified id t hregistered).2.symm
    · rw [close_session_of_ne c s t ht] at hclosed ⊢
      obtain ⟨hstate, hsocket, hnone⟩ := h.together t hclosed
      exact ⟨hstate, hsocket, fun id hid => hnone id (close_findSession c s t hid).1⟩
  · intro t hcalls
    by_cases ht : t = s
    · subst ht
      rw [close_session_self]
      exact SessionControl.shut_closed _
    · rw [close_session_of_ne c s t ht] at hcalls ⊢
      exact h.called t hcalls

theorem ClosedTogether.ready (h : ClosedTogether c) {s : SessionPtr}
    (opened : (c.session s).closed = false)
    (nickname : String) : ClosedTogether (c.modify s (.ready nickname)) := by
  constructor
  · intro id t hid
    rw [modify_view c s t (.ready nickname) SessionControl.sessionId fun _ => rfl]
    exact h.identified id t hid
  · intro t hclosed
    rw [modify_view c s t (.ready nickname) SessionControl.closed fun _ => rfl] at hclosed
    have ht : t ≠ s := by
      rintro rfl
      simp [opened] at hclosed
    rw [modify_session_of_ne c s t _ ht]
    exact h.together t hclosed
  · intro t hcalls
    rw [modify_view c s t (.ready nickname) SessionControl.closeCalls fun _ => rfl] at hcalls
    rw [modify_view c s t (.ready nickname) SessionControl.closed fun _ => rfl]
    exact h.called t hcalls

theorem ClosedTogether.step {env : Env} {op : Op} (h : ClosedTogether c) (keeps : KeepsTogether c op)
    (step : Step env c op c') : ClosedTogether c' := by
  cases step with
  | accept sessionId => exact h.accept sessionId
  | destroy s _ => exact h.of_same (fun _ => rfl) (fun _ => rfl) rfl
  | close s => exact h.close s
  | flag s =>
    rw [modify_eq_self c s .flag (by rw [SessionControl.flag, ← show _ = true from keeps])]
    exact h
  | goto s phase _ _ _ => exact h.modify s fun _ => rfl
  | receive s packet _ => exact h.modify s fun _ => rfl
  | lookup s nickname _ _ => exact h.modify s fun _ => rfl
  | name s nickname _ => exact h.modify s fun _ => rfl
  | ready s nickname _ => exact h.ready keeps nickname
  | evict s nickname prev _ _ _ => exact h.modify s fun _ => rfl
  | index s nickname _ =>
    exact (h.modify s (f := .index nickname) fun _ => rfl).of_same (fun _ => rfl) (fun _ => rfl) rfl
  | ack s nickname _ => exact h.modify s fun _ => rfl

end Invariant

/-- A step that closes sessions only as a whole: it posts nothing at the overflow limit to
an open session, and it makes no closed session ready. -/
def ClosesWhole (env : Env) (σ : World) (a : Act) : Prop :=
  (∀ s ∈ σ.posts a, WriteQueue.AtLimit env.config (σ.session s) → (σ.session s).closed = true) ∧
  ∀ s ∈ σ.registers a, (σ.session s).closed = false

instance (env : Env) (σ : World) (a : Act) : Decidable (ClosesWhole env σ a) := by
  unfold ClosesWhole
  infer_instance

theorem checks_closesWhole {env : Env} {σ : World} {a : Act} (h : ClosesWhole env σ a) :
    Checks env KeepsTogether σ a where
  free c op hop := by cases op <;> trivial
  flag s hs hopen hlimit := by
    have hclosed := h.1 s hs hlimit
    simp [hopen] at hclosed
  lookup _ _ _ := trivial
  ready s _ hs := h.2 s hs

theorem init_find (shardCount : Nat) (id : Int32) :
    (World.init shardCount).manager.findSession id = none := rfl

theorem closedTogether_init (shardCount : Nat) : ClosedTogether (World.init shardCount).control where
  identified id t h := by simp [World.control, init_find] at h
  together t h := by simp [World.control, World.init, Session.new] at h
  called t h := by simp [World.control, World.init, Session.new] at h

/-- Closing is all or nothing, in every run whose steps close sessions only as a whole. -/
theorem closing_all_or_nothing (env : Env) (shardCount : Nat) (acts : List Act) (σ : World)
    (whole : Along (step env) (ClosesWhole env) (World.init shardCount) acts)
    (run : exec (step env) (World.init shardCount) acts = some σ) (s : SessionPtr) :
    ((σ.session s).closed = true →
      (σ.session s).state = .closed ∧ (σ.session s).socketOpen = false ∧
        σ.manager.findSession (σ.session s).sessionId ≠ some s) ∧
    (0 < (σ.session s).closeCalls → ∀ id, σ.manager.findSession id ≠ some s) := by
  have h : ClosedTogether σ.control := simulation_invariant World.control
    (fun _ _ _ hg hs => run_step (checks_closesWhole hg) hs)
    (fun _ _ hx hxy => hxy.elim fun _ hop => hx.step hop.1 hop.2) (closedTogether_init shardCount)
    whole run
  constructor
  · intro hclosed
    obtain ⟨hstate, hsocket, hnone⟩ := h.together s hclosed
    exact ⟨hstate, hsocket, hnone _⟩
  · intro hcalls
    exact (h.together s (h.called s hcalls)).2.2

/-- A client that connects and disconnects. -/
theorem closing_all_or_nothing_disconnect :
    ∃ σ, exec (step (Env.ofTable [] [])) (World.init 4)
        [.accept 0, .on 0 .start, .on 0 .strand, .on 0 (.readError false)] = some σ ∧
      ((σ.session 0).closed = true →
        (σ.session 0).state = .closed ∧ (σ.session 0).socketOpen = false ∧
          σ.manager.findSession (σ.session 0).sessionId ≠ some 0) ∧
      (0 < (σ.session 0).closeCalls → ∀ id, σ.manager.findSession id ≠ some 0) := by
  obtain ⟨σ, run⟩ := Option.isSome_iff_exists.mp
    (show (exec (step (Env.ofTable [] [])) (World.init 4)
      [.accept 0, .on 0 .start, .on 0 .strand, .on 0 (.readError false)]).isSome by decide +kernel)
  exact ⟨σ, run, closing_all_or_nothing _ 4 _ σ (by decide +kernel) run 0⟩

/-- A peer that does not read and then resets the connection, with the shipped settings: the
session is flagged closed by the 110th post, and the reset neither closes nor removes it. -/
theorem overflow_closes_halfway :
    (exec (step (Env.ofTable [] [])) (World.init 4)
      ([.accept 0, .on 0 .start, .on 0 .strand] ++
        (List.replicate 110 [.on 0 (.postWrite [65]), .on 0 .strand]).flatten ++
        [.on 0 (.readError false)])).map
      (fun σ => ((σ.session 0).closed, (σ.session 0).state, (σ.session 0).socketOpen,
        (σ.session 0).closeCalls, σ.manager.findSession 0)) =
      some (true, .handshaking, true, 1, some 0) := by
  decide +kernel

end DBMiddleWare
