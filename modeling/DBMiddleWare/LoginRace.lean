import DBMiddleWare.Simulation

/-!
# Two logins for one nickname

The duplicate check of the login handler and its registration are separate critical
sections. As long as no login passes the check while another session is on its way
from check to registration with the same nickname, a nickname has one open session.
-/

namespace DBMiddleWare

open Execution Control
set_option autoImplicit false

/-- What a session keeps about its own logins, whatever the others do. -/
structure LoginRecord (o : SessionControl) : Prop where
  carries : ∀ n, o.phase.carried = some n → o.nickname = n
  settled : o.nicknameRegistered = true → o.phase.carried = none → o.nickname ∈ o.registrations
  acking : ∀ n, o.phase = .loginAck n → n ∈ o.registrations
  acked : ∀ n ∈ o.acked, n ∈ o.registrations

structure Exclusive (c : Control) : Prop where
  unique : ∀ s t n, (c.session s).phase.pending = some n → (c.session t).phase.pending = some n → s = t
  free : ∀ s n, (c.session s).phase.pending = some n → c.find n = none
  evictsNone : ∀ s n prev, (c.session s).phase ≠ .loginEvict n prev
  holds : ∀ s n, c.live s = true → n ∈ (c.session s).registrations → c.manager.owner n = some s

/-- A login passes its lookup only when no other session is between its lookup and its
registration for the same nickname. -/
def Apart (c : Control) : Op → Prop
  | .lookup s n => ∀ t, t < c.nextPtr → t ≠ s → (c.session t).phase.pending ≠ some n
  | _ => True

section Record
variable {o : SessionControl}

theorem LoginRecord.shut (h : LoginRecord o) : LoginRecord o.shut := by
  rcases o.shut_cases with ⟨_, he⟩ | ⟨_, he⟩
  · rw [he]
    exact ⟨h.carries, h.settled, h.acking, h.acked⟩
  · rw [he]
    exact ⟨h.carries, h.settled, h.acking, h.acked⟩

theorem LoginRecord.goto (h : LoginRecord o) {phase : Phase} (outside : o.phase.carried = none)
    (carries : phase.carried = none) (acks : ∀ n, phase ≠ .loginAck n) : LoginRecord (o.goto phase) := by
  constructor
  · intro n hp
    rw [SessionControl.goto, carries] at hp
    cases hp
  · intro hr _
    exact h.settled hr outside
  · intro n hp
    exact absurd hp (acks n)
  · exact h.acked

theorem Phase.not_ack_of_resting {p : Phase} (h : p.resting = true) (n : String) : p ≠ .loginAck n := by
  rintro rfl
  cases h

theorem Route.phase_not_ack (env : Env) (r : Route) (n : String) : r.phase env ≠ .loginAck n := by
  unfold Route.phase
  split
  · simp
  · simp
  · simp
  · split
    · simp
    · split <;> simp
  · split <;> simp

theorem LoginRecord.receive (h : LoginRecord o) (env : Env) (packet : Bytes)
    (drain : o.phase = .drain) : LoginRecord (o.receive env packet) := by
  constructor
  · intro n hp
    rw [SessionControl.receive, Phase.carried_of_pending (Route.phase_pending env _)] at hp
    cases hp
  · intro hr _
    exact h.settled hr (by rw [drain]; rfl)
  · intro n hp
    exact absurd hp (Route.phase_not_ack env _ n)
  · exact h.acked

theorem LoginRecord.name (h : LoginRecord o) (nickname : String) : LoginRecord (o.name nickname) := by
  constructor
  · intro n hp
    exact Option.some.inj hp
  · intro _ hp
    cases hp
  · intro n hp
    cases hp
  · exact h.acked

theorem LoginRecord.carry (h : LoginRecord o) {nickname : String} {phase : Phase}
    (before : o.phase.carried = some nickname) (after : phase.carried = some nickname)
    (registered : Bool) (state : SessionState) :
    LoginRecord { o with nicknameRegistered := registered, state := state, phase := phase } := by
  constructor
  · intro n hp
    rw [after] at hp
    exact (h.carries nickname before).trans (Option.some.inj hp)
  · intro _ hp
    rw [after] at hp
    cases hp
  · intro n hp
    subst hp
    cases after
  · exact h.acked

theorem LoginRecord.index (h : LoginRecord o) {nickname : String}
    (carried : o.phase.carried = some nickname) : LoginRecord (o.index nickname) := by
  have hnickname : o.nickname = nickname := h.carries nickname carried
  constructor
  · intro n hp
    cases hp
  · intro _ _
    rw [SessionControl.index, hnickname]
    simp
  · intro n hp
    obtain rfl : nickname = n := by injection hp
    simp [SessionControl.index]
  · intro n hn
    exact List.mem_append_left _ (h.acked n hn)

theorem LoginRecord.ack (h : LoginRecord o) {nickname : String} (at_ : o.phase = .loginAck nickname) :
    LoginRecord (o.ack nickname) := by
  constructor
  · intro n hp
    cases hp
  · intro hr _
    exact h.settled hr (by rw [at_]; rfl)
  · intro n hp
    cases hp
  · intro n hn
    rcases List.mem_append.mp hn with hn | hn
    · exact h.acked n hn
    · rw [List.mem_singleton.mp hn]
      exact h.acking nickname at_

theorem LoginRecord.new (sessionId : Int32) : LoginRecord { sessionId := sessionId } where
  carries n h := by cases h
  settled h := by cases h
  acking n h := by cases h
  acked n h := by simp at h

end Record

section Invariant
variable {c c' : Control}

theorem loginRecord_modify (h : ∀ t, LoginRecord (c.session t)) {s : SessionPtr}
    {f : SessionControl → SessionControl} (hf : LoginRecord (f (c.session s))) (t : SessionPtr) :
    LoginRecord ((c.modify s f).session t) :=
  modify_forall (P := fun _ o => LoginRecord o) h hf t

theorem loginRecord_step {env : Env} {op : Op} (h : ∀ t, LoginRecord (c.session t))
    (step : Step env c op c') (t : SessionPtr) : LoginRecord (c'.session t) := by
  cases step with
  | accept sessionId =>
    exact accept_forall (P := fun _ o => LoginRecord o) (fun t _ => h t) (.new sessionId) t
  | destroy s _ => exact h t
  | close s =>
    rw [close_session]
    exact loginRecord_modify h (h s).shut t
  | flag s =>
    have hs := h s
    exact loginRecord_modify (f := .flag) h ⟨hs.carries, hs.settled, hs.acking, hs.acked⟩ t
  | goto s phase _ outside resting =>
    exact loginRecord_modify h ((h s).goto (Phase.carried_of_pending outside)
      (Phase.carried_of_pending (Phase.pending_of_resting resting)) (Phase.not_ack_of_resting resting)) t
  | receive s packet at_ => exact loginRecord_modify h ((h s).receive env packet at_) t
  | lookup s nickname at_ _ =>
    exact loginRecord_modify h ((h s).goto (by rw [at_]; rfl) rfl (by simp)) t
  | name s nickname _ => exact loginRecord_modify h ((h s).name nickname) t
  | ready s nickname at_ =>
    exact loginRecord_modify (f := .ready nickname) h ((h s).carry (by rw [at_]; rfl) rfl true .ready) t
  | evict s nickname prev at_ _ _ =>
    exact loginRecord_modify (f := .goto (.loginEvict nickname prev)) h
      ((h s).carry (by rw [at_]; rfl) rfl _ _) t
  | index s nickname at_ =>
    exact loginRecord_modify (f := .index nickname) h ((h s).index (Phase.carried_of_indexing at_)) t
  | ack s nickname at_ => exact loginRecord_modify h ((h s).ack at_) t

theorem find_eq_none {n : String} :
    c.find n = none ↔ ∀ t, c.manager.owner n = some t → c.live t = false := by
  unfold Control.find
  cases c.manager.owner n with
  | none => simp
  | some t => simp [Option.filter_some]

theorem find_eq_some {n : String} {t : SessionPtr} (owner : c.manager.owner n = some t)
    (alive : c.live t = true) : c.find n = some t := by
  simp [Control.find, owner, Option.filter_some, alive]

/-- What a step keeps when it brings no session on its way to a registration. -/
theorem Exclusive.of_pending (h : Exclusive c)
    (pending : ∀ t n, (c'.session t).phase.pending = some n → (c.session t).phase.pending = some n)
    (find : ∀ n, c.find n = none → c'.find n = none)
    (evictsNone : ∀ t n prev, (c'.session t).phase ≠ .loginEvict n prev)
    (holds : ∀ t n, c'.live t = true → n ∈ (c'.session t).registrations →
      c'.manager.owner n = some t) : Exclusive c' where
  unique s t n hs ht := h.unique s t n (pending s n hs) (pending t n ht)
  free s n hs := find n (h.free s n (pending s n hs))
  evictsNone := evictsNone
  holds := holds

theorem Exclusive.modify (h : Exclusive c) (s : SessionPtr) {f : SessionControl → SessionControl}
    (registrations : ∀ o, (f o).registrations = o.registrations)
    (pending : ∀ n, (f (c.session s)).phase.pending = some n → (c.session s).phase.pending = some n)
    (evictsNone : ∀ n prev, (f (c.session s)).phase ≠ .loginEvict n prev) :
    Exclusive (c.modify s f) := by
  apply h.of_pending
  · exact modify_forall (P := fun t o => ∀ n, o.phase.pending = some n →
      (c.session t).phase.pending = some n)
      (fun _ _ hp => hp) pending
  · exact fun _ hn => hn
  · exact modify_forall (P := fun _ o => ∀ n prev, o.phase ≠ .loginEvict n prev) h.evictsNone evictsNone
  · intro t n alive hn
    rw [modify_view c s t f SessionControl.registrations registrations] at hn
    exact h.holds t n alive hn

theorem Exclusive.leave (h : Exclusive c) (s : SessionPtr) {f : SessionControl → SessionControl}
    (registrations : ∀ o, (f o).registrations = o.registrations)
    (outside : (f (c.session s)).phase.pending = none) : Exclusive (c.modify s f) := by
  apply h.modify s registrations
  · intro n hp
    rw [outside] at hp
    cases hp
  · intro n prev hp
    rw [hp] at outside
    cases outside

theorem Exclusive.close (h : Exclusive c) (s : SessionPtr) : Exclusive (c.close s) := by
  have hphase : ∀ t, ((c.close s).session t).phase = (c.session t).phase :=
    fun t => close_view c s t SessionControl.phase SessionControl.shut_phase
  apply h.of_pending
  · intro t n hp
    rwa [hphase] at hp
  · intro n hn
    rw [find_eq_none] at hn ⊢
    simpa using hn
  · intro t n prev
    rw [hphase]
    exact h.evictsNone t n prev
  · intro t n alive hn
    rw [close_live] at alive
    rw [close_view c s t SessionControl.registrations SessionControl.shut_registrations] at hn
    rw [close_owner]
    exact h.holds t n alive hn

theorem Exclusive.accept (h : Exclusive c) (known : Known c) (sessionId : Int32) :
    Exclusive (c.accept sessionId) := by
  have hlive : ∀ t, t ≠ c.nextPtr → (c.accept sessionId).live t = c.live t :=
    fun t => accept_live_of_ne c t sessionId
  apply h.of_pending
  · apply accept_forall (P := fun t o => ∀ n, o.phase.pending = some n →
      (c.session t).phase.pending = some n)
    · exact fun _ _ _ hp => hp
    · exact fun n hp => by cases hp
  · intro n hn
    rw [find_eq_none] at hn ⊢
    intro t ht
    rw [hlive t (Nat.ne_of_lt (known.owner n t ht))]
    exact hn t ht
  · apply accept_forall (P := fun _ o => ∀ n prev, o.phase ≠ .loginEvict n prev)
    · exact fun t _ => h.evictsNone t
    · exact fun n prev hp => by cases hp
  · apply accept_forall (P := fun t o => ∀ n, (c.accept sessionId).live t = true → n ∈ o.registrations →
      c.manager.owner n = some t)
    · exact fun t ht n alive hn => h.holds t n (hlive t ht ▸ alive) hn
    · exact fun n _ hn => by cases hn

theorem Exclusive.destroy (h : Exclusive c) (s : SessionPtr) :
    Exclusive { c with live := Function.update c.live s false } := by
  have hlive : ∀ t, Function.update c.live s false t = true → c.live t = true := by
    intro t ht
    by_cases hts : t = s
    · simp [hts] at ht
    · rwa [Function.update_of_ne hts] at ht
  apply h.of_pending
  · exact fun _ _ hp => hp
  · intro n hn
    rw [find_eq_none] at hn ⊢
    intro t ht
    refine Bool.eq_false_iff.mpr fun alive => ?_
    have hbefore := hlive t alive
    rw [hn t ht] at hbefore
    cases hbefore
  · exact h.evictsNone
  · exact fun t n alive hn => h.holds t n (hlive t alive) hn

theorem Exclusive.lookup (h : Exclusive c) (known : Known c) {s : SessionPtr} {nickname : String}
    (apart : ∀ t, t < c.nextPtr → t ≠ s → (c.session t).phase.pending ≠ some nickname)
    (free : c.find nickname = none) : Exclusive (c.modify s (.goto (.loginSet nickname))) := by
  have hself : ((c.modify s (.goto (.loginSet nickname))).session s).phase.pending = some nickname := by
    rw [modify_session_self]
    rfl
  have hother : ∀ t, t ≠ s → (c.modify s (.goto (.loginSet nickname))).session t = c.session t :=
    fun t ht => modify_session_of_ne c s t _ ht
  have hapart : ∀ t, t ≠ s → (c.session t).phase.pending ≠ some nickname := by
    intro t ht hp
    refine apart t (known.begun t fun hstart => ?_) ht hp
    rw [hstart] at hp
    cases hp
  constructor
  · intro t u n ht hu
    by_cases hts : t = s
    · by_cases hus : u = s
      · rw [hts, hus]
      · rw [hts, hself] at ht
        rw [hother u hus, ← ht] at hu
        exact absurd hu (hapart u hus)
    · by_cases hus : u = s
      · rw [hus, hself] at hu
        rw [hother t hts, ← hu] at ht
        exact absurd ht (hapart t hts)
      · rw [hother t hts] at ht
        rw [hother u hus] at hu
        exact h.unique t u n ht hu
  · intro t n ht
    by_cases hts : t = s
    · rw [hts, hself] at ht
      exact Option.some.inj ht ▸ free
    · rw [hother t hts] at ht
      exact h.free t n ht
  · intro t n prev hp
    by_cases hts : t = s
    · rw [hts, modify_session_self] at hp
      cases hp
    · rw [hother t hts] at hp
      exact h.evictsNone t n prev hp
  · intro t n alive hn
    rw [modify_view c s t (.goto (.loginSet nickname)) SessionControl.registrations fun _ => rfl] at hn
    exact h.holds t n alive hn

theorem Exclusive.index (h : Exclusive c) {s : SessionPtr} {nickname : String}
    (pending : (c.session s).phase.pending = some nickname) :
    Exclusive { c.modify s (.index nickname) with manager := c.manager.setOwner nickname s } := by
  have hfree := find_eq_none.mp (h.free s nickname pending)
  have howner : ∀ n, (c.manager.setOwner nickname s).owner n =
      if n = nickname then some s else c.manager.owner n := c.manager.owner_setOwner s nickname
  have hsession : ∀ t, t ≠ s → (c.modify s (.index nickname)).session t = c.session t :=
    fun t ht => modify_session_of_ne c s t _ ht
  have hpending : ∀ t n, ((c.modify s (.index nickname)).session t).phase.pending = some n →
      t ≠ s ∧ (c.session t).phase.pending = some n := by
    intro t n hp
    by_cases hts : t = s
    · rw [hts, modify_session_self] at hp
      cases hp
    · exact ⟨hts, hsession t hts ▸ hp⟩
  constructor
  · intro t u n ht hu
    exact h.unique t u n (hpending t n ht).2 (hpending u n hu).2
  · intro t n ht
    obtain ⟨hts, hp⟩ := hpending t n ht
    have hn : n ≠ nickname := fun heq => hts (h.unique t s n hp (heq ▸ pending))
    rw [find_eq_none]
    intro u hu
    change (c.manager.setOwner nickname s).owner n = some u at hu
    rw [howner, if_neg hn] at hu
    exact find_eq_none.mp (h.free t n hp) u hu
  · intro t n prev hp
    change ((c.modify s (.index nickname)).session t).phase = _ at hp
    by_cases hts : t = s
    · rw [hts, modify_session_self] at hp
      cases hp
    · rw [hsession t hts] at hp
      exact h.evictsNone t n prev hp
  · intro t n alive hn
    change c.live t = true at alive
    change n ∈ ((c.modify s (.index nickname)).session t).registrations at hn
    change (c.manager.setOwner nickname s).owner n = some t
    rw [howner]
    by_cases hts : t = s
    · rw [hts, modify_session_self] at hn
      rw [hts]
      split
      · rfl
      · rename_i hne
        rcases List.mem_append.mp hn with hn | hn
        · exact h.holds s n (hts ▸ alive) hn
        · exact absurd (List.mem_singleton.mp hn) hne
    · rw [hsession t hts] at hn
      have hholds := h.holds t n alive hn
      split
      · rename_i heq
        have hdead := hfree t (heq ▸ hholds)
        rw [alive] at hdead
        cases hdead
      · exact hholds

theorem Exclusive.step {env : Env} {op : Op} (h : Exclusive c) (known : Known c) (apart : Apart c op)
    (step : Step env c op c') : Exclusive c' := by
  cases step with
  | accept sessionId => exact h.accept known sessionId
  | destroy s _ => exact h.destroy s
  | close s => exact h.close s
  | flag s => exact h.modify s (fun _ => rfl) (fun _ hp => hp) fun n prev => h.evictsNone s n prev
  | goto s phase _ _ resting => exact h.leave s (fun _ => rfl) (Phase.pending_of_resting resting)
  | receive s packet _ => exact h.leave s (fun _ => rfl) (Route.phase_pending env _)
  | lookup s nickname _ free => exact h.lookup known apart free
  | name s nickname at_ =>
    exact h.modify s (fun _ => rfl) (fun n hp => by rw [at_]; exact hp) fun n prev hp => by cases hp
  | ready s nickname at_ =>
    exact h.modify s (fun _ => rfl) (fun n hp => by rw [at_]; exact hp) fun n prev hp => by cases hp
  | evict s nickname prev at_ found _ =>
    have hfree := h.free s nickname (by rw [at_]; rfl)
    rw [found] at hfree
    cases hfree
  | index s nickname at_ =>
    exact h.index (Phase.pending_of_carried (Phase.carried_of_indexing at_))
  | ack s nickname _ => exact h.leave s (fun _ => rfl) rfl

end Invariant

def Phase.login : Phase → Option String
  | .loginLookup nickname => some nickname
  | .loginAck nickname => some nickname
  | p => p.pending

/-- No login passes its lookup while another session is between its lookup and its
registration for the same nickname. -/
def LoginsApart (σ : World) (a : Act) : Prop :=
  ∀ g ∈ σ.grants a, ∀ t, t < σ.nextPtr → t ≠ g.1 → (σ.session t).phase.pending ≠ some g.2

instance (σ : World) (a : Act) : Decidable (LoginsApart σ a) := by
  unfold LoginsApart
  infer_instance

theorem checks_loginsApart (env : Env) {σ : World} {a : Act} (h : LoginsApart σ a) :
    Checks env Apart σ a where
  free c op hop := by cases op <;> trivial
  flag _ _ _ _ := trivial
  lookup s n hs := h (s, n) hs
  ready _ _ _ := trivial

theorem exclusive_init (shardCount : Nat) : Exclusive (World.init shardCount).control where
  unique s t n h := by cases h
  free s n h := by cases h
  evictsNone s n prev h := by cases h
  holds s n h := by cases h

structure RaceFree (c : Control) : Prop where
  known : Known c
  exclusive : Exclusive c
  record : ∀ t, LoginRecord (c.session t)

theorem raceFree_of_run {env : Env} {shardCount : Nat} {acts : List Act} {σ : World}
    (apart : Along (step env) LoginsApart (World.init shardCount) acts)
    (run : exec (step env) (World.init shardCount) acts = some σ) : RaceFree σ.control := by
  refine simulation_invariant (I := RaceFree) World.control
    (fun _ _ _ hg hs => run_step (checks_loginsApart env hg) hs) ?_
    ⟨known_init shardCount, exclusive_init shardCount, fun _ => .new _⟩ apart run
  rintro c c' h ⟨op, happ, hop⟩
  exact ⟨h.known.step hop, h.exclusive.step h.known happ hop, loginRecord_step h.record hop⟩

/-- A settled session owns its nickname; one that is still registering finds it free. -/
theorem RaceFree.nickname_unique {c : Control} (h : RaceFree c) {s t : SessionPtr}
    (alives : c.live s = true) (alivet : c.live t = true)
    (registereds : (c.session s).nicknameRegistered = true)
    (registeredt : (c.session t).nicknameRegistered = true)
    (same : (c.session s).nickname = (c.session t).nickname) : s = t := by
  have howner : ∀ u, c.live u = true → (c.session u).nicknameRegistered = true →
      (c.session u).phase.carried = none → c.find (c.session u).nickname = some u := by
    intro u alive registered hp
    exact find_eq_some (h.exclusive.holds u _ alive ((h.record u).settled registered hp)) alive
  cases hs : (c.session s).phase.carried with
  | none =>
    have hfinds := howner s alives registereds hs
    cases ht : (c.session t).phase.carried with
    | none =>
      have hfindt := howner t alivet registeredt ht
      rw [same, hfindt] at hfinds
      exact (Option.some.inj hfinds).symm
    | some n =>
      have hfree := h.exclusive.free t n (Phase.pending_of_carried ht)
      rw [same, (h.record t).carries n ht, hfree] at hfinds
      cases hfinds
  | some n =>
    have hn := (h.record s).carries n hs
    cases ht : (c.session t).phase.carried with
    | none =>
      have hfindt := howner t alivet registeredt ht
      have hfree := h.exclusive.free s n (Phase.pending_of_carried hs)
      rw [← same, hn, hfree] at hfindt
      cases hfindt
    | some m =>
      have hm := (h.record t).carries m ht
      rw [hn, hm] at same
      subst same
      exact h.exclusive.unique s t n (Phase.pending_of_carried hs) (Phase.pending_of_carried ht)

theorem RaceFree.login_touches_itself {env : Env} {σ σ' : World} (h : RaceFree σ.control)
    {s t : SessionPtr} (other : s ≠ t) (login : (σ.session t).phase.login ≠ none)
    (hstep : step env σ (.on t .advance) = some σ') : σ'.session s = σ.session s := by
  have hmodify : ∀ (τ : World) f, (τ.modify t f).session s = τ.session s := by
    intro τ f
    rw [World.modify_session, if_neg other]
  cases advance_step_cases hstep with
  | lookup nickname _ =>
    unfold World.lookupStep
    split
    · exact hmodify σ _
    · exact hmodify σ _
  | name nickname _ => exact (hmodify _ _).trans (hmodify σ _)
  | ready nickname _ => exact (hmodify _ _).trans (hmodify σ _)
  | register nickname at_ =>
    have hfree : σ.findSessionByNickname nickname = none :=
      (control_find σ nickname).symm.trans (h.exclusive.free t nickname (congrArg Phase.pending at_))
    have hindex : (σ.indexNickname t nickname).session s = σ.session s := by
      rw [World.indexNickname_session]
      exact hmodify σ _
    rw [World.registerStep, World.previousOwner, hfree]
    exact (hmodify _ _).trans hindex
  | evict nickname prev at_ => exact absurd at_ (h.exclusive.evictsNone t nickname prev)
  | ack nickname _ => exact ((hmodify _ _).trans (hmodify _ _)).trans (hmodify σ _)
  | drain at_ => exact absurd (congrArg Phase.login at_) login
  | reply text at_ => exact absurd (congrArg Phase.login at_) login
  | next at_ => exact absurd (congrArg Phase.login at_) login

theorem RaceFree.acked_refuses {env : Env} {σ σ' : World} (h : RaceFree σ.control)
    {s t : SessionPtr} {n : String} (alive : σ.live s = true) (acked : n ∈ (σ.session s).acked)
    (lookup : (σ.session t).phase = .loginLookup n)
    (hstep : step env σ (.on t .advance) = some σ') :
    (σ'.session t).phase = .reply nicknameInUse := by
  have hregistered : n ∈ (σ.session s).registrations := (h.record s).acked n acked
  have hfound : σ.findSessionByNickname n = some s :=
    (control_find σ n).symm.trans (find_eq_some (h.exclusive.holds s n alive hregistered) alive)
  simp only [step, Option.ite_none_right_eq_some, World.event, World.advance, lookup,
    Option.some.injEq] at hstep
  rw [← hstep.2.2, World.lookupStep, hfound, Option.isSome_some, if_pos rfl, World.setPhase]
  exact congrArg (fun o : Session => o.phase) (World.modify_session_self ..)

/-- Logins exclude each other in every run in which they keep apart: no login touches
another session, a nickname that has been acknowledged is refused to the others, and no two
sessions are registered under one nickname. -/
theorem login_exclusive (env : Env) (shardCount : Nat) (acts : List Act) (σ : World)
    (apart : Along (step env) LoginsApart (World.init shardCount) acts)
    (run : exec (step env) (World.init shardCount) acts = some σ) :
    (∀ s t σ', s ≠ t → (σ.session t).phase.login ≠ none →
      step env σ (.on t .advance) = some σ' → σ'.session s = σ.session s) ∧
    (∀ s t n σ', σ.live s = true → n ∈ (σ.session s).acked →
      (σ.session t).phase = .loginLookup n → step env σ (.on t .advance) = some σ' →
      (σ'.session t).phase = .reply nicknameInUse) ∧
    ∀ s t, σ.live s = true → σ.live t = true → (σ.session s).nicknameRegistered = true →
      (σ.session t).nicknameRegistered = true → (σ.session s).nickname = (σ.session t).nickname →
      s = t := by
  have h := raceFree_of_run apart run
  refine ⟨fun s t σ' other login hstep => ?_, fun s t n σ' alive acked lookup hstep => ?_,
    fun s t alives alivet hs ht same => ?_⟩
  · exact h.login_touches_itself other login hstep
  · exact h.acked_refuses alive acked lookup hstep
  · exact h.nickname_unique alives alivet hs ht same

/-- Two clients ask for one nickname, one after the other. -/
theorem login_exclusive_in_turn :
    ∃ σ, exec (step (Env.ofTable [115] [loginText "kim"])) (World.init 4)
        (connects 0 ++ sends 0 [[115] ++ (loginText "kim").1] 8 ++
          connects 1 ++ sends 1 [[115] ++ (loginText "kim").1] 5) = some σ ∧
      (∀ s t σ', s ≠ t → (σ.session t).phase.login ≠ none →
        step (Env.ofTable [115] [loginText "kim"]) σ (.on t .advance) = some σ' →
        σ'.session s = σ.session s) ∧
      (∀ s t n σ', σ.live s = true → n ∈ (σ.session s).acked →
        (σ.session t).phase = .loginLookup n →
        step (Env.ofTable [115] [loginText "kim"]) σ (.on t .advance) = some σ' →
        (σ'.session t).phase = .reply nicknameInUse) ∧
      ∀ s t, σ.live s = true → σ.live t = true → (σ.session s).nicknameRegistered = true →
        (σ.session t).nicknameRegistered = true → (σ.session s).nickname = (σ.session t).nickname →
        s = t := by
  obtain ⟨σ, run⟩ := Option.isSome_iff_exists.mp
    (show (exec (step (Env.ofTable [115] [loginText "kim"])) (World.init 4)
      (connects 0 ++ sends 0 [[115] ++ (loginText "kim").1] 8 ++
        connects 1 ++ sends 1 [[115] ++ (loginText "kim").1] 5)).isSome by decide +kernel)
  exact ⟨σ, run, login_exclusive _ 4 _ σ (by decide +kernel) run⟩

/-- Both clients pass the lookup before either registers: both are registered under the
nickname, and then the second login closes the session that has been acknowledged. -/
theorem racing_logins_share_nickname :
    let race := connects 0 ++ connects 1 ++ sends 0 [[115] ++ (loginText "kim").1] 2 ++
      sends 1 [[115] ++ (loginText "kim").1] 2 ++ List.replicate 4 (.on 0 .advance) ++
      List.replicate 2 (.on 1 .advance)
    let run := exec (step (Env.ofTable [115] [loginText "kim"])) (World.init 4)
    (run race).map (fun σ => [0, 1].map fun s => ((σ.session s).closed,
      (σ.session s).nicknameRegistered, (σ.session s).nickname, (σ.session s).acked)) =
        some [(false, true, "kim", ["kim"]), (false, true, "kim", [])] ∧
    (run (race ++ List.replicate 3 (.on 1 .advance))).map (fun σ => [0, 1].map fun s =>
      ((σ.session s).closed, (σ.session s).acked)) =
        some [(true, ["kim"]), (false, ["kim"])] := by
  decide +kernel

end DBMiddleWare
