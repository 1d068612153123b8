import DBMiddleWare.LoginProgress
import DBMiddleWare.NicknameMutex

/-!
# Nicknames of closed sessions

`close_session` leaves the nickname index as it is, and nothing calls
`unregister_nickname`. An entry goes only when another registration overwrites it, so the
index is free of closed sessions as long as no session is closed that it refers to,
except by the registration that takes its nickname.
-/

namespace DBMiddleWare

open Execution Control
set_option autoImplicit false

def Phase.indexing : Phase → Bool
  | .loginRegister _ => true
  | .loginEvict _ _ => true
  | _ => false

theorem Phase.indexing_of_pending {p : Phase} (h : p.pending = none) : p.indexing = false := by
  cases p <;> first | rfl | cases h

/-- The entries of some nicknames refer to open sessions that are logged in, and to each of
them at most once. -/
structure Released (names : String → Prop) (c : Control) : Prop where
  opened : ∀ n s, names n → c.manager.owner n = some s →
    c.live s = true ∧ (c.session s).closed = false ∧ (c.session s).nicknameRegistered = true
  single : ∀ n n' s, names n → names n' → c.manager.owner n = some s →
    c.manager.owner n' = some s → n = n'
  awake : ∀ s, (c.session s).phase ≠ .starting → (c.session s).phase ≠ .idle → c.live s = true
  ready : ∀ s, (c.session s).phase.indexing = true → (c.session s).nicknameRegistered = true
  called : ∀ s, 0 < (c.session s).closeCalls → (c.session s).closed = true

/-- A session goes only while no entry refers to it, and gets an entry only while it is open and
has no other one. -/
def Releasing (c : Control) : Op → Prop
  | .close s => ∀ n, c.manager.owner n ≠ some s
  | .flag s => ∀ n, c.manager.owner n ≠ some s
  | .destroy s => ∀ n, c.manager.owner n ≠ some s
  | .index s nickname => (c.session s).closed = false ∧ ∀ n, c.manager.owner n = some s → n = nickname
  | _ => True

section Invariant
variable {names : String → Prop} {c c' : Control}

theorem Released.mono (h : Released names c) {names' : String → Prop} (sub : ∀ n, names' n → names n) :
    Released names' c where
  opened n s hn := h.opened n s (sub n hn)
  single n n' s hn hn' := h.single n n' s (sub n hn) (sub n' hn')
  awake := h.awake
  ready := h.ready
  called := h.called

theorem Released.modify (h : Released names c) (s : SessionPtr) {f : SessionControl → SessionControl}
    (opened : ∀ n, names n → c.manager.owner n = some s →
      (f (c.session s)).closed = false ∧ (f (c.session s)).nicknameRegistered = true)
    (awake : (f (c.session s)).phase ≠ .starting → (f (c.session s)).phase ≠ .idle → c.live s = true)
    (ready : (f (c.session s)).phase.indexing = true → (f (c.session s)).nicknameRegistered = true)
    (called : 0 < (f (c.session s)).closeCalls → (f (c.session s)).closed = true) :
    Released names (c.modify s f) := by
  constructor
  · intro n t hn ht
    refine ⟨(h.opened n t hn ht).1, ?_⟩
    rw [modify_session]
    split
    · rename_i heq
      subst heq
      exact opened n hn ht
    · exact (h.opened n t hn ht).2
  · exact h.single
  · exact modify_forall (P := fun t o => o.phase ≠ .starting → o.phase ≠ .idle → c.live t = true)
      h.awake awake
  · exact modify_forall (P := fun _ o => o.phase.indexing = true → o.nicknameRegistered = true)
      h.ready ready
  · exact modify_forall (P := fun _ o => 0 < o.closeCalls → o.closed = true) h.called called

theorem Released.move (h : Released names c) {s : SessionPtr} {f : SessionControl → SessionControl}
    (alive : c.live s = true)
    (same : ∀ o, (f o).closed = o.closed ∧ (f o).closeCalls = o.closeCalls)
    (registered : (c.session s).nicknameRegistered = true → (f (c.session s)).nicknameRegistered = true)
    (ready : (f (c.session s)).phase.indexing = true → (f (c.session s)).nicknameRegistered = true) :
    Released names (c.modify s f) := by
  apply h.modify s
  · intro n hn hs
    obtain ⟨_, hopen, hregistered⟩ := h.opened n s hn hs
    exact ⟨(same _).1.trans hopen, registered hregistered⟩
  · exact fun _ _ => alive
  · exact ready
  · intro hcalls
    rw [(same _).2] at hcalls
    exact (same _).1.trans (h.called s hcalls)

theorem Released.close (h : Released names c) {s : SessionPtr}
    (unreferenced : ∀ n, names n → c.manager.owner n ≠ some s) : Released names (c.close s) := by
  have hshut : Released names (c.modify s .shut) := by
    apply h.modify s
    · exact fun n hn hs => absurd hs (unreferenced n hn)
    · rw [SessionControl.shut_phase]
      exact h.awake s
    · rw [SessionControl.shut_phase, SessionControl.shut_registered]
      exact h.ready s
    · exact fun _ => SessionControl.shut_closed _
  unfold Control.close
  split
  · exact hshut
  · exact ⟨hshut.opened, hshut.single, hshut.awake, hshut.ready, hshut.called⟩

theorem Released.accept (h : Released names c) (known : Known c) (sessionId : Int32) :
    Released names (c.accept sessionId) := by
  constructor
  · intro n t hn ht
    have hne : t ≠ c.nextPtr := Nat.ne_of_lt (known.owner n t ht)
    rw [accept_live_of_ne c t sessionId hne, accept_session_of_ne c t sessionId hne]
    exact h.opened n t hn ht
  · exact h.single
  · apply accept_forall (P := fun t o => o.phase ≠ .starting → o.phase ≠ .idle →
      (c.accept sessionId).live t = true)
    · intro t ht
      rw [accept_live_of_ne c t sessionId ht]
      exact h.awake t
    · exact fun hp => absurd rfl hp
  · apply accept_forall (P := fun _ o => o.phase.indexing = true → o.nicknameRegistered = true)
    · exact fun t _ => h.ready t
    · exact fun hp => by cases hp
  · apply accept_forall (P := fun _ o => 0 < o.closeCalls → o.closed = true)
    · exact fun t _ => h.called t
    · exact fun hcalls => absurd hcalls (Nat.lt_irrefl 0)

theorem Released.destroy (h : Released names c) {s : SessionPtr} (idle : (c.session s).phase = .idle)
    (unreferenced : ∀ n, names n → c.manager.owner n ≠ some s) :
    Released names { c with live := Function.update c.live s false } := by
  refine ⟨fun n t hn ht => ?_, h.single, fun t hstarting hidle => ?_, h.ready, h.called⟩
  · have hne : t ≠ s := by
      rintro rfl
      exact unreferenced n hn ht
    exact ⟨(Function.update_of_ne hne ..).trans (h.opened n t hn ht).1, (h.opened n t hn ht).2⟩
  · have hne : t ≠ s := by
      rintro rfl
      exact hidle idle
    exact (Function.update_of_ne hne ..).trans (h.awake t hstarting hidle)

theorem Released.index {nickname : String} (h : Released (· ≠ nickname) c) {s : SessionPtr}
    (at_ : (c.session s).phase.indexing = true) (opened : (c.session s).closed = false)
    (single : ∀ n, c.manager.owner n = some s → n = nickname) :
    Released (fun _ => True)
      { c.modify s (.index nickname) with manager := c.manager.setOwner nickname s } := by
  have alive : c.live s = true := by
    apply h.awake s
    · intro hp
      rw [hp] at at_
      cases at_
    · intro hp
      rw [hp] at at_
      cases at_
  have hmoved : Released (· ≠ nickname) (c.modify s (.index nickname)) :=
    h.move alive (fun _ => ⟨rfl, rfl⟩) id fun hp => by cases hp
  have howner : ∀ n t, (c.manager.setOwner nickname s).owner n = some t →
      (n = nickname ∧ t = s) ∨ (n ≠ nickname ∧ t ≠ s ∧ c.manager.owner n = some t) := by
    intro n t ht
    rw [SessionManager.owner_setOwner] at ht
    split at ht
    · rename_i hn
      exact Or.inl ⟨hn, (Option.some.inj ht).symm⟩
    · rename_i hn
      exact Or.inr ⟨hn, fun hts => hn (single n (hts ▸ ht)), ht⟩
  constructor
  · intro n t _ ht
    rcases howner n t ht with ⟨rfl, rfl⟩ | ⟨hn, _, ht⟩
    · change c.live t = true ∧ ((c.modify t (.index n)).session t).closed = false ∧
        ((c.modify t (.index n)).session t).nicknameRegistered = true
      rw [modify_session_self]
      exact ⟨alive, opened, h.ready t at_⟩
    · exact hmoved.opened n t hn ht
  · intro n n' t _ _ ht ht'
    rcases howner n t ht with ⟨hn, hts⟩ | ⟨hn, hts, ht⟩
    · rcases howner n' t ht' with ⟨hn', _⟩ | ⟨_, hts', _⟩
      · exact hn.trans hn'.symm
      · exact absurd hts hts'
    · rcases howner n' t ht' with ⟨_, hts'⟩ | ⟨hn', _, ht'⟩
      · exact absurd hts' hts
      · exact h.single n n' t hn hn' ht ht'
  · exact hmoved.awake
  · exact hmoved.ready
  · exact hmoved.called

theorem Released.step {env : Env} {op : Op} (h : Released (fun _ => True) c) (known : Known c)
    (releasing : Releasing c op) (step : Step env c op c') : Released (fun _ => True) c' := by
  have alive : ∀ {s p}, (c.session s).phase = p → p ≠ .starting → p ≠ .idle → c.live s = true :=
    fun hp hstarting hidle => h.awake _ (hp ▸ hstarting) (hp ▸ hidle)
  cases step with
  | accept sessionId => exact h.accept known sessionId
  | destroy s idle => exact h.destroy idle fun n _ => releasing n
  | close s => exact h.close fun n _ => releasing n
  | flag s =>
    apply h.modify s
    · exact fun n _ hs => absurd hs (releasing n)
    · exact h.awake s
    · exact h.ready s
    · exact fun _ => rfl
  | goto s phase alive _ resting =>
    refine h.move alive (fun _ => ⟨rfl, rfl⟩) id fun hp => ?_
    have hnone := Phase.indexing_of_pending (Phase.pending_of_resting resting)
    exact absurd (hp.symm.trans hnone) (by simp)
  | receive s packet drain =>
    refine h.move (alive drain (by simp) (by simp)) (fun _ => ⟨rfl, rfl⟩) id fun hp => ?_
    have hnone := Phase.indexing_of_pending
      (Route.phase_pending env (route env (c.session s).nicknameRegistered packet))
    exact absurd (hp.symm.trans hnone) (by simp)
  | lookup s nickname at_ _ =>
    exact h.move (alive at_ (by simp) (by simp)) (fun _ => ⟨rfl, rfl⟩) id fun hp => by cases hp
  | name s nickname at_ =>
    exact h.move (alive at_ (by simp) (by simp)) (fun _ => ⟨rfl, rfl⟩) id fun hp => by cases hp
  | ready s nickname at_ =>
    exact h.move (alive at_ (by simp) (by simp)) (fun _ => ⟨rfl, rfl⟩) (fun _ => rfl) fun _ => rfl
  | evict s nickname prev at_ _ _ =>
    refine h.move (alive at_ (by simp) (by simp)) (fun _ => ⟨rfl, rfl⟩) id fun _ => ?_
    exact h.ready s (by rw [at_]; rfl)
  | index s nickname at_ =>
    refine (h.mono fun _ _ => trivial).index ?_ releasing.1 releasing.2
    rcases at_ with hp | ⟨prev, hp⟩
    · rw [hp]
      rfl
    · rw [hp]
      rfl
  | ack s nickname at_ =>
    exact h.move (alive at_ (by simp) (by simp)) (fun _ => ⟨rfl, rfl⟩) id fun hp => by cases hp

/-- The previous owner is closed, and then its one entry is overwritten. -/
theorem Released.evict (h : Released (fun _ => True) c) {s prev : SessionPtr} {nickname : String}
    (entry : c.manager.owner nickname = some prev) (other : prev ≠ s)
    (at_ : (c.session s).phase.indexing = true) (opened : (c.session s).closed = false)
    (single : ∀ n, c.manager.owner n = some s → n = nickname) :
    Released (fun _ => True)
      { (c.close prev).modify s (.index nickname) with
        manager := (c.close prev).manager.setOwner nickname s } := by
  have hclosed : Released (· ≠ nickname) (c.close prev) :=
    (h.mono fun _ _ => trivial).close
      fun n hn hprev => hn (h.single n nickname prev trivial trivial hprev entry)
  have hsession : (c.close prev).session s = c.session s := close_session_of_ne c prev s other.symm
  apply hclosed.index
  · rwa [hsession]
  · rwa [hsession]
  · intro n hn
    rw [close_owner] at hn
    exact single n hn

end Invariant

def Act.destroys : Act → Option SessionPtr
  | .on s .destroy => some s
  | _ => none

/-- The same, checked on a step of the machine. -/
def Releases (env : Env) (σ : World) (a : Act) : Prop :=
  (∀ s ∈ σ.closes env a, σ.manager.nicknames s = []) ∧
  (∀ s ∈ σ.posts a, (σ.session s).closed = false → WriteQueue.AtLimit env.config (σ.session s) →
    σ.manager.nicknames s = []) ∧
  (∀ s ∈ a.destroys, σ.manager.nicknames s = []) ∧
  ∀ g ∈ σ.indexes a, (σ.session g.1).closed = false ∧ ∀ n ∈ σ.manager.nicknames g.1, n = g.2

instance (env : Env) (σ : World) (a : Act) : Decidable (Releases env σ a) := by
  unfold Releases
  infer_instance

section Machine
variable {env : Env} {σ σ' : World} {a : Act}

theorem watch_releases (h : Releases env σ a) (keeps : σ.evicts a = none) : Watch env Releasing σ a := by
  obtain ⟨hcloses, hposts, hdestroys, hindexes⟩ := h
  constructor
  · intro c op hop
    cases op <;> trivial
  · exact fun _ _ => trivial
  · rintro s rfl
    exact (σ.manager.nicknames_eq_nil s).mp (hdestroys s rfl)
  · intro s hs c same n
    rw [same]
    rcases hs with hs | hs
    · exact (σ.manager.nicknames_eq_nil s).mp (hcloses s hs) n
    · rw [keeps] at hs
      cases hs
  · intro s hs hopen hlimit
    exact (σ.manager.nicknames_eq_nil s).mp (hposts s hs hopen hlimit)
  · exact fun _ _ _ => trivial
  · exact fun _ _ _ => trivial
  · intro s n hs c hc
    rcases hc with rfl | ⟨prev, hprev, _⟩
    · obtain ⟨hopen, hsingle⟩ := hindexes (s, n) hs
      exact ⟨hopen, fun m hm => hsingle m ((σ.manager.mem_nicknames s m).mpr hm)⟩
    · rw [keeps] at hprev
      cases hprev

theorem evicts_eq_some {prev : SessionPtr} (h : σ.evicts a = some prev) :
    ∃ s nickname, a = .on s .advance ∧ (σ.session s).phase = .loginEvict nickname prev := by
  unfold World.evicts at h
  split at h
  · rename_i s
    split at h
    · rename_i nickname r hp
      exact ⟨s, nickname, rfl, Option.some.inj h ▸ hp⟩
    · cases h
  · cases h

/-- What holds in every state of a run that releases its nicknames. -/
structure IndexReleased (σ : World) : Prop where
  known : Known σ.control
  evicts : EvictsOwner σ
  released : Released (fun _ => True) σ.control

theorem IndexReleased.step (h : IndexReleased σ) (releases : Releases env σ a)
    (hs : DBMiddleWare.step env σ a = some σ') : IndexReleased σ' := by
  refine ⟨known_of_step hs h.known, h.evicts.step hs, ?_⟩
  cases hevicts : σ.evicts a with
  | none =>
    have hinv : Known σ'.control ∧ Released (fun _ => True) σ'.control :=
      watched_preserved (I := fun c => Known c ∧ Released (fun _ => True) c)
        (fun _ _ _ hg hop hc => ⟨hc.1.step hop, hc.2.step hc.1 hg hop⟩)
          (watch_releases releases hevicts) hs
        ⟨h.known, h.released⟩
    exact hinv.2
  | some prev =>
    obtain ⟨s, nickname, rfl, at_⟩ := evicts_eq_some hevicts
    obtain ⟨_, hentry, hother⟩ := h.evicts s nickname prev at_
    obtain ⟨_, _, _, hindexes⟩ := releases
    obtain ⟨hopen, hsingle⟩ := hindexes (s, nickname) (by simp [World.indexes, at_])
    have hσ' : σ' = σ.evictStep s nickname prev := by
      simp only [DBMiddleWare.step, Option.ite_none_right_eq_some, World.event, World.advance, at_,
        Option.some.injEq] at hs
      exact hs.2.symm
    have hcontrol : σ'.control = { (σ.control.close prev).modify s (.index nickname) with
        manager := (σ.control.close prev).manager.setOwner nickname s } := by
      rw [hσ', ← control_closeSession, ← control_indexNickname]
      rfl
    rw [hcontrol]
    exact h.released.evict hentry hother
      (by change (σ.session s).phase.indexing = true; rw [at_]; rfl) hopen
      fun n hn => hsingle n ((σ.manager.mem_nicknames s n).mpr hn)

theorem indexReleased_init (shardCount : Nat) : IndexReleased (World.init shardCount) where
  known := known_init shardCount
  evicts := evictsOwner_init shardCount
  released := by
    have hnone : ∀ n s, (World.init shardCount).manager.owner n ≠ some s := by
      intro n s h
      simp [World.init, SessionManager.owner] at h
    constructor
    · exact fun n s _ hs => absurd hs (hnone n s)
    · exact fun n _ s _ _ hs => absurd hs (hnone n s)
    · exact fun s hp => absurd rfl hp
    · exact fun s hp => by cases hp
    · exact fun s hcalls => absurd hcalls (Nat.lt_irrefl 0)

end Machine

def World.loggedIn (σ : World) : List SessionPtr :=
  (List.range σ.nextPtr).filter fun s =>
    σ.live s && !(σ.session s).closed && (σ.session s).nicknameRegistered

/-- Closing releases the nickname, in every run in which no session that the index refers to is
closed (except by the registration that takes over its nickname), flagged or destroyed, and only
open sessions without another nickname are registered. -/
theorem closing_releases_nickname (env : Env) (shardCount : Nat) (acts : List Act) (σ : World)
    (releases : Along (step env) (Releases env) (World.init shardCount) acts)
    (run : exec (step env) (World.init shardCount) acts = some σ) :
    (∀ s, 0 < (σ.session s).closeCalls → ∀ n, σ.manager.owner n ≠ some s) ∧
    (∀ n s, σ.findSessionByNickname n = some s → (σ.session s).closed = false) ∧
    (∀ t n, σ.live t = true → (σ.session t).phase = .loginLookup n →
      (∀ s, σ.findSessionByNickname n = some s → (σ.session s).closed = true) →
      (σ.nicknameMutex = none →
        ∃ σ', Advances env t σ σ' ∧ ((σ.session t).acked ++ [n]).Sublist (σ'.session t).acked) ∧
      ∀ more σ', exec (step env) σ (.on t .advance :: more) = some σ' →
        5 ≤ more.count (.on t .advance) →
        ((σ.session t).acked ++ [n]).Sublist (σ'.session t).acked) ∧
    σ.manager.nicknameIndex.entries.length ≤ σ.loggedIn.length := by
  obtain ⟨known, _, released⟩ := invariant_along (I := IndexReleased)
    (fun _ _ _ h hg hs => h.step hg hs) (indexReleased_init shardCount) releases run
  have hfound : ∀ n s, σ.findSessionByNickname n = some s → (σ.session s).closed = false := by
    intro n s hs
    rw [← control_find, Control.find, Option.filter_eq_some_iff] at hs
    exact (released.opened n s trivial hs.1).2.1
  refine ⟨fun s hcalls n hs => ?_, hfound, fun t n alive at_ hclosed => ?_, ?_⟩
  · have hopen := (released.opened n s trivial hs).2.1
    exact absurd (hopen.symm.trans (released.called s hcalls)) (by simp)
  · have hfree : σ.findSessionByNickname n = none := by
      rw [Option.eq_none_iff_forall_ne_some]
      intro s hs
      exact absurd ((hfound n s hs).symm.trans (hclosed s hs)) (by simp)
    refine ⟨fun unlocked => lookup_answers alive unlocked at_ hfree, fun more σ' hmore enough => ?_⟩
    exact lookup_answered (known.live t alive) at_ hfree hmore enough
  · apply σ.manager.entries_length_le
    · exact fun n n' s => released.single n n' s trivial trivial
    · intro n s hs
      obtain ⟨alive, hopen, hregistered⟩ := released.opened n s trivial hs
      have hrange : s ∈ List.range σ.nextPtr := List.mem_range.mpr (known.owner n s hs)
      refine List.mem_filter.mpr ⟨hrange, ?_⟩
      rw [show σ.live s = true from alive, show (σ.session s).closed = false from hopen,
        show (σ.session s).nicknameRegistered = true from hregistered]
      rfl

/-- Two clients race for one nickname, and the second one closes the first. -/
theorem closing_releases_nickname_eviction :
    ∃ σ, exec (step (Env.ofTable [115] [loginText "kim"])) (World.init 4)
        (connects 0 ++ connects 1 ++ sends 0 [[115] ++ (loginText "kim").1] 2 ++
          sends 1 [[115] ++ (loginText "kim").1] 2 ++ List.replicate 4 (.on 0 .advance) ++
          List.replicate 5 (.on 1 .advance)) = some σ ∧
      (∀ s, 0 < (σ.session s).closeCalls → ∀ n, σ.manager.owner n ≠ some s) ∧
      (∀ n s, σ.findSessionByNickname n = some s → (σ.session s).closed = false) ∧
      (∀ t n, σ.live t = true → (σ.session t).phase = .loginLookup n →
        (∀ s, σ.findSessionByNickname n = some s → (σ.session s).closed = true) →
        (σ.nicknameMutex = none → ∃ σ', Advances (Env.ofTable [115] [loginText "kim"]) t σ σ' ∧
          ((σ.session t).acked ++ [n]).Sublist (σ'.session t).acked) ∧
        ∀ more σ', exec (step (Env.ofTable [115] [loginText "kim"])) σ
          (.on t .advance :: more) = some σ' → 5 ≤ more.count (.on t .advance) →
          ((σ.session t).acked ++ [n]).Sublist (σ'.session t).acked) ∧
      σ.manager.nicknameIndex.entries.length ≤ σ.loggedIn.length := by
  obtain ⟨σ, run⟩ := Option.isSome_iff_exists.mp
    (show (exec (step (Env.ofTable [115] [loginText "kim"])) (World.init 4)
      (connects 0 ++ connects 1 ++ sends 0 [[115] ++ (loginText "kim").1] 2 ++
        sends 1 [[115] ++ (loginText "kim").1] 2 ++ List.replicate 4 (.on 0 .advance) ++
        List.replicate 5 (.on 1 .advance))).isSome by decide +kernel)
  exact ⟨σ, run, closing_releases_nickname _ 4 _ σ (by decide +kernel) run⟩

/-- A client logs in and disconnects: its entry stays, the lookup finds the closed session, and
another client is refused the nickname. -/
theorem disconnected_client_keeps_nickname :
    let left := connects 0 ++ sends 0 [[115] ++ (loginText "kim").1] 8 ++ [.on 0 (.readError false)]
    let run := exec (step (Env.ofTable [115] [loginText "kim"])) (World.init 4)
    (run left).map (fun σ => ((σ.session 0).closeCalls, (σ.session 0).closed,
      σ.findSessionByNickname "kim")) = some (1, true, some 0) ∧
    (run left).map (fun σ => (σ.manager.nicknameIndex.entries.length, σ.loggedIn)) = some (1, []) ∧
    (run (left ++ connects 1 ++ sends 1 [[115] ++ (loginText "kim").1] 2)).map (fun σ =>
      (σ.session 1).phase) = some (.reply nicknameInUse) := by
  decide +kernel

end DBMiddleWare
