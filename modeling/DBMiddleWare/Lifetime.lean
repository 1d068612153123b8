import DBMiddleWare.Inactivity
import DBMiddleWare.OpenSockets

/-!
# The lifetime of a session object

The registry, a cleanup that has collected a session, the work that is under way for it
and the eviction of a previous owner hold a session with a `shared_ptr`; the nickname index
does not. What a pointer leads to exists, and what has been destroyed is not touched again.
-/

namespace DBMiddleWare

open Execution Control
set_option autoImplicit false

structure Held (c : Control) : Prop where
  registered : ∀ id t, c.manager.findSession id = some t → c.live t = true
  evicted : ∀ s n prev, (c.session s).phase = .loginEvict n prev → c.live prev = true

/-- A session is destroyed when neither the registry nor an eviction holds it. -/
def DestroysUnheld (c : Control) : Op → Prop
  | .destroy s => (∀ id, c.manager.findSession id ≠ some s) ∧
      ∀ t n, (c.session t).phase ≠ .loginEvict n s
  | _ => True

def DestroysOther (t : SessionPtr) (_ : Control) : Op → Prop
  | .destroy s => s ≠ t
  | _ => True

section Held
variable {env : Env} {c c' : Control} {op : Op}

theorem Held.modify (h : Held c) (s : SessionPtr) {f : SessionControl → SessionControl}
    (evicts : ∀ n prev, (f (c.session s)).phase = .loginEvict n prev → c.live prev = true) :
    Held (c.modify s f) where
  registered := h.registered
  evicted t n prev hp := by
    rw [modify_session] at hp
    split at hp
    · exact evicts n prev hp
    · exact h.evicted t n prev hp

theorem Held.accept (h : Held c) (sessionId : Int32) : Held (c.accept sessionId) := by
  have hlive : ∀ t, c.live t = true → (c.accept sessionId).live t = true := by
    intro t ht
    by_cases hnew : t = c.nextPtr
    · rw [hnew]
      exact Function.update_self ..
    · rw [accept_live_of_ne c t sessionId hnew]
      exact ht
  constructor
  · intro id t ht
    rw [accept_findSession] at ht
    split at ht
    · rw [← Option.some.inj ht]
      exact Function.update_self ..
    · exact hlive t (h.registered id t ht)
  · intro s n prev hp
    by_cases hnew : s = c.nextPtr
    · rw [hnew, accept_session_new] at hp
      cases hp
    · rw [accept_session_of_ne c s sessionId hnew] at hp
      exact hlive prev (h.evicted s n prev hp)

theorem Held.close (h : Held c) (s : SessionPtr) : Held (c.close s) where
  registered id t ht := by
    rw [close_live]
    exact h.registered id t (close_findSession c s t ht).1
  evicted t n prev hp := by
    rw [close_view c s t SessionControl.phase SessionControl.shut_phase] at hp
    rw [close_live]
    exact h.evicted t n prev hp

theorem Held.step (h : Held c) (hguard : DestroysUnheld c op) (step : Step env c op c') : Held c' := by
  cases step with
  | accept sessionId => exact h.accept sessionId
  | destroy s _ =>
    obtain ⟨hregistered, hevicted⟩ := hguard
    constructor
    · intro id t ht
      have hne : t ≠ s := fun heq => hregistered id (heq ▸ ht)
      exact (Function.update_of_ne hne ..).trans (h.registered id t ht)
    · intro t n prev hp
      have hne : prev ≠ s := fun heq => hevicted t n (heq ▸ hp)
      exact (Function.update_of_ne hne ..).trans (h.evicted t n prev hp)
  | close s => exact h.close s
  | flag s => exact h.modify s fun n prev hp => h.evicted s n prev hp
  | goto s phase _ _ resting =>
    refine h.modify s fun n prev hp => ?_
    change phase = _ at hp
    rw [hp] at resting
    cases resting
  | receive s packet _ =>
    exact h.modify s fun n prev hp => absurd hp (not_evict_of_pending (Route.phase_pending env _) n prev)
  | lookup s nickname _ _ => exact h.modify s fun _ _ hp => by cases hp
  | name s nickname _ => exact h.modify s fun _ _ hp => by cases hp
  | ready s nickname _ => exact h.modify s fun _ _ hp => by cases hp
  | evict s nickname prev _ found _ =>
    refine h.modify s fun n prev' hp => ?_
    obtain ⟨_, rfl⟩ := Phase.loginEvict.inj hp
    exact (Option.filter_eq_some_iff.mp found).2
  | index s nickname _ =>
    have hindexed : Held (c.modify s (.index nickname)) := h.modify s fun _ _ hp => by cases hp
    exact ⟨hindexed.registered, hindexed.evicted⟩
  | ack s nickname _ => exact h.modify s fun _ _ hp => by cases hp

theorem live_of_operation {t : SessionPtr} (h : c.live t = true) (hguard : DestroysOther t c op)
    (step : Step env c op c') : c'.live t = true := by
  cases step with
  | accept sessionId =>
    by_cases hnew : t = c.nextPtr
    · rw [hnew]
      exact Function.update_self ..
    · exact (accept_live_of_ne c t sessionId hnew).trans h
  | destroy s _ => exact (Function.update_of_ne (Ne.symm hguard) ..).trans h
  | close s =>
    rw [close_live]
    exact h
  | _ => exact h

theorem dead_of_operation {t : SessionPtr} (existing : t < c.nextPtr) (h : c.live t = false)
    (step : Step env c op c') : t < c'.nextPtr ∧ c'.live t = false := by
  refine ⟨Nat.lt_of_lt_of_le existing step.nextPtr_le, ?_⟩
  cases step with
  | accept sessionId => exact (accept_live_of_ne c t sessionId (Nat.ne_of_lt existing)).trans h
  | destroy s _ =>
    by_cases hts : t = s
    · rw [hts]
      exact Function.update_self ..
    · exact (Function.update_of_ne hts ..).trans h
  | close s =>
    rw [close_live]
    exact h
  | _ => exact h

end Held

section Step
variable {env : Env} {σ σ' : World} {a : Act} {s t : SessionPtr}

theorem unowned_of_destroy (hs : step env σ (.on s .destroy) = some σ') : σ.owned s = false := by
  simp only [step, World.event, Option.ite_none_right_eq_some, Option.ite_none_left_eq_some] at hs
  exact Bool.eq_false_iff.mpr hs.2.1

theorem evicting_of_phase (evicts : EvictsOwner σ) {n : String}
    (hp : (σ.session t).phase = .loginEvict n s) :
    σ.evicting s = true := by
  unfold World.evicting
  rw [(evicts t n s hp).1]
  dsimp only
  rw [hp]
  exact decide_eq_true rfl

theorem mem_allSessions_of_findSession (filed : σ.Filed) (positive : 1 ≤ σ.manager.shardCount)
    (small : σ.manager.shardCount ≤ 2 ^ 31) {id : Int32} (h : σ.manager.findSession id = some t) :
    t ∈ σ.manager.allSessions := by
  have hid : (σ.session t).sessionId = id := filed.keyed id t h
  exact (mem_allSessions filed).mpr ⟨shardIndex_lt positive small _, hid.symm ▸ h⟩

theorem held_step (evicts : EvictsOwner σ) (filed : σ.Filed) (positive : 1 ≤ σ.manager.shardCount)
    (small : σ.manager.shardCount ≤ 2 ^ 31) (hs : step env σ a = some σ') (h : Held σ.control) :
    Held σ'.control := by
  have hwatch : Watch env DestroysUnheld σ a := by
    refine ⟨?_, fun _ _ => trivial, ?_, fun _ _ _ _ => trivial, fun _ _ _ _ => trivial,
      fun _ _ _ => trivial, fun _ _ _ => trivial, fun _ _ _ _ _ => trivial⟩
    · intro c op hop
      cases op <;> trivial
    · rintro s rfl
      have hunowned := unowned_of_destroy hs
      simp only [World.owned, Bool.or_eq_false_iff, List.contains_eq_mem,
        decide_eq_false_iff_not] at hunowned
      refine ⟨fun id hid => hunowned.1.1.1 (mem_allSessions_of_findSession filed positive small hid), ?_⟩
      intro t n hp
      rw [evicting_of_phase evicts hp] at hunowned
      exact absurd hunowned.2 Bool.true_eq_false_eq_False
  exact watched_preserved (fun _ _ _ hguard hop hc => hc.step hguard hop) hwatch hs h

theorem live_step (h : σ.live t = true) (kept : a ≠ .on t .destroy) (hs : step env σ a = some σ') :
    σ'.live t = true := by
  have hwatch : Watch env (DestroysOther t) σ a := by
    refine ⟨?_, fun _ _ => trivial, ?_, fun _ _ _ _ => trivial, fun _ _ _ _ => trivial,
      fun _ _ _ => trivial, fun _ _ _ => trivial, fun _ _ _ _ _ => trivial⟩
    · intro c op hop
      cases op <;> trivial
    · rintro s rfl rfl
      exact kept rfl
  exact watched_preserved (I := fun c => c.live t = true)
    (fun _ _ _ hguard hop hc => live_of_operation hc hguard hop) hwatch hs h

theorem dead_step (existing : t < σ.nextPtr) (h : σ.live t = false) (hs : step env σ a = some σ') :
    t < σ'.nextPtr ∧ σ'.live t = false :=
  control_preserved (I := fun c => t < c.nextPtr ∧ c.live t = false)
    (fun _ _ _ hop hc => dead_of_operation hc.1 hc.2 hop) hs ⟨existing, h⟩

/-- A step does not touch a destroyed session: it works on sessions that something leads to. -/
theorem session_of_dead (held : Held σ.control) (existing : t < σ.nextPtr) (h : σ.live t = false)
    (hs : step env σ a = some σ') : σ'.session t = σ.session t := by
  have hother : ∀ r, σ.live r = true → t ≠ r := by
    rintro r hr rfl
    rw [h] at hr
    cases hr
  rcases step_cases hs with ⟨now, _, rfl⟩ | ⟨collected, _, rfl⟩ | ⟨s, e, rfl, alive, happened⟩
  · have hnew : Function.update σ.session σ.nextPtr (.new σ.sessionCounter now) t = σ.session t :=
      Function.update_of_ne (Nat.ne_of_lt existing) ..
    rw [World.accept]
    rcases addSession_cases _ σ.nextPtr with heq | ⟨r, hfound, heq⟩
    · rw [heq]
      exact hnew
    · rw [heq, World.closeSession_session_of_ne _ r t (hother r (held.registered _ r hfound))]
      exact hnew
  · rfl
  · rcases (local_ownSteps s).event happened with hlocal | ⟨rfl,
      ⟨nickname, at_, rfl⟩ | ⟨nickname, prev, at_, rfl⟩⟩
    · exact (hlocal t (hother s alive)).1
    · unfold World.registerStep
      split
      · rename_i prev hprev
        have hlive : σ.live prev = true := by
          have hfind := (Option.filter_eq_some_iff.mp hprev).1
          rw [← control_find] at hfind
          exact (Option.filter_eq_some_iff.mp hfind).2
        have hphase := local_modify s (σ.dispatch prev (.write World.loggedInElsewhere))
          (fun o => { o with phase := .loginEvict nickname prev }) t (hother s alive)
        refine hphase.1.trans ?_
        rw [World.dispatch, World.modify_session, if_neg (hother prev hlive)]
      · exact ((local_indexNickname s σ nickname).trans (local_modify s _ _) t (hother s alive)).1
    · have hlive : σ.live prev = true := held.evicted s nickname prev at_
      have hrest := (local_indexNickname s (σ.closeSession prev) nickname).trans
        (local_modify s _ fun o => { o with phase := .loginAck nickname })
      exact (hrest t (hother s alive)).1.trans
        (World.closeSession_session_of_ne σ prev t (hother prev hlive))

/-- A cleanup collects sessions of the registry. -/
theorem toClose_live_step (filed : σ.Filed) (held : Held σ.control)
    (h : ∀ t ∈ σ.toClose, σ.live t = true)
    (hs : step env σ a = some σ') : ∀ t ∈ σ'.toClose, σ'.live t = true := by
  have hregistered : ∀ shard, ∀ t ∈ σ.manager.shardSessions shard, σ.live t = true :=
    fun shard t ht => held.registered _ t ((mem_shardSessions filed).mp ht).2
  have hmem : ∀ t ∈ σ'.toClose, t ∈ σ.toClose ∨ σ.live t = true ∧ ∀ e, a ≠ .on t e := by
    cases a with
    | accept now =>
      have heq := Option.some.inj hs
      subst heq
      intro t ht
      rw [accept_toClose] at ht
      exact Or.inl ht
    | cleanupInactive shard now maxIdleTime =>
      simp only [step, Option.ite_none_right_eq_some, Option.some.injEq] at hs
      obtain ⟨_, rfl⟩ := hs
      intro t ht
      refine (List.mem_append.mp ht).imp_right fun hnew => ⟨hregistered shard t ?_, fun _ => by simp⟩
      exact (List.mem_filter.mp hnew).1
    | cleanupUnauth maxUnauth sorted =>
      simp only [step, Option.ite_none_right_eq_some, Option.some.injEq] at hs
      obtain ⟨⟨hperm, _⟩, rfl⟩ := hs
      intro t ht
      refine (List.mem_append.mp ht).imp_right fun hnew => ⟨?_, fun _ => by simp⟩
      have hunauth : t ∈ σ.unauthSessions := hperm.subset (List.take_subset _ _ hnew)
      obtain ⟨shard, _, hshard⟩ := List.mem_flatMap.mp (List.mem_filter.mp hunauth).1
      exact hregistered shard t hshard
    | on s e =>
      simp only [step, Option.ite_none_right_eq_some] at hs
      intro t ht
      rw [event_toClose (event_cases hs.2)] at ht
      split at ht
      · exact Or.inl (List.mem_of_mem_erase ht)
      · exact Or.inl ht
  intro t ht
  rcases hmem t ht with hold | ⟨hlive, hother⟩
  · refine live_step (h t hold) ?_ hs
    rintro rfl
    have hunowned := unowned_of_destroy hs
    simp [World.owned, hold] at hunowned
  · exact live_step hlive (hother .destroy) hs

theorem accept_live_new (σ : World) (now : Int) : (σ.accept now).live σ.nextPtr = true := by
  rw [World.accept]
  rcases addSession_cases _ σ.nextPtr with heq | ⟨r, _, heq⟩
  · rw [heq]
    exact Function.update_self ..
  · rw [heq, World.closeSession_live]
    exact Function.update_self ..

end Step

/-- Whatever leads to a session leads to one that exists, and whoever has something under way exists. -/
structure NoDangling (σ : World) : Prop where
  registered : ∀ id t, σ.manager.findSession id = some t → σ.live t = true
  collected : ∀ t ∈ σ.toClose, σ.live t = true
  evicted : ∀ s n prev, (σ.session s).phase = .loginEvict n prev → σ.live prev = true
  handler : ∀ t < σ.nextPtr, (σ.session t).phase ≠ .idle → σ.live t = true
  reads : ∀ t < σ.nextPtr, (σ.session t).asyncReads ≠ 0 → σ.live t = true
  writes : ∀ t < σ.nextPtr, (σ.session t).asyncWrites ≠ [] → σ.live t = true
  strand : ∀ t < σ.nextPtr, (σ.session t).strand ≠ [] → σ.live t = true
  tasks : ∀ t < σ.nextPtr, (σ.session t).taskQueue ≠ [] → σ.live t = true

/-- What is under way leads to the event; a post from outside and the destruction come of themselves. -/
def Event.Resumes : Event → Prop
  | .postWrite _ => False
  | .destroy => False
  | _ => True

section Run
variable {env : Env} {σ σ' : World} {a : Act} {t : SessionPtr} {shardCount : Nat} {acts : List Act}

theorem NoDangling.held (h : NoDangling σ) : Held σ.control := ⟨h.registered, h.evicted⟩

/-- Work that keeps its session is never left to one that is gone. -/
theorem work_live_step (Work : Session → Prop) (keeps : ∀ o, Work o → o.busy = true)
    (held : Held σ.control) (h : ∀ t < σ.nextPtr, Work (σ.session t) → σ.live t = true)
    (hs : step env σ a = some σ') :
    ∀ t < σ'.nextPtr, Work (σ'.session t) → σ'.live t = true := by
  intro t ht hwork
  by_cases hold : t < σ.nextPtr
  · cases halive : σ.live t with
    | false =>
      rw [session_of_dead held hold halive hs] at hwork
      rw [h t hold hwork] at halive
      cases halive
    | true =>
      by_cases hdestroy : a = .on t .destroy
      · subst hdestroy
        have hunowned := unowned_of_destroy hs
        simp only [step, World.event, Option.ite_none_right_eq_some, Option.ite_none_left_eq_some,
          Option.some.injEq] at hs
        have hsame : σ'.session t = σ.session t := by rw [← hs.2.2]
        rw [hsame] at hwork
        simp [World.owned, keeps _ hwork] at hunowned
      · exact live_step halive hdestroy hs
  · obtain ⟨now, _, rfl, rfl⟩ := created_of_step hs (Nat.le_of_not_lt hold) ht
    exact accept_live_new σ now

theorem NoDangling.step (h : NoDangling σ) (filed : σ.Filed) (held' : Held σ'.control)
    (hs : step env σ a = some σ') : NoDangling σ' where
  registered := held'.registered
  collected := toClose_live_step filed h.held h.collected hs
  evicted := held'.evicted
  handler := work_live_step (fun o => o.phase ≠ .idle) (fun _ ho => by simp [Session.busy, ho])
    h.held h.handler hs
  reads := work_live_step (fun o => o.asyncReads ≠ 0) (fun _ ho => by simp [Session.busy, ho])
    h.held h.reads hs
  writes := work_live_step (fun o => o.asyncWrites ≠ []) (fun _ ho => by simp [Session.busy, ho])
    h.held h.writes hs
  strand := work_live_step (fun o => o.strand ≠ []) (fun _ ho => by simp [Session.busy, ho])
    h.held h.strand hs
  tasks := work_live_step (fun o => o.taskQueue ≠ []) (fun _ ho => by simp [Session.busy, ho])
    h.held h.tasks hs

/-- The session that goes on with something exists. -/
theorem NoDangling.resumed (h : NoDangling σ) (existing : t < σ.nextPtr) {e : Event}
    (resumes : e.Resumes) (hevent : σ.event env t e = some σ') : σ.live t = true := by
  cases e with
  | start =>
    simp only [World.event, Option.ite_none_right_eq_some] at hevent
    exact h.handler t existing (by simp [hevent.1])
  | strand =>
    refine h.strand t existing fun hnone => ?_
    simp only [World.event, hnone] at hevent
    cases hevent
  | readData data =>
    simp only [World.event, Option.ite_none_right_eq_some] at hevent
    exact h.reads t existing hevent.1.2.1
  | readError aborted =>
    simp only [World.event, Option.ite_none_right_eq_some] at hevent
    exact h.reads t existing hevent.1.2
  | advance =>
    refine h.handler t existing fun hidle => ?_
    simp only [World.event, World.advance, hidle] at hevent
    cases hevent
  | writeDone k ec =>
    refine h.writes t existing fun hnone => ?_
    simp [World.event, hnone] at hevent
  | sweep =>
    simp only [World.event, Option.ite_none_right_eq_some] at hevent
    exact h.collected t hevent.1
  | postWrite text => exact resumes.elim
  | destroy => exact resumes.elim

theorem noDangling_of_run (positive : 1 ≤ shardCount) (small : shardCount ≤ 2 ^ 31)
    (run : exec (step env) (World.init shardCount) acts = some σ) : NoDangling σ := by
  apply history_invariant (H := fun _ σ => NoDangling σ) _ _ run
  · constructor
    case registered =>
      intro id t ht
      simp [World.init, SessionManager.findSession, SessionManager.bucket] at ht
    case collected => exact fun t ht => absurd ht List.not_mem_nil
    case evicted =>
      intro s n prev hp
      cases hp
    all_goals exact fun t ht => absurd ht (Nat.not_lt_zero t)
  · intro as σ a σ' run h hs
    have hcount : σ.manager.shardCount = shardCount := shardCount_of_run run
    have hheld : Held σ'.control :=
      held_step (evictsOwner_of_run run) (filed_of_run run) (hcount ▸ positive)
      (hcount ▸ small) hs h.held
    exact h.step (filed_of_run run) hheld hs

/-- In every reachable state what the registry, a cleanup, an eviction or the work under way leads to
exists, also when it goes on; what has been destroyed keeps its last state whatever happens; and until
the counter comes round a session with an open socket is not destroyed. -/
theorem no_use_after_destruction (env : Env) (shardCount : Nat) (positive : 1 ≤ shardCount)
    (small : shardCount ≤ 2 ^ 31) (acts : List Act) (σ : World)
    (run : exec (step env) (World.init shardCount) acts = some σ) :
    NoDangling σ ∧
    (∀ t < σ.nextPtr, ∀ e : Event, e.Resumes → ∀ σ', σ.event env t e = some σ' → σ.live t = true) ∧
    (∀ more σ', exec (step env) σ more = some σ' → ∀ t < σ.nextPtr, σ.live t = false →
      σ'.session t = σ.session t ∧ σ'.live t = false) ∧
    (σ.nextPtr ≤ 2 ^ 32 → ∀ t < σ.nextPtr, (σ.session t).socketOpen = true → σ.live t = true) := by
  have h : NoDangling σ := noDangling_of_run positive small run
  refine ⟨h, fun t ht e resumes σ' hevent => h.resumed ht resumes hevent,
    fun more σ' run' t ht hdead => ?_, fun issued t ht hopen => ?_⟩
  · have hkept : t < σ'.nextPtr ∧ σ'.live t = false ∧ σ'.session t = σ.session t := by
      refine history_invariant
        (H := fun _ σ' => t < σ'.nextPtr ∧ σ'.live t = false ∧ σ'.session t = σ.session t) ?_ ?_ run'
      · exact ⟨ht, hdead, rfl⟩
      · intro as σ₁ a σ₂ run₁ ⟨hexists, hdead₁, hsame⟩ hs
        have run₀ : exec (step env) (World.init shardCount) (acts ++ as) = some σ₁ :=
          exec_append_eq_some.mpr ⟨σ, run, run₁⟩
        obtain ⟨hexists₂, hdead₂⟩ := dead_step hexists hdead₁ hs
        have hheld := (noDangling_of_run positive small run₀).held
        exact ⟨hexists₂, hdead₂, (session_of_dead hheld hexists hdead₁ hs).trans hsame⟩
    exact ⟨hkept.2.2, hkept.2.1⟩
  · exact h.registered _ t ((findSession_iff run issued).mpr ⟨ht, rfl, hopen⟩)

/-- A client leaves and its session is destroyed, another one connects. -/
theorem no_use_after_destruction_leaves :
    ∃ σ σ', exec (step (Env.ofTable [] [])) (World.init 4)
        (connects 0 ++ [.on 0 (.readError false), .on 0 .advance, .on 0 .destroy]) = some σ ∧
      exec (step (Env.ofTable [] [])) σ (connects 1) = some σ' ∧
      σ.live 0 = false ∧ NoDangling σ ∧ σ'.session 0 = σ.session 0 ∧ σ'.live 0 = false := by
  have hrun : (exec (step (Env.ofTable [] [])) (World.init 4)
      (connects 0 ++ [.on 0 (.readError false), .on 0 .advance, .on 0 .destroy])).map
        (fun σ => (σ.nextPtr, σ.live 0, (exec (step (Env.ofTable [] [])) σ (connects 1)).isSome)) =
      some (1, false, true) := by decide +kernel
  obtain ⟨σ, run, hview⟩ := Option.map_eq_some_iff.mp hrun
  obtain ⟨hnext, hdead, hmore⟩ : σ.nextPtr = 1 ∧ σ.live 0 = false ∧
      (exec (step (Env.ofTable [] [])) σ (connects 1)).isSome = true := by simpa using hview
  obtain ⟨σ', run'⟩ := Option.isSome_iff_exists.mp hmore
  obtain ⟨hnone, _, hlater, _⟩ := no_use_after_destruction _ 4 (by decide) (by decide) _ σ run
  have hkept := hlater _ σ' run' 0 (hnext.symm ▸ Nat.zero_lt_one) hdead
  exact ⟨σ, σ', run, run', hdead, hnone, hkept.1, hkept.2⟩

end Run

end DBMiddleWare
