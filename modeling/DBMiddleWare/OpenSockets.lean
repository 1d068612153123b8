import DBMiddleWare.NicknameMutex
import DBMiddleWare.ReadLoop
import DBMiddleWare.UnauthCleanup

/-!
# The registry and the open sockets

The acceptor numbers its sessions with an `int` that comes round after `2 ^ 32`
connections. Until then no id is given twice, nothing is replaced, and the registry
holds exactly the sessions whose sockets are open.
-/

namespace DBMiddleWare

open Execution Control
set_option autoImplicit false

/-- The id that `session_counter_` gives to the `t`-th session. -/
def issuedId (t : SessionPtr) : Int32 := Int32.ofNat t

theorem issuedId_inj {t u : SessionPtr} (ht : t < 2 ^ 32) (hu : u < 2 ^ 32)
    (h : issuedId t = issuedId u) :
    t = u := by
  have hbits := congrArg (fun id : Int32 => id.toBitVec.toNat) h
  simp only [issuedId, Int32.toBitVec_ofNat', BitVec.toNat_ofNat] at hbits
  rwa [Nat.mod_eq_of_lt ht, Nat.mod_eq_of_lt hu] at hbits

theorem issuedId_succ (t : SessionPtr) : issuedId (t + 1) = issuedId t + 1 := by
  rw [← Int32.toBitVec_inj]
  apply BitVec.eq_of_toNat_eq
  simp [issuedId, Int32.toBitVec_add]

section Counter
variable {env : Env} {σ σ' : World} {s : SessionPtr}

theorem counter_ownSteps (s : SessionPtr) :
    OwnSteps s fun σ σ' => σ'.sessionCounter = σ.sessionCounter where
  beside _ _ _ := rfl
  trans _ _ _ h h' := h'.trans h
  modify _ _ _ := rfl
  close σ := by
    unfold World.closeSession
    split <;> rfl

theorem event_counter {e : Event} (h : Happened env σ s e σ') :
    σ'.sessionCounter = σ.sessionCounter := by
  rcases (counter_ownSteps s).event h with hsame | ⟨_, ⟨nickname, _, rfl⟩ | ⟨nickname, prev, _, rfl⟩⟩
  · exact hsame
  · unfold World.registerStep
    split
    · rfl
    · rfl
  · exact (counter_ownSteps prev).close σ

theorem accept_counter (σ : World) (now : Int) :
    (σ.accept now).sessionCounter = σ.sessionCounter + 1 ∧ (σ.accept now).nextPtr = σ.nextPtr + 1 := by
  rw [World.accept]
  rcases addSession_cases _ σ.nextPtr with heq | ⟨r, _, heq⟩
  · rw [heq]
    exact ⟨rfl, rfl⟩
  · rw [heq]
    exact ⟨(counter_ownSteps r).close _, World.closeSession_nextPtr _ r⟩

theorem counter_step {a : Act} (hs : step env σ a = some σ')
    (h : σ.sessionCounter = issuedId σ.nextPtr) :
    σ'.sessionCounter = issuedId σ'.nextPtr := by
  rcases step_cases hs with ⟨now, _, rfl⟩ | ⟨collected, _, rfl⟩ | ⟨s, e, _, _, happened⟩
  · obtain ⟨hcounter, hnext⟩ := accept_counter σ now
    rw [hcounter, hnext, issuedId_succ, h]
  · exact h
  · rw [event_counter happened, event_nextPtr happened]
    exact h

theorem counter_of_run {shardCount : Nat} {acts : List Act}
    (run : exec (step env) (World.init shardCount) acts = some σ) :
    σ.sessionCounter = issuedId σ.nextPtr :=
  invariant (I := fun σ => σ.sessionCounter = issuedId σ.nextPtr)
    (fun _ _ _ h hs => counter_step hs h) rfl run

end Counter

/-- The accepted sessions have their numbers as ids, and those with an open socket are filed. -/
structure OpenFiled (c : Control) : Prop where
  id : ∀ t < c.nextPtr, (c.session t).sessionId = issuedId t
  filed : ∀ t < c.nextPtr, c.manager.findSession (issuedId t) = some t ↔ (c.session t).socketOpen = true

/-- The acceptor uses the next number, and what is closed has been accepted. -/
def UsesIssued (accepted : Nat) (c : Control) : Op → Prop
  | .accept sessionId => sessionId = issuedId c.nextPtr
  | .close s => s < accepted
  | _ => True

section Operations
variable {c c' : Control} {env : Env}

theorem OpenFiled.modify (h : OpenFiled c) (s : SessionPtr) {f : SessionControl → SessionControl}
    (sessionId : ∀ o, (f o).sessionId = o.sessionId) (socket : ∀ o, (f o).socketOpen = o.socketOpen) :
    OpenFiled (c.modify s f) where
  id t ht := (modify_view c s t f SessionControl.sessionId sessionId).trans (h.id t ht)
  filed t ht := (h.filed t ht).trans
    (iff_of_eq (congrArg (· = true) (modify_view c s t f SessionControl.socketOpen socket).symm))

theorem OpenFiled.accept (h : OpenFiled c) (room : c.nextPtr < 2 ^ 32) :
    OpenFiled (c.accept (issuedId c.nextPtr)) := by
  constructor
  · intro t ht
    by_cases hnew : t = c.nextPtr
    · rw [hnew, accept_session_new]
    · rw [accept_session_of_ne c t _ hnew]
      exact h.id t (Nat.lt_of_le_of_ne (Nat.le_of_lt_succ ht) hnew)
  · intro t ht
    rw [accept_findSession]
    by_cases hnew : t = c.nextPtr
    · rw [hnew, if_pos rfl, accept_session_new]
      exact iff_of_true rfl rfl
    · have hold : t < c.nextPtr := Nat.lt_of_le_of_ne (Nat.le_of_lt_succ ht) hnew
      rw [accept_session_of_ne c t _ hnew, if_neg]
      · exact h.filed t hold
      · exact fun hid => hnew (issuedId_inj (Nat.lt_trans hold room) room hid)

theorem shut_socketOpen_of_closed {o : SessionControl} (closed : o.closed = true) :
    o.shut.socketOpen = o.socketOpen := by
  simp [SessionControl.shut, closed]

theorem OpenFiled.close (h : OpenFiled c) (known : c.nextPtr ≤ 2 ^ 32) {s : SessionPtr}
    (hs : s < c.nextPtr) :
    OpenFiled (c.close s) := by
  have hid : ∀ t, ((c.close s).session t).sessionId = (c.session t).sessionId := fun t =>
    close_view c s t SessionControl.sessionId SessionControl.shut_sessionId
  constructor
  · intro t ht
    rw [close_nextPtr] at ht
    rw [hid, h.id t ht]
  · intro t ht
    rw [close_nextPtr] at ht
    cases hclosed : (c.session s).closed with
    | true =>
      have hmanager : (c.close s).manager = c.manager := by
        unfold Control.close
        rw [if_pos hclosed]
        rfl
      have hsocket : ((c.close s).session t).socketOpen = (c.session t).socketOpen := by
        rw [close_session, modify_session]
        split
        · rename_i heq
          rw [heq, shut_socketOpen_of_closed hclosed]
        · rfl
      rw [hmanager, hsocket]
      exact h.filed t ht
    | false =>
      have hmanager : (c.close s).manager = c.manager.removeSession (issuedId s) := by
        unfold Control.close
        rw [if_neg (by rw [hclosed]; exact Bool.false_ne_true), h.id s hs]
      rw [hmanager, SessionManager.findSession_removeSession]
      by_cases hts : t = s
      · subst hts
        rw [if_pos rfl, close_session_self]
        simp [SessionControl.shut, hclosed]
      · rw [if_neg, close_session_of_ne c s t hts]
        · exact h.filed t ht
        · exact fun heq => hts (issuedId_inj (Nat.lt_of_lt_of_le ht known)
            (Nat.lt_of_lt_of_le hs known) heq)

theorem OpenFiled.step {accepted : Nat} {op : Op} (h : OpenFiled c) (hguard : UsesIssued accepted c op)
    (known : accepted ≤ c.nextPtr) (issued : c'.nextPtr ≤ 2 ^ 32) (step : Step env c op c') :
    OpenFiled c' := by
  cases step with
  | accept sessionId =>
    rw [show sessionId = issuedId c.nextPtr from hguard]
    exact h.accept issued
  | destroy s _ => exact ⟨h.id, h.filed⟩
  | close s =>
    rw [close_nextPtr] at issued
    exact h.close issued (Nat.lt_of_lt_of_le hguard known)
  | flag s => exact h.modify s (fun _ => rfl) fun _ => rfl
  | goto s phase _ _ _ => exact h.modify s (fun _ => rfl) fun _ => rfl
  | receive s packet _ => exact h.modify s (fun _ => rfl) fun _ => rfl
  | lookup s nickname _ _ => exact h.modify s (fun _ => rfl) fun _ => rfl
  | name s nickname _ => exact h.modify s (fun _ => rfl) fun _ => rfl
  | ready s nickname _ => exact h.modify s (fun _ => rfl) fun _ => rfl
  | evict s nickname prev _ _ _ => exact h.modify s (fun _ => rfl) fun _ => rfl
  | index s nickname _ =>
    have hindexed : OpenFiled (c.modify s (.index nickname)) := h.modify s (fun _ => rfl) fun _ => rfl
    exact ⟨hindexed.id, hindexed.filed⟩
  | ack s nickname _ => exact h.modify s (fun _ => rfl) fun _ => rfl

end Operations

section Server
variable {env : Env} {σ σ' : World} {a : Act} {shardCount : Nat} {acts : List Act}

theorem evictsOwner_of_run (run : exec (step env) (World.init shardCount) acts = some σ) :
    EvictsOwner σ :=
  invariant (fun _ _ _ h hs => h.step hs) (evictsOwner_init shardCount) run

/-- A step closes only sessions that have been accepted. -/
theorem closes_accepted (run : exec (step env) (World.init shardCount) acts = some σ)
    (hs : step env σ a = some σ') {s : SessionPtr} (h : σ.closes env a = some s ∨ σ.evicts a = some s) :
    s < σ.nextPtr := by
  have known := known_of_run run
  have hself : ∀ t e, a = .on t e → t < σ.nextPtr := by
    rintro t e rfl
    simp only [step, Option.ite_none_right_eq_some] at hs
    exact known.live t hs.1
  rcases h with hcloses | hevicts
  · cases a with
    | accept now => exact (filedKnown_of_run run).known _ s hcloses
    | cleanupInactive shard now maxIdleTime => cases hcloses
    | cleanupUnauth maxUnauth sorted => cases hcloses
    | on t e =>
      have hst : s = t := by
        unfold World.closes at hcloses
        cases e <;> grind
      exact hst ▸ hself t e rfl
  · unfold World.evicts at hevicts
    split at hevicts
    · rename_i t
      split at hevicts
      · rename_i nickname prev at_
        have howner := (evictsOwner_of_run run t nickname prev at_).2.1
        exact Option.some.inj hevicts ▸ known.owner nickname prev howner
      · cases hevicts
    · cases hevicts

theorem openFiled_of_run (run : exec (step env) (World.init shardCount) acts = some σ)
    (issued : σ.nextPtr ≤ 2 ^ 32) : OpenFiled σ.control := by
  revert issued
  apply history_invariant (H := fun _ σ => σ.nextPtr ≤ 2 ^ 32 → OpenFiled σ.control) _ _ run
  · exact fun _ => ⟨fun t ht => absurd ht (Nat.not_lt_zero t), fun t ht => absurd ht (Nat.not_lt_zero t)⟩
  · intro as σ a σ' run h hs issued
    have hwatch : Watch env (UsesIssued σ.nextPtr) σ a := by
      refine ⟨?_, ?_, fun _ _ => trivial, ?_, fun _ _ _ _ => trivial, fun _ _ _ => trivial,
        fun _ _ _ => trivial, fun _ _ _ _ _ => trivial⟩
      · intro c op hop
        cases op <;> trivial
      · exact fun _ _ => counter_of_run run
      · exact fun s hcloses _ _ => closes_accepted run hs hcloses
    have hboth : σ.nextPtr ≤ σ'.control.nextPtr ∧
        (σ'.control.nextPtr ≤ 2 ^ 32 → OpenFiled σ'.control) := by
      refine watched_preserved (I := fun c => σ.nextPtr ≤ c.nextPtr ∧ (c.nextPtr ≤ 2 ^ 32 → OpenFiled c))
        ?_ hwatch hs ⟨Nat.le_refl _, h⟩
      intro op c c' hguard hop hc
      refine ⟨Nat.le_trans hc.1 hop.nextPtr_le, fun hissued => ?_⟩
      exact (hc.2 (Nat.le_trans hop.nextPtr_le hissued)).step hguard hc.1 hissued hop
    exact hboth.2 issued

theorem shardCount_ownSteps (s : SessionPtr) :
    OwnSteps s fun σ σ' => σ'.manager.shardCount = σ.manager.shardCount where
  beside _ _ _ := rfl
  trans _ _ _ h h' := h'.trans h
  modify _ _ _ := rfl
  close σ := closeSession_shardCount σ s

theorem shardCount_step (hs : step env σ a = some σ') :
    σ'.manager.shardCount = σ.manager.shardCount := by
  rcases step_cases hs with ⟨now, _, rfl⟩ | ⟨collected, _, rfl⟩ | ⟨s, e, _, _, happened⟩
  · rw [World.accept]
    rcases addSession_cases _ σ.nextPtr with heq | ⟨r, _, heq⟩
    · rw [heq]
      rfl
    · rw [heq, closeSession_shardCount]
      rfl
  · rfl
  · rcases (shardCount_ownSteps s).event happened with hsame | ⟨_,
      ⟨nickname, _, rfl⟩ | ⟨nickname, prev, _, rfl⟩⟩
    · exact hsame
    · unfold World.registerStep
      split
      · rfl
      · rfl
    · exact closeSession_shardCount σ prev

theorem shardCount_of_run (run : exec (step env) (World.init shardCount) acts = some σ) :
    σ.manager.shardCount = shardCount :=
  invariant (I := fun σ => σ.manager.shardCount = shardCount)
    (fun _ _ _ h hs => (shardCount_step hs).trans h)
    rfl run

/-- What `find_session` returns, read off the sessions. -/
theorem findSession_iff (run : exec (step env) (World.init shardCount) acts = some σ)
    (issued : σ.nextPtr ≤ 2 ^ 32) {id : Int32} {t : SessionPtr} : σ.manager.findSession id = some t ↔
      t < σ.nextPtr ∧ (σ.session t).sessionId = id ∧ (σ.session t).socketOpen = true := by
  have hfiled := openFiled_of_run run issued
  constructor
  · intro h
    have ht : t < σ.nextPtr := (filedKnown_of_run run).known id t h
    have hid : (σ.session t).sessionId = id := (filed_of_run run).keyed id t h
    refine ⟨ht, hid, (hfiled.filed t ht).mp ?_⟩
    rw [← hfiled.id t ht]
    exact hid.symm ▸ h
  · rintro ⟨ht, rfl, hopen⟩
    have h := (hfiled.filed t ht).mpr hopen
    rw [← hfiled.id t ht] at h
    exact h

def World.openSockets (σ : World) : List SessionPtr :=
  (List.range σ.nextPtr).filter fun t => (σ.session t).socketOpen

/-- As long as the counter has not come round, `find_session` returns exactly the accepted sessions
whose sockets are open, a scan visits each of them once, and the monitor counts them. -/
theorem registry_holds_open_sockets (env : Env) (shardCount : Nat) (positive : 1 ≤ shardCount)
    (small : shardCount ≤ 2 ^ 31) (acts : List Act) (σ : World)
    (run : exec (step env) (World.init shardCount) acts = some σ) (issued : σ.nextPtr ≤ 2 ^ 32) :
    (∀ id t, σ.manager.findSession id = some t ↔
      t < σ.nextPtr ∧ (σ.session t).sessionId = id ∧ (σ.session t).socketOpen = true) ∧
    σ.manager.allSessions.Perm σ.openSockets ∧
    σ.manager.getTotalSessionCount = σ.openSockets.length := by
  have hcount : σ.manager.shardCount = shardCount := shardCount_of_run run
  have hperm : σ.manager.allSessions.Perm σ.openSockets := by
    apply (List.perm_ext_iff_of_nodup (nodup_allSessions (filed_of_run run))
      (List.nodup_range.filter _)).mpr
    intro t
    have hrange := shardIndex_lt (m := σ.manager) (hcount ▸ positive) (hcount ▸ small)
      (σ.session t).sessionId
    rw [mem_allSessions (filed_of_run run), findSession_iff run issued, List.mem_filter, List.mem_range]
    simp only [hrange, true_and]
  refine ⟨fun _ _ => findSession_iff run issued, hperm, ?_⟩
  rw [← hperm.length_eq, allSessions_eq_map, List.length_map, ← sumBuckets_eq_length]
  rfl

/-- Two clients connect and the first one leaves. -/
theorem registry_holds_open_sockets_two :
    ∃ σ, exec (step (Env.ofTable [] [])) (World.init 4)
        (connects 0 ++ connects 1 ++ [.on 0 (.readError false)]) = some σ ∧
      σ.openSockets = [1] ∧ σ.manager.getTotalSessionCount = σ.openSockets.length := by
  have hrun : (exec (step (Env.ofTable [] [])) (World.init 4)
      (connects 0 ++ connects 1 ++ [.on 0 (.readError false)])).map
        (fun σ => (σ.nextPtr, σ.openSockets)) =
      some (2, [1]) := by decide +kernel
  obtain ⟨σ, run, hview⟩ := Option.map_eq_some_iff.mp hrun
  obtain ⟨hnext, hopen⟩ := Prod.mk.inj hview
  have issued : σ.nextPtr ≤ 2 ^ 32 := by
    rw [hnext]
    decide
  exact ⟨σ, run, hopen, (registry_holds_open_sockets _ 4 (by decide) (by decide) _ σ run issued).2.2⟩

end Server

end DBMiddleWare
