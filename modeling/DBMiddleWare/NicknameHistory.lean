import DBMiddleWare.LoginRace
import DBMiddleWare.ExpiredNicknames

/-!
# To whom a nickname leads

A registration overwrites the entry of its nickname and nothing else ever writes the index. So
`find_session_by_nickname` returns the last session that has registered the nickname, as long as
that session exists, and a login is refused exactly as long as it does.
-/

namespace DBMiddleWare

open Execution Control
set_option autoImplicit false

/-- The registrations that a run completes, in their order. -/
def registered (env : Env) : World → List Act → List (SessionPtr × String) :=
  observed (step env) fun σ a _ => (σ.indexes a).toList

def lastRegistrant (nickname : String) (history : List (SessionPtr × String)) : Option SessionPtr :=
  ((history.filter fun r => r.2 = nickname).map Prod.fst).getLast?

def namesOf (t : SessionPtr) (history : List (SessionPtr × String)) : List String :=
  (history.filter fun r => r.1 = t).map Prod.snd

theorem lastRegistrant_concat (n : String) (history : List (SessionPtr × String)) (s : SessionPtr)
    (m : String) :
    lastRegistrant n (history ++ [(s, m)]) = if n = m then some s else lastRegistrant n history := by
  unfold lastRegistrant
  rw [List.filter_append]
  by_cases h : n = m
  · rw [if_pos h, List.filter_cons_of_pos (by simp [h]), List.filter_nil, List.map_append,
      List.map_singleton, List.getLast?_concat]
  · rw [if_neg h, List.filter_cons_of_neg (by simp [Ne.symm h]), List.filter_nil, List.append_nil]

theorem namesOf_concat (t : SessionPtr) (history : List (SessionPtr × String)) (s : SessionPtr)
    (m : String) :
    namesOf t (history ++ [(s, m)]) = if t = s then namesOf t history ++ [m] else namesOf t history := by
  unfold namesOf
  rw [List.filter_append]
  by_cases h : t = s
  · rw [if_pos h, List.filter_cons_of_pos (by simp [h]), List.filter_nil, List.map_append,
      List.map_singleton]
  · rw [if_neg h, List.filter_cons_of_neg (by simp [Ne.symm h]), List.filter_nil, List.append_nil]

/-- The index and the sessions' own records say what the history says. -/
structure IndexHistory (history : List (SessionPtr × String)) (c : Control) : Prop where
  owner : ∀ n, c.manager.owner n = lastRegistrant n history
  names : ∀ t, (c.session t).registrations = namesOf t history
  unborn : ∀ t, c.nextPtr ≤ t → namesOf t history = []

def RegistersNone (_ : Control) : Op → Prop
  | .index _ _ => False
  | _ => True

section Operations
variable {env : Env} {c c' : Control} {history : List (SessionPtr × String)} {op : Op}

theorem IndexHistory.modify (h : IndexHistory history c) (s : SessionPtr)
    {f : SessionControl → SessionControl}
    (same : ∀ o, (f o).registrations = o.registrations) : IndexHistory history (c.modify s f) where
  owner := h.owner
  names t := (modify_view c s t f SessionControl.registrations same).trans (h.names t)
  unborn := h.unborn

theorem IndexHistory.operation (h : IndexHistory history c) (other : RegistersNone c op)
    (step : Step env c op c') :
    IndexHistory history c' := by
  cases step with
  | accept sessionId =>
    refine ⟨h.owner, ?_, fun t ht => h.unborn t (Nat.le_of_succ_le ht)⟩
    refine accept_forall (P := fun t o => o.registrations = namesOf t history) (fun t _ => h.names t) ?_
    exact (h.unborn c.nextPtr (Nat.le_refl _)).symm
  | destroy s _ => exact ⟨h.owner, h.names, h.unborn⟩
  | close s =>
    refine ⟨fun n => (close_owner c s n).trans (h.owner n), fun t => ?_, ?_⟩
    · exact (close_view c s t SessionControl.registrations SessionControl.shut_registrations).trans
        (h.names t)
    · rw [close_nextPtr]
      exact h.unborn
  | flag s => exact h.modify s fun _ => rfl
  | goto s phase _ _ _ => exact h.modify s fun _ => rfl
  | receive s packet _ => exact h.modify s fun _ => rfl
  | lookup s nickname _ _ => exact h.modify s fun _ => rfl
  | name s nickname _ => exact h.modify s fun _ => rfl
  | ready s nickname _ => exact h.modify s fun _ => rfl
  | evict s nickname prev _ _ _ => exact h.modify s fun _ => rfl
  | index s nickname _ => exact absurd other id
  | ack s nickname _ => exact h.modify s fun _ => rfl

theorem IndexHistory.index (h : IndexHistory history c) {s : SessionPtr} (existing : s < c.nextPtr)
    (nickname : String) :
    IndexHistory (history ++ [(s, nickname)])
      { c.modify s (.index nickname) with manager := c.manager.setOwner nickname s } := by
  refine ⟨fun n => ?_, fun t => ?_, fun t ht => ?_⟩
  · rw [lastRegistrant_concat, ← h.owner n]
    exact c.manager.owner_setOwner s nickname n
  · rw [namesOf_concat, ← h.names t]
    change ((c.modify s (.index nickname)).session t).registrations = _
    rw [modify_session]
    split
    · rename_i heq
      rw [heq]
      rfl
    · rfl
  · have hne : t ≠ s := Nat.ne_of_gt (Nat.lt_of_lt_of_le existing ht)
    rw [namesOf_concat, if_neg hne]
    exact h.unborn t ht

end Operations

section Run
variable {env : Env} {shardCount : Nat} {acts : List Act} {σ σ' : World} {a : Act}
  {history : List (SessionPtr × String)}

theorem indexHistory_unindexed (h : IndexHistory history σ.control) (unindexed : σ.indexes a = none)
    (hs : step env σ a = some σ') : IndexHistory history σ'.control := by
  have hwatch : Watch env RegistersNone σ a := by
    refine ⟨?_, fun _ _ => trivial, fun _ _ => trivial, fun _ _ _ _ => trivial, fun _ _ _ _ => trivial,
      fun _ _ _ => trivial, fun _ _ _ => trivial, fun s n hindexes => ?_⟩
    · intro c op hop
      cases op with
      | index s n => cases hop
      | _ => trivial
    · rw [unindexed] at hindexes
      cases hindexes
  exact watched_preserved (fun _ _ _ hother hop hc => hc.operation hother hop) hwatch hs h

theorem indexHistory_indexed (h : IndexHistory history σ.control) {s : SessionPtr} {nickname : String}
    (known : Known σ.control) (indexes : σ.indexes a = some (s, nickname))
    (hs : step env σ a = some σ') :
    IndexHistory (history ++ [(s, nickname)]) σ'.control := by
  unfold World.indexes at indexes
  split at indexes
  · rename_i t
    simp only [step, Option.ite_none_right_eq_some] at hs
    have hexisting : t < σ.control.nextPtr := known.live t hs.1
    split at indexes
    · rename_i n at_
      simp only [Option.ite_none_left_eq_some, Option.some.injEq, Prod.mk.injEq] at indexes
      obtain ⟨hnone, rfl, rfl⟩ := indexes
      simp only [World.event, World.advance, at_, Option.ite_none_right_eq_some] at hs
      obtain rfl := Option.some.inj hs.2.2
      unfold World.registerStep
      split
      · rename_i prev hprev
        exact absurd (Option.isSome_iff_exists.mpr ⟨prev, hprev⟩) hnone
      · rw [control_indexNickname]
        exact h.index hexisting n
    · rename_i n prev at_
      obtain ⟨rfl, rfl⟩ := Prod.mk.inj (Option.some.inj indexes)
      simp only [World.event, World.advance, at_] at hs
      obtain rfl := Option.some.inj hs.2
      have hclosed : IndexHistory history (σ.closeSession prev).control := by
        rw [control_closeSession]
        have hclose : Step env σ.control (.close prev) (σ.control.close prev) := .close prev
        have hother : RegistersNone σ.control (.close prev) := trivial
        exact h.operation hother hclose
      have hcontrol : (σ.evictStep t n prev).control =
          (((σ.closeSession prev).indexNickname t n).setPhase t (.loginAck n)).control := rfl
      rw [hcontrol, control_indexNickname]
      refine hclosed.index ?_ n
      rw [control_closeSession, close_nextPtr]
      exact hexisting
    · cases indexes
  · cases indexes

theorem indexHistory_of_run (run : exec (step env) (World.init shardCount) acts = some σ) :
    IndexHistory (registered env (World.init shardCount) acts) σ.control := by
  refine history_invariant
    (H := fun acts σ => IndexHistory (registered env (World.init shardCount) acts) σ.control)
    ?_ ?_ run
  · exact ⟨fun _ => rfl, fun _ => rfl, fun _ _ => rfl⟩
  · intro acts σ a σ' run h hs
    rw [registered, observed_concat run hs]
    cases hindexes : σ.indexes a with
    | none =>
      rw [Option.toList_none, List.append_nil]
      exact indexHistory_unindexed h hindexes hs
    | some r => exact indexHistory_indexed h (known_of_run run) hindexes hs

theorem loginRecord_of_run (run : exec (step env) (World.init shardCount) acts = some σ)
    (t : SessionPtr) :
    LoginRecord (σ.session t).toSessionControl := by
  have hall : ∀ t, LoginRecord (σ.control.session t) := by
    refine invariant (I := fun σ => ∀ t, LoginRecord (σ.control.session t)) ?_ ?_ run
    · intro σ a σ' h hs
      exact control_preserved (I := fun c => ∀ t, LoginRecord (c.session t))
        (fun _ _ _ hop hc => loginRecord_step hc hop) hs h
    · intro t
      refine ⟨fun n hn => ?_, fun hn => ?_, fun n hn => ?_, fun n hn => ?_⟩
      · cases hn
      · cases hn
      · cases hn
      · cases hn
  exact hall t

end Run

/-- A nickname leads to the last session that has registered it, as long as that one exists; who has been
told `ok` has registered; and a login is refused exactly where the nickname still leads to a session. -/
theorem nickname_leads_to_last_registrant (env : Env) (shardCount : Nat) (acts : List Act) (σ : World)
    (run : exec (step env) (World.init shardCount) acts = some σ) :
    (∀ n s, σ.findSessionByNickname n = some s ↔
      lastRegistrant n (registered env (World.init shardCount) acts) = some s ∧ σ.live s = true) ∧
    (∀ t n, n ∈ (σ.session t).acked → (t, n) ∈ registered env (World.init shardCount) acts) ∧
    ∀ s n σ', (σ.session s).phase = .loginLookup n → step env σ (.on s .advance) = some σ' →
      ((σ'.session s).phase = .reply nicknameInUse ↔
        ∃ t, lastRegistrant n (registered env (World.init shardCount) acts) = some t ∧
          σ.live t = true) := by
  have hhistory := indexHistory_of_run run
  have hfind : ∀ n s, σ.findSessionByNickname n = some s ↔
      lastRegistrant n (registered env (World.init shardCount) acts) = some s ∧ σ.live s = true := by
    intro n s
    rw [World.findSessionByNickname_eq_some, ← hhistory.owner n]
    rfl
  refine ⟨hfind, fun t n hacked => ?_, fun s n σ' at_ hs => ?_⟩
  · have hregistrations := (loginRecord_of_run run t).acked n hacked
    have hnames : (σ.session t).registrations = namesOf t
        (registered env (World.init shardCount) acts) :=
      hhistory.names t
    rw [hnames, namesOf, List.mem_map] at hregistrations
    obtain ⟨⟨u, m⟩, hmem, rfl⟩ := hregistrations
    obtain ⟨hmem, hu⟩ := List.mem_filter.mp hmem
    exact of_decide_eq_true hu ▸ hmem
  · simp only [step, World.event, World.advance, at_, Option.ite_none_right_eq_some] at hs
    obtain rfl := Option.some.inj hs.2.2
    unfold World.lookupStep World.setPhase
    rw [exists_congr fun t => (hfind n t).symm, ← Option.isSome_iff_exists]
    split
    · rename_i hfound
      rw [World.modify_session_self]
      exact iff_of_true rfl hfound
    · rename_i hfree
      rw [World.modify_session_self]
      exact iff_of_false (fun h => by cases h) hfree

/-- A session is logged in, and another one asks for its nickname. -/
theorem nickname_leads_to_last_registrant_refused :
    let env := Env.ofTable [] [loginText "a"]
    let acts := connects 0 ++ sends 0 [(loginText "a").1] 7 ++ connects 1 ++
      sends 1 [(loginText "a").1] 1
    ∃ σ σ', exec (step env) (World.init 4) acts = some σ ∧
      (0, "a") ∈ registered env (World.init 4) acts ∧
      σ.findSessionByNickname "a" = some 0 ∧ step env σ (.on 1 .advance) = some σ' ∧
      (σ'.session 1).phase = .reply nicknameInUse := by
  intro env acts
  have hrun : (exec (step env) (World.init 4) acts).map
      (fun σ => ((σ.session 1).phase, (σ.session 0).acked,
      σ.live 0, (step env σ (.on 1 .advance)).isSome)) = some (.loginLookup "a", ["a"], true, true) := by
    decide +kernel
  have hlast : lastRegistrant "a" (registered env (World.init 4) acts) = some 0 := by decide +kernel
  obtain ⟨σ, run, hview⟩ := Option.map_eq_some_iff.mp hrun
  simp only [Prod.mk.injEq] at hview
  obtain ⟨at_, hacked, alive, hstep⟩ := hview
  obtain ⟨σ', hs⟩ := Option.isSome_iff_exists.mp hstep
  have h := nickname_leads_to_last_registrant env 4 acts σ run
  refine ⟨σ, σ', run, h.2.1 0 "a" (hacked ▸ List.mem_singleton_self "a"),
    (h.1 "a" 0).mpr ⟨hlast, alive⟩, hs, ?_⟩
  exact (h.2.2 1 "a" σ' at_ hs).mpr ⟨0, hlast, alive⟩

end DBMiddleWare
