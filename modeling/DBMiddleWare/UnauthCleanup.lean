import DBMiddleWare.ShardScan

/-!
# The cap on unauthenticated sessions

`cleanup_unauth_sessions` collects the registered sessions that are not logged in, sorts
them by their last alive time and closes the oldest ones. Each call of `close_session`
takes its session out of the registry while the collected list is walked.
-/

namespace DBMiddleWare

open Execution
set_option autoImplicit false

/-- What `std::sort` may make of the collected sessions; it may leave equal times in any order. -/
def World.SortedUnauth (σ : World) (sorted : List SessionPtr) : Prop :=
  sorted.Perm σ.unauthSessions ∧
    sorted.Pairwise fun a b => (σ.session a).lastAliveTime ≤ (σ.session b).lastAliveTime

def World.closeAll (σ : World) (sessions : List SessionPtr) : World :=
  sessions.foldl World.closeSession σ

/-- `cleanup_unauth_sessions`, with the list after the sort. -/
def World.cleanupUnauthSessions (σ : World) (maxUnauth : Nat) (sorted : List SessionPtr) : World :=
  if maxUnauth < σ.unauthSessions.length then
    let countToClose := σ.unauthSessions.length - maxUnauth
    σ.closeAll (sorted.take countToClose)
  else σ

/-- Some bucket of the registry holds the session. -/
def World.Registered (σ : World) (s : SessionPtr) : Prop :=
  ∃ shard < σ.manager.shardCount, ∃ entry ∈ (σ.manager.sessionBuckets shard).entries, entry.2 = s

instance (σ : World) (s : SessionPtr) : Decidable (σ.Registered s) :=
  inferInstanceAs (Decidable
    (∃ shard < _, ∃ entry ∈ (σ.manager.sessionBuckets shard).entries, entry.2 = s))

theorem exists_sortedUnauth (σ : World) : ∃ sorted, σ.SortedUnauth sorted := by
  let le := fun a b => decide ((σ.session a).lastAliveTime ≤ (σ.session b).lastAliveTime)
  refine ⟨σ.unauthSessions.mergeSort le, List.mergeSort_perm _ _, ?_⟩
  have hsorted : (σ.unauthSessions.mergeSort le).Pairwise fun a b => le a b = true := by
    apply List.pairwise_mergeSort
    · intro a b c hab hbc
      simp only [le, decide_eq_true_iff] at hab hbc ⊢
      omega
    · intro a b
      simp only [le, Bool.or_eq_true, decide_eq_true_iff]
      omega
  exact hsorted.imp fun hle => of_decide_eq_true hle

section Registered
variable {σ : World} {s t : SessionPtr}

theorem registered_iff : σ.Registered s ↔ s ∈ σ.manager.allSessions := by
  unfold World.Registered SessionManager.allSessions SessionManager.shardSessions
  simp only [List.mem_flatMap, List.mem_range, List.mem_map]

theorem mem_unauthSessions : s ∈ σ.unauthSessions ↔
    σ.Registered s ∧ ((σ.session s).state = .handshaking ∨ (σ.session s).state = .loginWait) := by
  rw [registered_iff, World.unauthSessions, List.mem_filter, decide_eq_true_iff]

theorem mem_allSessions (h : σ.Filed) : s ∈ σ.manager.allSessions ↔
    σ.manager.shardIndex (σ.session s).sessionId < σ.manager.shardCount ∧
      σ.manager.findSession (σ.session s).sessionId = some s := by
  unfold SessionManager.allSessions
  simp only [List.mem_flatMap, List.mem_range, mem_shardSessions h]
  constructor
  · rintro ⟨shard, hlt, rfl, hfind⟩
    exact ⟨hlt, hfind⟩
  · rintro ⟨hlt, hfind⟩
    exact ⟨_, hlt, rfl, hfind⟩

theorem nodup_allSessions (h : σ.Filed) : σ.manager.allSessions.Nodup := by
  unfold SessionManager.allSessions
  rw [List.nodup_flatMap]
  constructor
  · exact fun shard _ => nodup_shardSessions h shard
  · apply List.Nodup.pairwise_of_forall_ne List.nodup_range
    intro i _ j _ hij s hi hj
    exact hij (((mem_shardSessions h).mp hi).1.trans ((mem_shardSessions h).mp hj).1.symm)

theorem eq_of_sessionId (h : σ.Filed) (hs : s ∈ σ.manager.allSessions) (ht : t ∈ σ.manager.allSessions)
    (same : (σ.session s).sessionId = (σ.session t).sessionId) : s = t := by
  have hs := ((mem_allSessions h).mp hs).2
  have ht := ((mem_allSessions h).mp ht).2
  rw [same, ht] at hs
  exact (Option.some.inj hs).symm

end Registered

section CloseAll
variable {σ : World} {sessions : List SessionPtr}

theorem closeAll_cons (s : SessionPtr) :
    σ.closeAll (s :: sessions) = (σ.closeSession s).closeAll sessions := rfl

/-- Each session of the list is shut once, and no other session changes. -/
theorem closeAll_session (nodup : sessions.Nodup) (t : SessionPtr) :
    (σ.closeAll sessions).session t = if t ∈ sessions then (σ.session t).shut else σ.session t := by
  induction sessions generalizing σ with
  | nil => rfl
  | cons s sessions ih =>
    obtain ⟨hs, hrest⟩ := List.nodup_cons.mp nodup
    rw [closeAll_cons, ih hrest]
    by_cases ht : t = s
    · subst ht
      rw [if_neg hs, if_pos List.mem_cons_self, World.closeSession_session_self]
    · rw [World.closeSession_session_of_ne σ s t ht]
      simp only [List.mem_cons, ht, false_or]

theorem closeAll_filed (h : σ.Filed) : (σ.closeAll sessions).Filed := by
  induction sessions generalizing σ with
  | nil => exact h
  | cons s sessions ih => exact ih (h.closeSession s)

theorem closeAll_shardCount : (σ.closeAll sessions).manager.shardCount = σ.manager.shardCount := by
  induction sessions generalizing σ with
  | nil => rfl
  | cons s sessions ih => exact ih.trans (closeSession_shardCount σ s)

/-- The open sessions of the list lose the entries under their ids. -/
theorem closeAll_findSession (nodup : sessions.Nodup) (id : Int32) :
    (σ.closeAll sessions).manager.findSession id =
      if ∃ s ∈ sessions, (σ.session s).closed = false ∧ (σ.session s).sessionId = id then none
      else σ.manager.findSession id := by
  induction sessions generalizing σ with
  | nil => simp [World.closeAll]
  | cons s sessions ih =>
    obtain ⟨hs, hrest⟩ := List.nodup_cons.mp nodup
    have hsame : (∃ t ∈ sessions, ((σ.closeSession s).session t).closed = false ∧
        ((σ.closeSession s).session t).sessionId = id) ↔
        ∃ t ∈ sessions, (σ.session t).closed = false ∧ (σ.session t).sessionId = id := by
      apply exists_congr
      intro t
      apply and_congr_right
      intro ht
      rw [World.closeSession_session_of_ne σ s t fun heq => hs (heq ▸ ht)]
    rw [closeAll_cons, ih hrest, closeSession_findSession]
    simp only [hsame, List.exists_mem_cons_iff]
    by_cases hrest : ∃ t ∈ sessions, (σ.session t).closed = false ∧ (σ.session t).sessionId = id
    · rw [if_pos hrest, if_pos (Or.inr hrest)]
    · simp only [hrest, or_false, if_false, eq_comm (a := id)]

/-- What the list does not contain stays registered. -/
theorem closeAll_registered (filed : σ.Filed) (nodup : sessions.Nodup)
    (registered : ∀ s ∈ sessions, s ∈ σ.manager.allSessions) {t : SessionPtr}
    (ht : t ∈ σ.manager.allSessions) (out : t ∉ sessions) :
    t ∈ (σ.closeAll sessions).manager.allSessions := by
  have hid : ((σ.closeAll sessions).session t).sessionId = (σ.session t).sessionId := by
    rw [closeAll_session nodup, if_neg out]
  obtain ⟨hshard, hfind⟩ := (mem_allSessions filed).mp ht
  refine (mem_allSessions (closeAll_filed filed)).mpr ?_
  rw [hid, closeAll_findSession nodup]
  unfold SessionManager.shardIndex SessionManager.getShard at hshard ⊢
  rw [closeAll_shardCount]
  refine ⟨hshard, ?_⟩
  rw [if_neg]
  · exact hfind
  · rintro ⟨s, hs, _, hsame⟩
    have : s = t := eq_of_sessionId filed (registered s hs) ht hsame
    exact out (this ▸ hs)

/-- An open session of the list is taken out of the registry. -/
theorem closeAll_unregistered (filed : σ.Filed) (nodup : sessions.Nodup) {s : SessionPtr}
    (hs : s ∈ sessions)
    (isOpen : (σ.session s).closed = false) : s ∉ (σ.closeAll sessions).manager.allSessions := by
  intro hmem
  have hid : ((σ.closeAll sessions).session s).sessionId = (σ.session s).sessionId := by
    rw [closeAll_session nodup, if_pos hs]
    exact (σ.session s).toSessionControl.shut_sessionId
  have hfind := ((mem_allSessions (closeAll_filed filed)).mp hmem).2
  rw [hid, closeAll_findSession nodup, if_pos ⟨s, hs, isOpen, rfl⟩] at hfind
  cases hfind

end CloseAll

/-- With `unauth` the registered sessions in one of the two states before the login, `closed` are the
oldest of them over the cap, and nothing else is touched. -/
structure UnauthCap (σ σ' : World) (maxUnauth : Nat) (unauth : Finset SessionPtr)
    (closed : List SessionPtr) : Prop where
  unauthenticated : ∀ s, s ∈ unauth ↔
    σ.Registered s ∧ ((σ.session s).state = .handshaking ∨ (σ.session s).state = .loginWait)
  count : closed.length = unauth.card - maxUnauth
  chosen : ∀ s ∈ closed, s ∈ unauth
  calls : ∀ s, (σ'.session s).closeCalls = (σ.session s).closeCalls + closed.count s
  once : ∀ s, closed.count s ≤ 1
  oldest : ∀ s ∈ closed, ∀ t ∈ unauth, t ∉ closed →
    (σ.session s).lastAliveTime ≤ (σ.session t).lastAliveTime
  unchanged : ∀ t, t ∉ closed → σ'.session t = σ.session t
  registered : ∀ t, σ.Registered t → t ∉ closed → σ'.Registered t
  remaining : (∀ s ∈ unauth, (σ.session s).closed = false) →
    (unauth.filter fun s => σ'.Registered s).card = min unauth.card maxUnauth

section Cap
variable {σ : World} {maxUnauth : Nat} {sorted : List SessionPtr}

theorem nodup_unauthSessions (filed : σ.Filed) : σ.unauthSessions.Nodup :=
  (nodup_allSessions filed).filter _

theorem cleanupUnauthSessions_eq_closeAll (h : σ.SortedUnauth sorted) :
    σ.cleanupUnauthSessions maxUnauth sorted = σ.closeAll (sorted.take (sorted.length - maxUnauth)) := by
  unfold World.cleanupUnauthSessions
  rw [h.1.length_eq]
  split
  · rfl
  · have hnone : σ.unauthSessions.length - maxUnauth = 0 := by omega
    rw [hnone, List.take_zero]
    rfl

theorem shut_closeCalls (o : Session) : o.shut.closeCalls = o.closeCalls + 1 := by
  rcases o.toSessionControl.shut_cases with ⟨_, h⟩ | ⟨_, h⟩
  · exact congrArg SessionControl.closeCalls h
  · exact congrArg SessionControl.closeCalls h

/-- What the sort puts in front is not younger than the rest. -/
theorem take_oldest (h : σ.SortedUnauth sorted) (n : Nat) {s t : SessionPtr} (hs : s ∈ sorted.take n)
    (ht : t ∈ sorted) (spared : t ∉ sorted.take n) :
    (σ.session s).lastAliveTime ≤ (σ.session t).lastAliveTime := by
  have hparts := h.2
  rw [← List.take_append_drop n sorted, List.pairwise_append] at hparts
  rw [← List.take_append_drop n sorted, List.mem_append] at ht
  exact hparts.2.2 s hs t (ht.resolve_left spared)

/-- The spared ones are the unauthenticated sessions that are still registered. -/
theorem remaining_perm (filed : σ.Filed) (h : σ.SortedUnauth sorted)
    (isOpen : ∀ s ∈ σ.unauthSessions, (σ.session s).closed = false) (n : Nat) :
    (σ.unauthSessions.filter fun s => s ∈ (σ.closeAll (sorted.take n)).manager.allSessions).Perm
      (sorted.drop n) := by
  have hnodup : sorted.Nodup := h.1.nodup_iff.mpr (nodup_unauthSessions filed)
  have htake : (sorted.take n).Nodup := hnodup.sublist (List.take_sublist n sorted)
  have hparts := hnodup
  rw [← List.take_append_drop n sorted, List.nodup_append] at hparts
  have hregistered : ∀ s ∈ sorted, s ∈ σ.manager.allSessions :=
    fun s hs => (List.mem_filter.mp (h.1.mem_iff.mp hs)).1
  rw [List.perm_ext_iff_of_nodup ((nodup_unauthSessions filed).filter _) hparts.2.1]
  intro s
  rw [List.mem_filter, decide_eq_true_iff, ← h.1.mem_iff]
  constructor
  · rintro ⟨hs, hstill⟩
    rw [← List.take_append_drop n sorted, List.mem_append] at hs
    refine hs.resolve_left fun hclosed => ?_
    exact closeAll_unregistered filed htake hclosed
      (isOpen s (h.1.mem_iff.mp (List.mem_of_mem_take hclosed))) hstill
  · intro hs
    have hmem : s ∈ sorted := List.mem_of_mem_drop hs
    refine ⟨hmem, closeAll_registered filed htake ?_ (hregistered s hmem) ?_⟩
    · exact fun t ht => hregistered t (List.mem_of_mem_take ht)
    · exact fun hclosed => hparts.2.2 s hclosed s hs rfl

theorem unauthCap_of_sorted (filed : σ.Filed) (h : σ.SortedUnauth sorted) :
    UnauthCap σ (σ.cleanupUnauthSessions maxUnauth sorted) maxUnauth σ.unauthSessions.toFinset
      (sorted.take (sorted.length - maxUnauth)) := by
  have hcard : σ.unauthSessions.toFinset.card = sorted.length :=
    (List.toFinset_card_of_nodup (nodup_unauthSessions filed)).trans h.1.length_eq.symm
  have hnodup : sorted.Nodup := h.1.nodup_iff.mpr (nodup_unauthSessions filed)
  rw [cleanupUnauthSessions_eq_closeAll h]
  set closing := sorted.take (sorted.length - maxUnauth) with hclosing
  have hunauth : ∀ s ∈ closing, s ∈ σ.unauthSessions :=
    fun s hs => h.1.mem_iff.mp (List.mem_of_mem_take hs)
  have htake : closing.Nodup := hnodup.sublist (List.take_sublist _ sorted)
  constructor
  case unauthenticated => exact fun s => List.mem_toFinset.trans mem_unauthSessions
  case count =>
    rw [hclosing, List.length_take, hcard]
    omega
  case chosen => exact fun s hs => List.mem_toFinset.mpr (hunauth s hs)
  case once => exact List.nodup_iff_count_le_one.mp htake
  case calls =>
    intro s
    rw [closeAll_session htake]
    split
    · rename_i hs
      rw [List.count_eq_one_of_mem htake hs, shut_closeCalls]
    · rename_i hs
      rw [List.count_eq_zero_of_not_mem hs, Nat.add_zero]
  case oldest =>
    intro s hs t ht spared
    exact take_oldest h _ hs (h.1.mem_iff.mpr (List.mem_toFinset.mp ht)) spared
  case unchanged =>
    intro t ht
    rw [closeAll_session htake, if_neg ht]
  case registered =>
    intro t ht spared
    rw [registered_iff] at ht ⊢
    exact closeAll_registered filed htake (fun s hs => (List.mem_filter.mp (hunauth s hs)).1) ht spared
  case remaining =>
    intro isOpen
    have hremaining := remaining_perm filed h (fun s hs => isOpen s (List.mem_toFinset.mpr hs))
      (sorted.length - maxUnauth)
    have hfilter : (σ.unauthSessions.toFinset.filter fun s => (σ.closeAll closing).Registered s) =
        (σ.unauthSessions.filter fun s => s ∈ (σ.closeAll closing).manager.allSessions).toFinset := by
      ext s
      simp only [Finset.mem_filter, List.mem_toFinset, List.mem_filter, decide_eq_true_iff,
        registered_iff]
    rw [hfilter, List.toFinset_card_of_nodup ((nodup_unauthSessions filed).filter _),
      hremaining.length_eq, List.length_drop, hcard]
    omega

end Cap

/-- For every registry, every cap and every result of the sort, of which there is one, the oldest
unauthenticated sessions over the cap are closed, each once. -/
theorem unauth_sessions_capped (σ : World) (filed : σ.Filed) (maxUnauth : Nat) :
    (∃ sorted, σ.SortedUnauth sorted) ∧
    ∀ sorted, σ.SortedUnauth sorted → ∃ unauth closed,
      UnauthCap σ (σ.cleanupUnauthSessions maxUnauth sorted) maxUnauth unauth closed :=
  ⟨exists_sortedUnauth σ, fun _ h => ⟨_, _, unauthCap_of_sorted filed h⟩⟩

/-- Three clients connect, the second one first by the clock, and one may stay. -/
theorem unauth_sessions_capped_three :
    ∃ σ unauth closed,
      exec (step (.ofTable [] [])) (World.init 4) [.accept 7, .accept 3, .accept 5] = some σ ∧
      UnauthCap σ (σ.cleanupUnauthSessions 1 [1, 2, 0]) 1 unauth closed ∧ closed.length = 2 := by
  let σ := (((World.init 4).accept 7).accept 3).accept 5
  have run : exec (step (.ofTable [] [])) (World.init 4) [.accept 7, .accept 3, .accept 5] =
    some σ := rfl
  have sorted : σ.SortedUnauth [1, 2, 0] := ⟨by decide +kernel, by decide +kernel⟩
  obtain ⟨unauth, closed, hcap⟩ := (unauth_sessions_capped σ (filed_of_run run) 1).2 _ sorted
  refine ⟨σ, unauth, closed, run, hcap, ?_⟩
  have hunauth : unauth = σ.unauthSessions.toFinset := by
    ext s
    rw [hcap.unauthenticated, List.mem_toFinset, mem_unauthSessions]
  rw [hcap.count, hunauth]
  decide +kernel

theorem closeSession_withToClose (σ : World) (toClose : List SessionPtr) (s : SessionPtr) :
    { σ with toClose := toClose }.closeSession s = { σ.closeSession s with toClose := toClose } := by
  unfold World.closeSession
  split <;> rfl

theorem exec_sweeps {env : Env} (sessions : List SessionPtr) {σ : World}
    (live : ∀ s ∈ sessions, σ.live s = true) :
    exec (step env) { σ with toClose := sessions } (sessions.map fun s => .on s .sweep) =
      some { σ.closeAll sessions with toClose := [] } := by
  induction sessions generalizing σ with
  | nil => rfl
  | cons s sessions ih =>
    rw [List.map_cons, exec_cons_eq_some]
    refine ⟨{ σ.closeSession s with toClose := sessions }, ?_, ?_⟩
    · have hlive : σ.live s = true := live s List.mem_cons_self
      simp only [step, World.event, hlive, if_true, List.mem_cons_self, List.erase_cons_head]
      rw [closeSession_withToClose]
    · apply ih
      intro t ht
      rw [World.closeSession_live]
      exact live t (List.mem_cons_of_mem s ht)

/-- A cleanup whose calls of `close_session` nobody interrupts. -/
theorem exec_cleanupUnauth {env : Env} {σ : World} {maxUnauth : Nat} {sorted : List SessionPtr}
    (h : σ.SortedUnauth sorted) (swept : σ.toClose = []) (live : ∀ s ∈ sorted, σ.live s = true) :
    exec (step env) σ (.cleanupUnauth maxUnauth sorted ::
      (sorted.take (sorted.length - maxUnauth)).map fun s => .on s .sweep) =
      some { σ.cleanupUnauthSessions maxUnauth sorted with toClose := [] } := by
  rw [exec_cons_eq_some]
  refine ⟨{ σ with toClose := sorted.take (sorted.length - maxUnauth) }, ?_, ?_⟩
  · rw [step, if_pos ⟨h.1, h.2⟩, swept, List.nil_append]
  · rw [cleanupUnauthSessions_eq_closeAll h]
    exact exec_sweeps _ fun s hs => live s (List.mem_of_mem_take hs)

end DBMiddleWare
