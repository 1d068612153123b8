import DBMiddleWare.Authentication
import DBMiddleWare.Lifetime
import DBMiddleWare.Twins

/-!
# A session next to strangers

Clients that do not know the secret share the acceptor, the registry and the nickname
mutex with the others. A session is at every moment what it would be without them: the run
with their events left out leads it to the same state.
-/

namespace DBMiddleWare

open Execution
set_option autoImplicit false

/-- Whether a step is seen by the session: connections number the sessions, and a scan for idle
ones judges each by its own time. -/
def Act.concerns (s : SessionPtr) : Act → Bool
  | .accept _ => true
  | .cleanupInactive _ _ _ => true
  | .cleanupUnauth _ _ => false
  | .on t _ => t = s

/-- The session, and what it sees of the rest, are the same in both servers. -/
structure Alone (s : SessionPtr) (σ τ : World) : Prop where
  session : σ.session s = τ.session s
  live : σ.live s = τ.live s
  nextPtr : σ.nextPtr = τ.nextPtr
  shardCount : σ.manager.shardCount = τ.manager.shardCount
  mutex : σ.nicknameMutex = τ.nicknameMutex
  holder : ∀ t, σ.nicknameMutex = some t → t = s
  owner : ∀ n, σ.manager.owner n = τ.manager.owner n
  owns : ∀ n t, σ.manager.owner n = some t → t = s
  evicts : ∀ n prev, (σ.session s).phase = .loginEvict n prev → prev = s
  toClose : σ.toClose.count s = τ.toClose.count s
  filed : ∀ shard id, (σ.manager.sessionBuckets shard).lookup id = some s ↔
    (τ.manager.sessionBuckets shard).lookup id = some s

section Alone
variable {s : SessionPtr} {σ τ : World}

theorem Alone.find (h : Alone s σ τ) (n : String) :
    σ.findSessionByNickname n = τ.findSessionByNickname n := by
  unfold World.findSessionByNickname
  rw [← h.owner n]
  cases howner : σ.manager.owner n with
  | none => rfl
  | some t =>
    rw [h.owns n t howner]
    simp only [Option.bind_some, World.lock, h.live]

theorem mem_allSessions_iff (m : SessionManager) (s : SessionPtr) : s ∈ m.allSessions ↔
    ∃ shard < m.shardCount, ∃ id, (m.sessionBuckets shard).lookup id = some s := by
  simp only [SessionManager.allSessions, SessionManager.shardSessions, List.mem_flatMap, List.mem_range,
    List.mem_map]
  constructor
  · rintro ⟨shard, hlt, ⟨id, t⟩, hmem, rfl⟩
    exact ⟨shard, hlt, id, AList.mem_lookup_iff.mpr hmem⟩
  · rintro ⟨shard, hlt, id, hlookup⟩
    exact ⟨shard, hlt, ⟨id, s⟩, AList.mem_lookup_iff.mp hlookup, rfl⟩

theorem Alone.mem_allSessions (h : Alone s σ τ) :
    s ∈ σ.manager.allSessions ↔ s ∈ τ.manager.allSessions := by
  rw [mem_allSessions_iff, mem_allSessions_iff, h.shardCount]
  simp only [h.filed]

theorem Alone.evicting (h : Alone s σ τ) : σ.evicting s = τ.evicting s := by
  unfold World.evicting
  rw [← h.mutex]
  cases hmutex : σ.nicknameMutex with
  | none => rfl
  | some t =>
    rw [h.holder t hmutex]
    simp only [h.session]

theorem Alone.owned (h : Alone s σ τ) : σ.owned s = τ.owned s := by
  have hregistered : σ.manager.allSessions.contains s = τ.manager.allSessions.contains s := by
    rw [Bool.eq_iff_iff, List.contains_iff_mem, List.contains_iff_mem]
    exact h.mem_allSessions
  have hcollected : σ.toClose.contains s = τ.toClose.contains s := by
    rw [Bool.eq_iff_iff, List.contains_iff_mem, List.contains_iff_mem, ← List.count_pos_iff,
      ← List.count_pos_iff, h.toClose]
  unfold World.owned
  rw [hregistered, hcollected, h.session, h.evicting]

theorem Alone.removeSession (h : Alone s σ τ) (sessionId : Int32) :
    Alone s (σ.removeSession sessionId) (τ.removeSession sessionId) := by
  have hshard : toSize (σ.manager.getShard sessionId) = toSize (τ.manager.getShard sessionId) := by
    unfold SessionManager.getShard
    rw [h.shardCount]
  refine { h with filed := fun shard id => ?_ }
  change (Function.update σ.manager.sessionBuckets (toSize (σ.manager.getShard sessionId))
      ((σ.manager.bucket sessionId).erase sessionId) shard).lookup id = some s ↔
    (Function.update τ.manager.sessionBuckets (toSize (τ.manager.getShard sessionId))
      ((τ.manager.bucket sessionId).erase sessionId) shard).lookup id = some s
  unfold SessionManager.bucket
  rw [hshard]
  by_cases hs : shard = toSize (τ.manager.getShard sessionId)
  · subst hs
    rw [Function.update_self, Function.update_self]
    by_cases hid : id = sessionId
    · subst hid
      simp
    · rw [AList.lookup_erase_ne hid, AList.lookup_erase_ne hid]
      exact h.filed _ id
  · rw [Function.update_of_ne hs, Function.update_of_ne hs]
    exact h.filed shard id

theorem Alone.modify (h : Alone s σ τ) {f : Session → Session}
    (evicts : ∀ n prev, (f (σ.session s)).phase = .loginEvict n prev → prev = s) :
    Alone s (σ.modify s f) (τ.modify s f) := by
  refine { h with session := ?_, evicts := fun n prev hp => ?_ }
  · rw [World.modify_session_self, World.modify_session_self, h.session]
  · rw [World.modify_session_self] at hp
    exact evicts n prev hp

theorem Alone.index (h : Alone s σ τ) (nickname : String) :
    Alone s (σ.indexNickname s nickname) (τ.indexNickname s nickname) := by
  have hmoved : Alone s (σ.modify s fun o => { o with registrations := o.registrations ++ [nickname] })
      (τ.modify s fun o => { o with registrations := o.registrations ++ [nickname] }) :=
      h.modify h.evicts
  refine { hmoved with owner := fun n => ?_, owns := fun n t hn => ?_ }
  · change (σ.manager.setOwner nickname s).owner n = (τ.manager.setOwner nickname s).owner n
    rw [SessionManager.owner_setOwner, SessionManager.owner_setOwner, h.owner n]
  · change (σ.manager.setOwner nickname s).owner n = some t at hn
    rw [SessionManager.owner_setOwner] at hn
    split at hn
    · exact (Option.some.inj hn).symm
    · exact h.owns n t hn

end Alone

theorem alone_twin (s : SessionPtr) : Twin (fun t => t = s) (Alone s) where
  session := by
    rintro σ τ _ h rfl
    exact h.session
  mutex _ _ h := h.mutex
  find _ _ n h := h.find n
  found σ τ n t h hfind := by
    rw [← control_find] at hfind
    exact h.owns n t (Option.filter_eq_some_iff.mp hfind).1
  evicted := by
    rintro σ τ _ n prev h rfl hp
    exact h.evicts n prev hp
  collected := by
    rintro σ τ _ h rfl
    rw [← List.count_pos_iff, ← List.count_pos_iff, h.toClose]
  owned := by
    rintro σ τ _ h rfl
    exact h.owned
  modify := by
    rintro σ τ _ f h rfl evicts
    exact h.modify evicts
  close := by
    rintro σ τ t h rfl
    have hshut : Alone t (σ.modify t Session.shut) (τ.modify t Session.shut) :=
      h.modify fun n prev hp => h.evicts n prev ((SessionControl.shut_phase _).symm.trans hp)
    unfold World.closeSession
    rw [h.session]
    split
    · exact hshut
    · exact hshut.removeSession _
  index := by
    rintro σ τ _ n h rfl
    exact h.index n
  lock := by
    rintro σ τ t h rfl
    exact { h with mutex := rfl, holder := fun _ heq => (Option.some.inj heq).symm }
  unlock := by
    rintro σ τ h
    exact { h with mutex := rfl, holder := fun _ heq => nomatch heq }
  take := by
    rintro σ τ t h rfl
    refine { h with toClose := ?_ }
    rw [List.count_erase_self, List.count_erase_self, h.toClose]
  destroy := by
    rintro σ τ t h rfl
    refine { h with live := ?_ }
    change Function.update σ.live t false t = Function.update τ.live t false t
    rw [Function.update_self, Function.update_self]

section Stranger
variable {env : Env} {σ σ' : World} {a : Act} {t : SessionPtr}

/-- A session that is in no login registers nothing and evicts nobody. -/
theorem event_outside {e : Event} (outside : (σ.session t).phase.pending = none)
    (h : Happened env σ t e σ') : Local t σ σ' ∧ Undisturbed σ σ' := by
  have hnot : ¬ ((∃ n, (σ.session t).phase = .loginRegister n ∧ σ' = σ.registerStep t n) ∨
      ∃ n prev, (σ.session t).phase = .loginEvict n prev ∧ σ' = σ.evictStep t n prev) := by
    rintro (⟨n, hp, _⟩ | ⟨n, prev, hp, _⟩)
    · rw [hp] at outside
      cases outside
    · rw [hp] at outside
      cases outside
  constructor
  · exact ((local_ownSteps t).event h).resolve_right fun h => hnot h.2
  · exact ((Undisturbed.ownSteps t).event h).resolve_right fun h => hnot h.2

theorem received_step (hs : step env σ a = some σ') (existing : t < σ.nextPtr) :
    (σ.session t).received <+: (σ'.session t).received := by
  cases step_move hs existing with
  | keep other intake stays =>
    rw [show (σ'.session t).received = (σ.session t).received from congrArg (fun i => i.2.1) intake]
  | read data act free loop => rw [(loop_eq_iff.mp loop).2.2.1]
  | take packet mgr act at_ extract loop =>
    rw [(loop_eq_iff.mp loop).2.2.1]
    exact List.prefix_append _ _
  | leave mgr act at_ extract intake left =>
    rw [show (σ'.session t).received = (σ.session t).received from congrArg (fun i => i.2.1) intake]

theorem received_exec {more : List Act} (run : exec (step env) σ more = some σ')
    (existing : t < σ.nextPtr) :
    (σ.session t).received <+: (σ'.session t).received := by
  refine (invariant (I := fun τ => t < τ.nextPtr ∧ (σ.session t).received <+: (τ.session t).received)
    (fun τ a τ' h hs => ⟨Nat.lt_of_lt_of_le h.1 (nextPtr_le_of_step hs),
      h.2.trans (received_step hs h.1)⟩)
    ⟨existing, List.prefix_refl _⟩ run).2

end Stranger

section Run
variable {env : Env} {shardCount : Nat} {acts more : List Act} {σ σ' : World} {t : SessionPtr}

/-- Who has not sent the secret has not been granted a login. -/
theorem not_granted (run : exec (step env) (World.init shardCount) acts = some σ)
    (rest : exec (step env) σ more = some σ')
    (stranger : ∀ packet ∈ (σ'.session t).received, ¬ env.secret <+: packet) :
    ¬ Granted env shardCount acts t := by
  rintro ⟨pre, post, τ, nickname, packet, rfl, hpre, hphase, _, hlast, text, _, rfl, _⟩
  obtain ⟨τ', hτ, hpost⟩ := exec_append_eq_some.mp run
  obtain rfl := Option.some.inj (hpre.symm.trans hτ)
  have existing : t < τ.nextPtr := by
    apply (known_of_run hpre).begun t
    change (τ.session t).phase ≠ .starting
    rw [hphase]
    intro h
    cases h
  have hreceived := received_exec (exec_append_eq_some.mpr ⟨σ, hpost, rest⟩) existing
  exact stranger _ (hreceived.subset (List.mem_of_getLast? hlast)) (List.prefix_append _ _)

/-- As long as ids are not reused, a new connection replaces no session. -/
theorem accept_fresh (run : exec (step env) (World.init shardCount) acts = some σ)
    (issued : σ.nextPtr < 2 ^ 32) (now : Int) : σ.accept now =
      { σ with
        session := Function.update σ.session σ.nextPtr (.new σ.sessionCounter now)
        live := Function.update σ.live σ.nextPtr true
        nextPtr := σ.nextPtr + 1
        sessionCounter := σ.sessionCounter + 1
        manager := σ.manager.insertSession σ.sessionCounter σ.nextPtr } := by
  have hnone : σ.manager.findSession σ.sessionCounter = none := by
    cases hfind : σ.manager.findSession σ.sessionCounter with
    | none => rfl
    | some t =>
      obtain ⟨ht, hid, _⟩ := (findSession_iff run (Nat.le_of_lt issued)).mp hfind
      have hissued : (σ.session t).sessionId = issuedId t :=
        (openFiled_of_run run (Nat.le_of_lt issued)).id t ht
      rw [hissued, counter_of_run run] at hid
      exact absurd (issuedId_inj (Nat.lt_trans ht issued) issued hid) (Nat.ne_of_lt ht)
  unfold World.accept World.addSession
  simp only [Function.update_self, Session.new, hnone]

/-- Where a session is filed is read off the session. -/
theorem lookup_iff (run : exec (step env) (World.init shardCount) acts = some σ)
    (issued : σ.nextPtr ≤ 2 ^ 32) {shard : Nat}
    {id : Int32} : (σ.manager.sessionBuckets shard).lookup id = some t ↔
      shard = σ.manager.shardIndex id ∧ t < σ.nextPtr ∧ (σ.session t).sessionId = id ∧
        (σ.session t).socketOpen = true := by
  rw [← findSession_iff run issued]
  constructor
  · exact fun h => ShardedTable.find_eq_some_of_mem (filed_of_run run).placed (AList.mem_lookup_iff.mp h)
  · rintro ⟨rfl, h⟩
    exact h

end Run

section Mirror
variable {env : Env} {shardCount : Nat} {acts acts' : List Act} {σ τ σ' : World} {s : SessionPtr}

theorem filed_alike (run : exec (step env) (World.init shardCount) acts = some σ)
    (run' : exec (step env) (World.init shardCount) acts' = some τ) (issued : σ.nextPtr ≤ 2 ^ 32)
    (session : σ.session s = τ.session s) (nextPtr : σ.nextPtr = τ.nextPtr) (shard : Nat) (id : Int32) :
    (σ.manager.sessionBuckets shard).lookup id = some s ↔
      (τ.manager.sessionBuckets shard).lookup id = some s := by
  have hshard : σ.manager.shardIndex id = τ.manager.shardIndex id := by
    unfold SessionManager.shardIndex SessionManager.getShard
    rw [shardCount_of_run run, shardCount_of_run run']
  rw [lookup_iff run issued, lookup_iff run' (nextPtr ▸ issued), hshard, session, nextPtr]

theorem Alone.accept (h : Alone s σ τ) (run : exec (step env) (World.init shardCount) acts = some σ)
    (run' : exec (step env) (World.init shardCount) acts' = some τ) (issued : σ.nextPtr < 2 ^ 32)
    (now : Int) :
    Alone s (σ.accept now) (τ.accept now) := by
  have issued' : τ.nextPtr < 2 ^ 32 := h.nextPtr ▸ issued
  have hcounter : σ.sessionCounter = τ.sessionCounter := by
    rw [counter_of_run run, counter_of_run run', h.nextPtr]
  have hsession : (σ.accept now).session s = (τ.accept now).session s := by
    rw [accept_fresh run issued, accept_fresh run' issued']
    change Function.update σ.session _ _ s = Function.update τ.session _ _ s
    rw [← h.nextPtr, ← hcounter]
    by_cases hs : s = σ.nextPtr
    · rw [hs, Function.update_self, Function.update_self]
    · rw [Function.update_of_ne hs, Function.update_of_ne hs, h.session]
  have hlive : (σ.accept now).live s = (τ.accept now).live s := by
    rw [accept_fresh run issued, accept_fresh run' issued']
    change Function.update σ.live _ _ s = Function.update τ.live _ _ s
    rw [← h.nextPtr]
    by_cases hs : s = σ.nextPtr
    · rw [hs, Function.update_self, Function.update_self]
    · rw [Function.update_of_ne hs, Function.update_of_ne hs, h.live]
  have hnext : (σ.accept now).nextPtr = (τ.accept now).nextPtr := by
    rw [(accept_counter σ now).2, (accept_counter τ now).2, h.nextPtr]
  have hundisturbed : Undisturbed σ (σ.accept now) := .accept σ now
  have hundisturbed' : Undisturbed τ (τ.accept now) := .accept τ now
  have hrun : exec (step env) (World.init shardCount) (acts ++ [.accept now]) = some (σ.accept now) :=
    exec_concat_eq_some.mpr ⟨σ, run, rfl⟩
  have hrun' : exec (step env) (World.init shardCount) (acts' ++ [.accept now]) = some (τ.accept now) :=
    exec_concat_eq_some.mpr ⟨τ, run', rfl⟩
  constructor
  · exact hsession
  · exact hlive
  · exact hnext
  · rw [shardCount_of_run hrun, shardCount_of_run hrun']
  · rw [hundisturbed.mutex, hundisturbed'.mutex, h.mutex]
  · rw [hundisturbed.mutex]
    exact h.holder
  · intro n
    rw [hundisturbed.owner, hundisturbed'.owner, h.owner]
  · intro n t
    rw [hundisturbed.owner]
    exact h.owns n t
  · exact fun n prev hp => h.evicts n prev (hundisturbed.evict s n prev hp)
  · rw [accept_toClose, accept_toClose, h.toClose]
  · apply filed_alike hrun hrun' _ hsession hnext
    rw [(accept_counter σ now).2]
    exact issued

theorem Alone.count_shardSessions (h : Alone s σ τ) (filed : σ.Filed) (filed' : τ.Filed) (shard : Nat) :
    (σ.manager.shardSessions shard).count s = (τ.manager.shardSessions shard).count s := by
  have hmem : s ∈ σ.manager.shardSessions shard ↔ s ∈ τ.manager.shardSessions shard := by
    simp only [SessionManager.shardSessions, List.mem_map]
    constructor
    · rintro ⟨⟨id, _⟩, hmem, rfl⟩
      exact ⟨⟨id, _⟩, AList.mem_lookup_iff.mp
        ((h.filed shard id).mp (AList.mem_lookup_iff.mpr hmem)), rfl⟩
    · rintro ⟨⟨id, _⟩, hmem, rfl⟩
      exact ⟨⟨id, _⟩, AList.mem_lookup_iff.mp
        ((h.filed shard id).mpr (AList.mem_lookup_iff.mpr hmem)), rfl⟩
  rw [(nodup_shardSessions filed shard).count, (nodup_shardSessions filed' shard).count]
  simp only [hmem]

theorem Alone.inactive (h : Alone s σ τ) (filed : σ.Filed) (filed' : τ.Filed) (shard : Nat)
    (now maxIdleTime : Int) :
    Alone s { σ with toClose := σ.toClose ++ σ.inactiveSessions shard now maxIdleTime }
      { τ with toClose := τ.toClose ++ τ.inactiveSessions shard now maxIdleTime } := by
  refine { h with toClose := ?_ }
  change (σ.toClose ++ _).count s = (τ.toClose ++ _).count s
  rw [List.count_append, List.count_append, h.toClose]
  congr 1
  unfold World.inactiveSessions
  by_cases hidle : maxIdleTime < now - (σ.session s).lastAliveTime
  · rw [List.count_filter (by simpa using hidle), List.count_filter (by simpa [← h.session] using hidle)]
    exact h.count_shardSessions filed filed' shard
  · rw [List.count_eq_zero.mpr, List.count_eq_zero.mpr]
    · simp [← h.session, hidle]
    · simp [hidle]

/-- What concerns the session happens to it in both servers. -/
theorem Alone.kept {a : Act} (h : Alone s σ τ)
    (run : exec (step env) (World.init shardCount) acts = some σ)
    (run' : exec (step env) (World.init shardCount) acts' = some τ) (issued : σ'.nextPtr ≤ 2 ^ 32)
    (hs : step env σ a = some σ') (concerns : a.concerns s = true) :
    ∃ τ', step env τ a = some τ' ∧ Alone s σ' τ' := by
  cases a with
  | accept now =>
    cases hs
    rw [(accept_counter σ now).2] at issued
    exact ⟨_, rfl, h.accept run run' issued now⟩
  | cleanupInactive shard now maxIdleTime =>
    simp only [step, Option.ite_none_right_eq_some, Option.some.injEq] at hs
    obtain ⟨hshard, rfl⟩ := hs
    refine ⟨_, if_pos (h.shardCount ▸ hshard), ?_⟩
    exact h.inactive (filed_of_run run) (filed_of_run run') shard now maxIdleTime
  | cleanupUnauth maxUnauth sorted => cases concerns
  | on t e =>
    obtain rfl : t = s := of_decide_eq_true concerns
    simp only [step, Option.ite_none_right_eq_some] at hs
    obtain ⟨τ', he, h'⟩ := rel_some ((alone_twin t).event h rfl env e) hs.2
    exact ⟨τ', (if_pos (h.live ▸ hs.1)).trans he, h'⟩

/-- What strangers do leaves the session and what it sees as they were. -/
theorem Alone.left {a : Act} (h : Alone s σ τ)
    (run : exec (step env) (World.init shardCount) acts = some σ)
    (run' : exec (step env) (World.init shardCount) acts' = some τ) (issued : σ'.nextPtr ≤ 2 ^ 32)
    (outside : ∀ t ≠ s, (σ.session t).phase.pending = none)
    (spared : ∀ maxUnauth sorted, a = .cleanupUnauth maxUnauth sorted →
      s ∉ sorted.take (sorted.length - maxUnauth))
    (hs : step env σ a = some σ') (elsewhere : a.concerns s = false) : Alone s σ' τ := by
  have run'' : exec (step env) (World.init shardCount) (acts ++ [a]) = some σ' :=
    exec_concat_eq_some.mpr ⟨σ, run, hs⟩
  cases a with
  | accept now => cases elsewhere
  | cleanupInactive shard now maxIdleTime => cases elsewhere
  | cleanupUnauth maxUnauth sorted =>
    simp only [step, Option.ite_none_right_eq_some, Option.some.injEq] at hs
    obtain ⟨_, rfl⟩ := hs
    refine { h with toClose := ?_ }
    change (σ.toClose ++ _).count s = _
    rw [List.count_append, List.count_eq_zero.mpr (spared maxUnauth sorted rfl), Nat.add_zero, h.toClose]
  | on t e =>
    have hne : t ≠ s := of_decide_eq_false elsewhere
    have hstep := hs
    simp only [step, Option.ite_none_right_eq_some] at hs
    obtain ⟨hlocal, hundisturbed⟩ := event_outside (outside t hne) (event_cases hs.2)
    have hsession : σ'.session s = σ.session s := (hlocal s hne.symm).1
    have hnext : σ'.nextPtr = σ.nextPtr := event_nextPtr (event_cases hs.2)
    have hlive : σ'.live s = σ.live s := by
      cases hlive : σ.live s with
      | true =>
        apply live_step hlive _ hstep
        intro heq
        exact hne (Act.on.inj heq).1
      | false =>
        by_cases existing : s < σ.nextPtr
        · exact (dead_step existing hlive hstep).2
        · apply Bool.eq_false_iff.mpr
          intro hlive'
          exact existing (hnext ▸ (known_of_run run'').live s hlive')
    constructor
    · rw [hsession, h.session]
    · rw [hlive, h.live]
    · rw [hnext, h.nextPtr]
    · rw [shardCount_step hstep, h.shardCount]
    · rw [hundisturbed.mutex, h.mutex]
    · rw [hundisturbed.mutex]
      exact h.holder
    · intro n
      rw [hundisturbed.owner, h.owner]
    · intro n u
      rw [hundisturbed.owner]
      exact h.owns n u
    · rw [hsession]
      exact h.evicts
    · rw [event_toClose (event_cases hs.2), ← h.toClose]
      split
      · exact List.count_erase_of_ne hne.symm
      · rfl
    · exact filed_alike run'' run' issued (hsession.trans h.session) (hnext.trans h.nextPtr)

end Mirror

/-- As long as nobody else sends the secret and the ids are not used up, a session is at the end of a
run where the run without the events of the others leads it, with the same nicknames. -/
theorem strangers_leave_session (env : Env) (shardCount : Nat) (acts : List Act) (σ : World)
    (run : exec (step env) (World.init shardCount) acts = some σ) (issued : σ.nextPtr ≤ 2 ^ 32)
    (s : SessionPtr)
    (strangers : ∀ t < σ.nextPtr, t ≠ s → ∀ packet ∈ (σ.session t).received, ¬ env.secret <+: packet)
    (spared : ∀ maxUnauth sorted, .cleanupUnauth maxUnauth sorted ∈ acts →
      s ∉ sorted.take (sorted.length - maxUnauth)) :
    ∃ τ, exec (step env) (World.init shardCount) (acts.filter (Act.concerns s)) = some τ ∧
      τ.session s = σ.session s ∧ τ.live s = σ.live s ∧
      ∀ n, τ.findSessionByNickname n = σ.findSessionByNickname n := by
  have hrest : ∀ bs a τ τ', bs ++ [a] <+: acts → exec (step env) (World.init shardCount) bs = some τ →
      step env τ a = some τ' → ∃ more, exec (step env) τ' more = some σ := by
    rintro bs a τ τ' ⟨more, rfl⟩ hrun hs
    obtain ⟨τ'', hτ'', hrest⟩ := exec_append_eq_some.mp run
    obtain rfl := Option.some.inj (hτ''.symm.trans (exec_concat_eq_some.mpr ⟨τ, hrun, hs⟩))
    exact ⟨more, hrest⟩
  have hstart : Alone s (World.init shardCount) (World.init shardCount) :=
    { session := rfl, live := rfl, nextPtr := rfl, shardCount := rfl, mutex := rfl
      owner := fun _ => rfl
      toClose := rfl
      filed := fun _ _ => Iff.rfl
      holder := fun _ h => by cases h
      owns := fun _ _ h => by cases h
      evicts := fun _ _ h => by cases h }
  have hmirror : ∃ τ, exec (step env) (World.init shardCount) (acts.filter (Act.concerns s)) = some τ ∧
      Alone s σ τ := by
    apply exec_filtered (Act.concerns s) hstart _ _ run
    · intro bs σ₁ τ₁ a σ₁' hbs hrun hrun' h hs concerns
      obtain ⟨more, hmore⟩ := hrest bs a σ₁ σ₁' hbs hrun hs
      exact h.kept hrun hrun' (Nat.le_trans (nextPtr_exec hmore) issued) hs concerns
    · intro bs σ₁ τ₁ a σ₁' hbs hrun hrun' h hs elsewhere
      obtain ⟨more, hmore⟩ := hrest bs a σ₁ σ₁' hbs hrun hs
      have hlater : exec (step env) σ₁ (a :: more) = some σ := exec_cons_eq_some.mpr ⟨σ₁', hs, hmore⟩
      refine h.left hrun hrun' (Nat.le_trans (nextPtr_exec hmore) issued) (fun t ht => ?_)
        (fun maxUnauth sorted ha => ?_) hs elsewhere
      · -- a stranger in a login would have been granted it
        cases hp : (σ₁.session t).phase.pending with
        | none => rfl
        | some n =>
          have hstarted : (σ₁.session t).phase ≠ .starting := by
            intro hphase
            rw [hphase] at hp
            cases hp
          have hknown : t < σ₁.nextPtr := (known_of_run hrun).begun t hstarted
          have hstranger := strangers t (Nat.lt_of_lt_of_le hknown (nextPtr_exec hlater)) ht
          exact absurd ((authentic_of_run hrun).pending t n hp) (not_granted hrun hlater hstranger)
      · subst ha
        exact spared maxUnauth sorted (hbs.subset (List.mem_append_right bs (List.mem_singleton_self _)))
  obtain ⟨τ, run', h⟩ := hmirror
  exact ⟨τ, run', h.session.symm, h.live.symm, fun n => (h.find n).symm⟩

/-- A client that does not know the secret asks for a nickname and is closed; another one logs in
with it. -/
theorem strangers_leave_session_login :
    let env := Env.ofTable [7] [loginText "a"]
    let acts := connects 0 ++ sends 0 [(loginText "a").1] 3 ++ connects 1 ++
      sends 1 [[7] ++ (loginText "a").1] 8
    ∃ σ τ, exec (step env) (World.init 4) acts = some σ ∧
      exec (step env) (World.init 4) (acts.filter (Act.concerns 1)) = some τ ∧
      (σ.session 0).closed = true ∧ (σ.session 1).acked = ["a"] ∧ τ.session 1 = σ.session 1 := by
  intro env acts
  have hrun : (exec (step env) (World.init 4) acts).map
      (fun σ => (σ.nextPtr, (σ.session 0).received, (σ.session 0).closed, (σ.session 1).acked)) =
      some (2, [(loginText "a").1], true, ["a"]) := by decide +kernel
  obtain ⟨σ, run, hview⟩ := Option.map_eq_some_iff.mp hrun
  simp only [Prod.mk.injEq] at hview
  obtain ⟨hnext, hreceived, hclosed, hacked⟩ := hview
  obtain ⟨τ, run', hsession, _⟩ := strangers_leave_session env 4 acts σ run (by rw [hnext]; decide) 1
    (by
      intro t ht hne packet hpacket
      have hzero : t = 0 := by
        rw [hnext] at ht
        exact (Nat.le_one_iff_eq_zero_or_eq_one.mp (Nat.le_of_lt_succ ht)).resolve_right hne
      subst hzero
      rw [hreceived, List.mem_singleton] at hpacket
      subst hpacket
      decide)
    (by simp [acts, connects, sends])
  exact ⟨σ, τ, run, run', hclosed, hacked, hsession⟩

end DBMiddleWare
