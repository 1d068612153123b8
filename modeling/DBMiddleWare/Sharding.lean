import Mathlib.Data.List.Forall2
import DBMiddleWare.Registry

/-!
# The sharded registry is one map

The registry answers every sequence of calls as a single map from ids to sessions does
that closes the sessions it replaces.
-/

namespace DBMiddleWare

set_option autoImplicit false

inductive Call where
  | addSession (s : SessionPtr)
  | removeSession (sessionId : Int32)
  | findSession (sessionId : Int32)
  | sessionCount
  | getTotalSessionCount
  | forEachSession
  deriving Repr, DecidableEq

inductive Answer where
  | done
  | session (found : Option SessionPtr)
  | count (total : Nat)
  /-- the sessions the callback is called with -/
  | sessions (visited : List SessionPtr)
  deriving Repr, DecidableEq

/-- The visits of `for_each_session` may come in another order. -/
inductive Answer.Agrees : Answer → Answer → Prop where
  | same (a : Answer) : Agrees a a
  | visits {visited visited' : List SessionPtr} (perm : visited.Perm visited') :
      Agrees (.sessions visited) (.sessions visited')

namespace SessionManager

def sumBuckets (m : SessionManager) : Nat :=
  (List.range m.shardCount).foldl (fun total shard => total + (m.sessionBuckets shard).entries.length) 0

def sessionCount (m : SessionManager) : Nat := m.sumBuckets

def getTotalSessionCount (m : SessionManager) : Nat := m.sumBuckets

end SessionManager

def World.call (σ : World) : Call → World × Answer
  | .addSession s => (σ.addSession s, .done)
  | .removeSession sessionId => (σ.removeSession sessionId, .session (σ.manager.findSession sessionId))
  | .findSession sessionId => (σ, .session (σ.manager.findSession sessionId))
  | .sessionCount => (σ, .count σ.manager.sessionCount)
  | .getTotalSessionCount => (σ, .count σ.manager.getTotalSessionCount)
  | .forEachSession => (σ, .sessions σ.manager.allSessions)

/-- The registry without shards. -/
structure SingleMap where
  session : SessionPtr → Session
  sessions : AList fun _ : Int32 => SessionPtr

namespace SingleMap

def closeSession (ρ : SingleMap) (s : SessionPtr) : SingleMap where
  session := Function.update ρ.session s (ρ.session s).shut
  sessions := if (ρ.session s).closed then ρ.sessions else ρ.sessions.erase (ρ.session s).sessionId

def addSession (ρ : SingleMap) (s : SessionPtr) : SingleMap :=
  let sessionId := (ρ.session s).sessionId
  let replaced := ρ.sessions.lookup sessionId
  let ρ := { ρ with sessions := ρ.sessions.insert sessionId s }
  match replaced with
  | some r => if (ρ.session r).closed then ρ else ρ.closeSession r
  | none => ρ

def call (ρ : SingleMap) : Call → SingleMap × Answer
  | .addSession s => (ρ.addSession s, .done)
  | .removeSession sessionId =>
    ({ ρ with sessions := ρ.sessions.erase sessionId }, .session (ρ.sessions.lookup sessionId))
  | .findSession sessionId => (ρ, .session (ρ.sessions.lookup sessionId))
  | .sessionCount => (ρ, .count ρ.sessions.entries.length)
  | .getTotalSessionCount => (ρ, .count ρ.sessions.entries.length)
  | .forEachSession => (ρ, .sessions (ρ.sessions.entries.map Sigma.snd))

end SingleMap

/-- The state after a sequence of calls, and the answers to them. -/
def answers {S : Type} (call : S → Call → S × Answer) : S → List Call → S × List Answer
  | x, [] => (x, [])
  | x, c :: cs =>
    let rest := answers call (call x c).1 cs
    (rest.1, (call x c).2 :: rest.2)

section Index

theorem toSize_ofNat {n : Nat} (h : n < 2 ^ 31) : toSize (Int32.ofNat n) = n := by
  have hint : (Int32.ofNat n).toInt64.toInt = n := by
    rw [Int32.toInt_toInt64, Int32.toInt_ofNat_of_lt h]
  have hnonneg : 0 ≤ (Int32.ofNat n).toInt64 := by
    rw [Int64.le_iff_toInt_le, hint]
    exact Int.natCast_nonneg n
  rw [toSize, Int64.toNat_toUInt64_of_le hnonneg, Int64.toNatClampNeg, hint, Int.toNat_natCast]

variable {m : SessionManager}

/-- The index is in range although it passes through `int`. -/
theorem shardIndex_eq (positive : 0 < m.shardCount) (small : m.shardCount ≤ 2 ^ 31) (id : Int32) :
    m.shardIndex id = toSize id % m.shardCount :=
  toSize_ofNat (Nat.lt_of_lt_of_le (Nat.mod_lt _ positive) small)

theorem shardIndex_lt (positive : 0 < m.shardCount) (small : m.shardCount ≤ 2 ^ 31) (id : Int32) :
    m.shardIndex id < m.shardCount := by
  rw [shardIndex_eq positive small]
  exact Nat.mod_lt _ positive

end Index

structure Mirrors (σ : World) (ρ : SingleMap) : Prop where
  session : σ.session = ρ.session
  placed : ShardedTable.Placed σ.manager.shardIndex σ.manager.sessionBuckets
  lookup : ∀ id, σ.manager.findSession id = ρ.sessions.lookup id

section Simulation
variable {σ : World} {ρ : SingleMap}

theorem sumBuckets_eq_length (m : SessionManager) :
    m.sumBuckets = (ShardedTable.entries m.shardCount m.sessionBuckets).length :=
  (ShardedTable.length_entries m.shardCount m.sessionBuckets).symm

theorem allSessions_eq_map (m : SessionManager) :
    m.allSessions = (ShardedTable.entries m.shardCount m.sessionBuckets).map Sigma.snd := by
  rw [ShardedTable.entries, List.map_flatMap]
  rfl

theorem Mirrors.perm (h : Mirrors σ ρ) (range : ∀ id, σ.manager.shardIndex id < σ.manager.shardCount) :
    (ShardedTable.entries σ.manager.shardCount σ.manager.sessionBuckets).Perm ρ.sessions.entries :=
  ShardedTable.entries_perm h.placed range h.lookup

theorem Mirrors.count (h : Mirrors σ ρ) (range : ∀ id, σ.manager.shardIndex id < σ.manager.shardCount) :
    σ.manager.sumBuckets = ρ.sessions.entries.length := by
  rw [sumBuckets_eq_length]
  exact (h.perm range).length_eq

theorem Mirrors.removeSession (h : Mirrors σ ρ) (sessionId : Int32) :
    Mirrors (σ.removeSession sessionId) { ρ with sessions := ρ.sessions.erase sessionId } where
  session := h.session
  placed := ShardedTable.Placed.erase h.placed sessionId
  lookup := by
    intro id
    change (σ.manager.removeSession sessionId).findSession id = _
    rw [SessionManager.findSession_removeSession]
    split
    · rename_i hid
      rw [hid, AList.lookup_erase]
    · rename_i hid
      rw [h.lookup, AList.lookup_erase_ne hid]

theorem Mirrors.insertSession (h : Mirrors σ ρ) (sessionId : Int32) (s : SessionPtr) :
    Mirrors { σ with manager := σ.manager.insertSession sessionId s }
      { ρ with sessions := ρ.sessions.insert sessionId s } where
  session := h.session
  placed := ShardedTable.Placed.insert h.placed sessionId s
  lookup := by
    intro id
    change (σ.manager.insertSession sessionId s).findSession id = _
    rw [SessionManager.findSession_insertSession]
    split
    · rename_i hid
      rw [hid, AList.lookup_insert]
    · rename_i hid
      rw [h.lookup, AList.lookup_insert_ne hid]

theorem Mirrors.closeSession (h : Mirrors σ ρ) (s : SessionPtr) :
    Mirrors (σ.closeSession s) (ρ.closeSession s) := by
  have hshut : Mirrors (σ.modify s Session.shut)
      { ρ with session := Function.update ρ.session s (ρ.session s).shut } :=
    ⟨by rw [World.modify, h.session], h.placed, h.lookup⟩
  unfold World.closeSession SingleMap.closeSession
  rw [h.session]
  split
  · exact hshut
  · exact hshut.removeSession _

theorem Mirrors.addSession (h : Mirrors σ ρ) (s : SessionPtr) :
    Mirrors (σ.addSession s) (ρ.addSession s) := by
  have hinsert := h.insertSession (σ.session s).sessionId s
  unfold World.addSession SingleMap.addSession
  rw [h.session] at hinsert ⊢
  dsimp only
  rw [h.lookup]
  cases ρ.sessions.lookup (ρ.session s).sessionId with
  | none => exact hinsert
  | some r =>
    dsimp only
    split
    · exact hinsert
    · exact hinsert.closeSession r

theorem Mirrors.call (h : Mirrors σ ρ) (range : ∀ id, σ.manager.shardIndex id < σ.manager.shardCount)
    (c : Call) : Mirrors (σ.call c).1 (ρ.call c).1 ∧ (σ.call c).2.Agrees (ρ.call c).2 := by
  cases c with
  | addSession s => exact ⟨h.addSession s, .same _⟩
  | removeSession sessionId =>
    refine ⟨h.removeSession sessionId, ?_⟩
    simp only [World.call, SingleMap.call, h.lookup]
    exact .same _
  | findSession sessionId =>
    refine ⟨h, ?_⟩
    simp only [World.call, SingleMap.call, h.lookup]
    exact .same _
  | sessionCount =>
    refine ⟨h, ?_⟩
    simp only [World.call, SingleMap.call, SessionManager.sessionCount, h.count range]
    exact .same _
  | getTotalSessionCount =>
    refine ⟨h, ?_⟩
    simp only [World.call, SingleMap.call, SessionManager.getTotalSessionCount, h.count range]
    exact .same _
  | forEachSession =>
    refine ⟨h, .visits ?_⟩
    rw [allSessions_eq_map]
    exact (h.perm range).map _

@[simp] theorem closeSession_shardCount (σ : World) (s : SessionPtr) :
    (σ.closeSession s).manager.shardCount = σ.manager.shardCount := by
  unfold World.closeSession
  split <;> rfl

@[simp] theorem call_shardCount (σ : World) (c : Call) :
    (σ.call c).1.manager.shardCount = σ.manager.shardCount := by
  cases c with
  | addSession s =>
    change (σ.addSession s).manager.shardCount = _
    rcases addSession_cases σ s with heq | ⟨r, _, heq⟩
    · rw [heq]
      rfl
    · rw [heq, closeSession_shardCount]
      rfl
  | removeSession sessionId => rfl
  | findSession sessionId => rfl
  | sessionCount => rfl
  | getTotalSessionCount => rfl
  | forEachSession => rfl

theorem Mirrors.answers (h : Mirrors σ ρ) (positive : 0 < σ.manager.shardCount)
    (small : σ.manager.shardCount ≤ 2 ^ 31) (calls : List Call) :
    Mirrors (answers World.call σ calls).1 (DBMiddleWare.answers SingleMap.call ρ calls).1 ∧
      List.Forall₂ Answer.Agrees (DBMiddleWare.answers World.call σ calls).2
        (DBMiddleWare.answers SingleMap.call ρ calls).2 ∧
      (DBMiddleWare.answers World.call σ calls).1.manager.shardCount = σ.manager.shardCount := by
  induction calls generalizing σ ρ with
  | nil => exact ⟨h, .nil, rfl⟩
  | cons c calls ih =>
    obtain ⟨hcall, hagrees⟩ := h.call (shardIndex_lt positive small) c
    obtain ⟨hlast, hrest, hcount⟩ := ih hcall (by rwa [call_shardCount]) (by rwa [call_shardCount])
    exact ⟨hlast, .cons hagrees hrest, hcount.trans (call_shardCount σ c)⟩

end Simulation

/-- Sessions that exist while none is registered yet. -/
def World.unregistered (shardCount : Nat) (session : SessionPtr → Session) : World :=
  { World.init shardCount with session := session }

/-- Whatever sessions there are and whatever is called, the answers are those of the single map, up
to the order of the visits, the sessions end up the same, and every index is in range. -/
theorem sharded_registry_refines_single_map (shardCount : Nat) (positive : 1 ≤ shardCount)
    (small : shardCount ≤ 2 ^ 31 - 1) (session : SessionPtr → Session) (calls : List Call) :
    List.Forall₂ Answer.Agrees (answers World.call (.unregistered shardCount session) calls).2
        (answers SingleMap.call ⟨session, ∅⟩ calls).2 ∧
      (answers World.call (.unregistered shardCount session) calls).1.session =
        (answers SingleMap.call ⟨session, ∅⟩ calls).1.session ∧
      ∀ id, (answers World.call (.unregistered shardCount session) calls).1.manager.shardIndex id <
        shardCount := by
  have hinit : Mirrors (.unregistered shardCount session) ⟨session, ∅⟩ :=
    ⟨rfl, ShardedTable.placed_empty _, fun _ => rfl⟩
  have hsmall : shardCount ≤ 2 ^ 31 := by omega
  obtain ⟨hlast, hanswers, hcount⟩ := hinit.answers positive hsmall calls
  change _ = shardCount at hcount
  refine ⟨hanswers, hlast.session, fun id => ?_⟩
  have hlt := shardIndex_lt (hcount.symm ▸ positive) (hcount.symm ▸ hsmall) id
  rwa [hcount] at hlt

/-- Two sessions of one negative id in a registry of three shards. -/
theorem sharded_registry_refines_single_map_replace :
    List.Forall₂ Answer.Agrees
        (answers World.call (.unregistered 3 fun _ => .new (-5) 0)
          [.addSession 0, .addSession 1, .findSession (-5), .sessionCount]).2
        (answers SingleMap.call ⟨fun _ => .new (-5) 0, ∅⟩
          [.addSession 0, .addSession 1, .findSession (-5), .sessionCount]).2 ∧
      (answers World.call (.unregistered 3 fun _ => .new (-5) 0)
        [.addSession 0, .addSession 1, .findSession (-5), .sessionCount]).2 =
        [.done, .done, .session none, .count 0] :=
  ⟨(sharded_registry_refines_single_map 3 (by decide) (by decide) _ _).1, by decide⟩

end DBMiddleWare
