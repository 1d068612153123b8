import Mathlib.Data.List.AList
import DBMiddleWare.Session

/-!
# The session manager

The sharded table of registered sessions and the nickname index. An
`unordered_map` is an association list without duplicate keys; the bucket vector is
a function of the shard index. The index holds weak references, so whether an entry
still leads to a session is decided by the caller.
-/

namespace DBMiddleWare

set_option autoImplicit false

structure SessionManager where
  shardCount : Nat
  sessionBuckets : Nat → AList (fun _ : Int32 => SessionPtr) := fun _ => ∅
  nicknameIndex : AList (fun _ : String => SessionPtr) := ∅

/-- The conversion of an `int` to `size_t`. -/
def toSize (x : Int32) : Nat := x.toInt64.toUInt64.toNat

namespace SessionManager

def getShard (m : SessionManager) (sessionId : Int32) : Int32 :=
  Int32.ofNat (toSize sessionId % m.shardCount)

/-- `session_buckets_[get_shard(session_id)]`. -/
def bucket (m : SessionManager) (sessionId : Int32) : AList (fun _ : Int32 => SessionPtr) :=
  m.sessionBuckets (toSize (m.getShard sessionId))

def setBucket (m : SessionManager) (sessionId : Int32)
    (b : AList (fun _ : Int32 => SessionPtr)) : SessionManager :=
  { m with sessionBuckets := Function.update m.sessionBuckets (toSize (m.getShard sessionId)) b }

def findSession (m : SessionManager) (sessionId : Int32) : Option SessionPtr :=
  (m.bucket sessionId).lookup sessionId

/-- The locked part of `add_session`; the session it replaces is what was found before. -/
def insertSession (m : SessionManager) (sessionId : Int32) (s : SessionPtr) : SessionManager :=
  m.setBucket sessionId (((m.bucket sessionId).erase sessionId).insert sessionId s)

def removeSession (m : SessionManager) (sessionId : Int32) : SessionManager :=
  m.setBucket sessionId ((m.bucket sessionId).erase sessionId)

def shardSessions (m : SessionManager) (shard : Nat) : List SessionPtr :=
  (m.sessionBuckets shard).entries.map Sigma.snd

/-- The scan of `for_each_session`, shard by shard. -/
def allSessions (m : SessionManager) : List SessionPtr :=
  (List.range m.shardCount).flatMap m.shardSessions

/-- The entry of the nickname index, alive or not. -/
def owner (m : SessionManager) (nickname : String) : Option SessionPtr :=
  m.nicknameIndex.lookup nickname

def setOwner (m : SessionManager) (nickname : String) (s : SessionPtr) : SessionManager :=
  { m with nicknameIndex := m.nicknameIndex.insert nickname s }

def nicknames (m : SessionManager) (s : SessionPtr) : List String :=
  (m.nicknameIndex.entries.filter fun e => e.2 = s).map Sigma.fst

section Lookup
variable (m : SessionManager) (sessionId : Int32) (s : SessionPtr) (nickname : String)

theorem findSession_setBucket (b : AList (fun _ : Int32 => SessionPtr)) (id : Int32)
    (other : id ≠ sessionId → b.lookup id = (m.bucket sessionId).lookup id) :
    (m.setBucket sessionId b).findSession id =
      if id = sessionId then b.lookup id else m.findSession id := by
  unfold findSession bucket
  change (Function.update m.sessionBuckets (toSize (m.getShard sessionId)) b
    (toSize (m.getShard id))).lookup id = _
  by_cases hid : id = sessionId
  · subst hid
    rw [if_pos rfl, Function.update_self]
  · rw [if_neg hid]
    by_cases hs : toSize (m.getShard id) = toSize (m.getShard sessionId)
    · rw [hs, Function.update_self, other hid, bucket]
    · rw [Function.update_of_ne hs]

theorem findSession_insertSession (id : Int32) :
    (m.insertSession sessionId s).findSession id =
      if id = sessionId then some s else m.findSession id := by
  rw [insertSession, findSession_setBucket]
  · by_cases hid : id = sessionId
    · subst hid
      simp
    · simp [hid]
  · intro hid
    rw [AList.lookup_insert_ne hid, AList.lookup_erase_ne hid]

theorem findSession_removeSession (id : Int32) :
    (m.removeSession sessionId).findSession id = if id = sessionId then none else m.findSession id := by
  rw [removeSession, findSession_setBucket]
  · by_cases hid : id = sessionId
    · subst hid
      simp
    · simp [hid]
  · intro hid
    rw [AList.lookup_erase_ne hid]

theorem owner_setOwner (n : String) :
    (m.setOwner nickname s).owner n = if n = nickname then some s else m.owner n := by
  by_cases hn : n = nickname
  · subst hn
    rw [if_pos rfl]
    exact AList.lookup_insert _
  · rw [if_neg hn]
    exact AList.lookup_insert_ne hn

theorem owner_iff (n : String) :
    m.owner n = some s ↔ (⟨n, s⟩ : Sigma fun _ => SessionPtr) ∈ m.nicknameIndex.entries :=
  AList.mem_lookup_iff

theorem mem_nicknames (n : String) : n ∈ m.nicknames s ↔ m.owner n = some s := by
  rw [owner_iff, nicknames, List.mem_map]
  constructor
  · rintro ⟨⟨n', s'⟩, he, rfl⟩
    obtain ⟨he, hs⟩ := List.mem_filter.mp he
    exact of_decide_eq_true hs ▸ he
  · intro he
    exact ⟨⟨n, s⟩, List.mem_filter.mpr ⟨he, decide_eq_true rfl⟩, rfl⟩

theorem nicknames_eq_nil : m.nicknames s = [] ↔ ∀ n, m.owner n ≠ some s := by
  rw [List.eq_nil_iff_forall_not_mem]
  exact forall_congr' fun n => not_congr (m.mem_nicknames s n)

/-- When no session has two entries, there are at most as many entries as sessions that have one. -/
theorem entries_length_le {sessions : List SessionPtr} (single : ∀ n n' s, m.owner n = some s →
    m.owner n' = some s → n = n') (covered : ∀ n s, m.owner n = some s → s ∈ sessions) :
    m.nicknameIndex.entries.length ≤ sessions.length := by
  have hnodup : (m.nicknameIndex.entries.map Sigma.snd).Nodup := by
    refine m.nicknameIndex.nodupKeys.nodup.map_on ?_
    rintro ⟨n, s⟩ hn ⟨n', s'⟩ hn' (rfl : s = s')
    obtain rfl := single n n' s ((m.owner_iff s n).mpr hn) ((m.owner_iff s n').mpr hn')
    rfl
  have hsubset : m.nicknameIndex.entries.map Sigma.snd ⊆ sessions := by
    intro s hs
    obtain ⟨⟨n, _⟩, he, rfl⟩ := List.mem_map.mp hs
    exact covered n _ ((m.owner_iff _ n).mpr he)
  have hle := (List.subperm_of_subset hnodup hsubset).length_le
  rwa [List.length_map] at hle

end Lookup

end SessionManager

end DBMiddleWare
