import DBMiddleWare.Library.Locking
import DBMiddleWare.World

/-!
# The mutexes of the session manager

The public operations as programs over the nickname mutex and the mutexes of the shards,
with everything they call: `close_session` comes back to `remove_session`, and
`for_each_session` calls its argument for the sessions that it has copied.
-/

namespace DBMiddleWare

open Locking Locking.Program
set_option autoImplicit false

inductive ManagerMutex where
  | nickname
  | shard (i : Nat)
  deriving Repr, DecidableEq

abbrev ManagerProgram := Program ManagerMutex World

namespace World

def eraseExpired (σ : World) : World :=
  { σ with
    manager := { σ.manager with
      nicknameIndex := σ.manager.nicknameIndex.keys.foldl
        (fun index n => if (σ.findSessionByNickname n).isSome then index else index.erase n)
        σ.manager.nicknameIndex } }

/-- `unregister_nickname` up to its call of `cleanup_expired_nicknames`. -/
def eraseNickname (σ : World) (nickname : String) (s : SessionPtr) : World :=
  if σ.findSessionByNickname nickname = some s then
    { σ with manager := { σ.manager with nicknameIndex := σ.manager.nicknameIndex.erase nickname } }
  else σ

end World

namespace SessionManager

/-- An access that changes nothing. -/
def read (rest : World → ManagerProgram) : ManagerProgram := access id rest

/-- `lock_guard` on the mutex of the shard of an id. -/
def withShard (sessionId : Int32) (p : ManagerProgram) : ManagerProgram :=
  read fun σ => guarded (.shard (toSize (σ.manager.getShard sessionId))) p

/-- The loop of the scans; each shard is read under its mutex. -/
def scanShards (collect : World → Nat → List SessionPtr) :
    List Nat → List SessionPtr → (List SessionPtr → ManagerProgram) → ManagerProgram
  | [], sessions, rest => rest sessions
  | i :: shards, sessions, rest =>
    lock (.shard i) (read fun σ =>
      unlock (.shard i) (scanShards collect shards (sessions ++ collect σ i) rest))

def scan (collect : World → Nat → List SessionPtr) (rest : List SessionPtr → ManagerProgram) :
    ManagerProgram :=
  read fun σ => scanShards collect (List.range σ.manager.shardCount) [] rest

def forEach (fn : SessionPtr → ManagerProgram) : List SessionPtr → ManagerProgram
  | [] => done
  | s :: rest => (fn s).andThen (forEach fn rest)

namespace Locked

def removeSession (sessionId : Int32) : ManagerProgram :=
  withShard sessionId (access (fun σ => σ.removeSession sessionId) fun _ => done)

/-- `Session::close_session`, through `DataHandler::remove_session`. -/
def closeSession (s : SessionPtr) : ManagerProgram :=
  access (fun σ => σ.modify s Session.shut) fun σ =>
    if (σ.session s).closed then done else removeSession (σ.session s).sessionId

/-- The replaced session is closed after the lock has been given back. -/
def addSession (s : SessionPtr) : ManagerProgram :=
  read fun σ =>
    let i := toSize (σ.manager.getShard (σ.session s).sessionId)
    lock (.shard i) (access
      (fun σ => { σ with manager := σ.manager.insertSession (σ.session s).sessionId s })
      fun σ => unlock (.shard i)
        (match σ.manager.findSession (σ.session s).sessionId with
        | some r => read fun σ => if (σ.session r).closed then done else closeSession r
        | none => done))

def findSession (sessionId : Int32) : ManagerProgram := withShard sessionId (read fun _ => done)

def forEachSession (fn : SessionPtr → ManagerProgram) : ManagerProgram :=
  scan (fun σ i => σ.manager.shardSessions i) (forEach fn)

def sessionCount : ManagerProgram := scan (fun σ i => σ.manager.shardSessions i) fun _ => done

def registerNickname (nickname : String) (s : SessionPtr) : ManagerProgram :=
  guarded .nickname (read fun σ =>
    (match σ.previousOwner s nickname with
    | some prev =>
      access (fun σ : World => σ.dispatch prev (.write World.loggedInElsewhere))
        fun _ => closeSession prev
    | none => done).andThen (access (fun σ : World => σ.indexNickname s nickname) fun _ => done))

def cleanupExpiredNicknames : ManagerProgram :=
  guarded .nickname (access World.eraseExpired fun _ => done)

def unregisterNickname (nickname : String) (s : SessionPtr) : ManagerProgram :=
  guarded .nickname (access (fun σ => σ.eraseNickname nickname s) fun _ => cleanupExpiredNicknames)

def findSessionByNickname (_nickname : String) : ManagerProgram := guarded .nickname (read fun _ => done)

def cleanupInactiveSessions (now maxIdleTime : Int) : ManagerProgram :=
  scan (fun σ i => σ.inactiveSessions i now maxIdleTime) (forEach closeSession)

end Locked

/-- What a thread does with the manager: public operations and `close_session`, one after the
other, as it decides from what it sees. -/
inductive Activity where
  | skip
  | seq (a b : Activity)
  | look (k : World → Activity)
  | addSession (s : SessionPtr)
  | removeSession (sessionId : Int32)
  | findSession (sessionId : Int32)
  | findSessionByNickname (nickname : String)
  | forEachSession (fn : SessionPtr → Activity)
  | sessionCount
  | registerNickname (nickname : String) (s : SessionPtr)
  | unregisterNickname (nickname : String) (s : SessionPtr)
  | getTotalSessionCount
  | cleanupExpiredNicknames
  | cleanupInactiveSessions (now maxIdleTime : Int)
  | closeSession (s : SessionPtr)

namespace Activity

def program : Activity → ManagerProgram
  | skip => done
  | seq a b => a.program.andThen b.program
  | look k => read fun σ => (k σ).program
  | addSession s => Locked.addSession s
  | removeSession sessionId => Locked.removeSession sessionId
  | findSession sessionId => Locked.findSession sessionId
  | findSessionByNickname nickname => Locked.findSessionByNickname nickname
  | forEachSession fn => Locked.forEachSession fun s => (fn s).program
  | sessionCount => Locked.sessionCount
  | registerNickname nickname s => Locked.registerNickname nickname s
  | unregisterNickname nickname s => Locked.unregisterNickname nickname s
  | getTotalSessionCount => Locked.sessionCount
  | cleanupExpiredNicknames => Locked.cleanupExpiredNicknames
  | cleanupInactiveSessions now maxIdleTime => Locked.cleanupInactiveSessions now maxIdleTime
  | closeSession s => Locked.closeSession s

/-- `unregister_nickname` is not called, nor by the function given to `for_each_session`. -/
def Avoids : Activity → Prop
  | seq a b => a.Avoids ∧ b.Avoids
  | look k => ∀ σ, (k σ).Avoids
  | forEachSession fn => ∀ s, (fn s).Avoids
  | unregisterNickname _ _ => False
  | _ => True

end Activity

section Eval
variable {σ : World} {s : SessionPtr}

theorem eval_read (rest : World → ManagerProgram) : (read rest).eval σ = (rest σ).eval σ := rfl

theorem eval_removeSession (sessionId : Int32) :
    (Locked.removeSession sessionId).eval σ = σ.removeSession sessionId := rfl

theorem eval_closeSession : (Locked.closeSession s).eval σ = σ.closeSession s := by
  unfold Locked.closeSession World.closeSession
  rw [eval]
  split
  · rfl
  · exact eval_removeSession _

theorem eval_addSession : (Locked.addSession s).eval σ = σ.addSession s := by
  unfold Locked.addSession World.addSession
  simp only [eval_read, eval]
  cases σ.manager.findSession (σ.session s).sessionId with
  | none => rfl
  | some r =>
    simp only [eval_read]
    split
    · rfl
    · exact eval_closeSession

theorem eval_registerNickname (nickname : String) :
    (Locked.registerNickname nickname s).eval σ = σ.registerNickname s nickname := by
  unfold Locked.registerNickname World.registerNickname
  rw [eval_guarded, eval_read, eval_andThen]
  cases σ.previousOwner s nickname with
  | none => rfl
  | some prev =>
    simp only [eval]
    rw [eval_closeSession]

end Eval

/-- No mutex is taken twice, and the nickname mutex is not taken under a shard mutex. -/
def MayAcquire (held : List ManagerMutex) (m : ManagerMutex) : Prop :=
  m ∉ held ∧ (m = .nickname → ∀ i, .shard i ∉ held)

def rank : ManagerMutex → Nat
  | .nickname => 0
  | .shard _ => 1

def InOrder (held : List ManagerMutex) (m : ManagerMutex) : Prop := ∀ k ∈ held, rank k < rank m

theorem InOrder.mayAcquire {held : List ManagerMutex} {m : ManagerMutex} (h : InOrder held m) :
    MayAcquire held m := by
  constructor
  · intro hm
    exact Nat.lt_irrefl _ (h m hm)
  · rintro rfl i hi
    exact Nat.not_lt_zero _ (h _ hi)

section Follows
variable {held : List ManagerMutex} {s : SessionPtr}

def BelowShards (held : List ManagerMutex) : Prop := ∀ i, InOrder held (.shard i)

theorem follows_done : Follows InOrder held (done : ManagerProgram) held := rfl

theorem follows_withShard (below : BelowShards held) (sessionId : Int32) {p : ManagerProgram}
    (hp : ∀ i, Follows InOrder (.shard i :: held) p (.shard i :: held)) :
    Follows InOrder held (withShard sessionId p) held := fun _ => .guarded (below _) (hp _)

theorem follows_removeSession (below : BelowShards held) (sessionId : Int32) :
    Follows InOrder held (Locked.removeSession sessionId) held :=
  follows_withShard below sessionId fun _ _ => follows_done

theorem follows_closeSession (below : BelowShards held) (s : SessionPtr) :
    Follows InOrder held (Locked.closeSession s) held := by
  intro σ
  dsimp only
  split
  · exact follows_done
  · exact follows_removeSession below _

theorem follows_addSession (below : BelowShards held) (s : SessionPtr) :
    Follows InOrder held (Locked.addSession s) held := by
  intro σ
  refine ⟨below _, fun σ' => ⟨List.mem_cons_self, ?_⟩⟩
  rw [List.erase_cons_head]
  split
  · intro σ''
    dsimp only
    split
    · exact follows_done
    · exact follows_closeSession below _
  · exact follows_done

theorem follows_scanShards (below : BelowShards held) (collect : World → Nat → List SessionPtr)
    {rest : List SessionPtr → ManagerProgram} (hrest : ∀ l, Follows InOrder held (rest l) held)
    (shards : List Nat) (sessions : List SessionPtr) :
    Follows InOrder held (scanShards collect shards sessions rest) held := by
  induction shards generalizing sessions with
  | nil => exact hrest sessions
  | cons i shards ih =>
    refine ⟨below i, fun σ => ⟨List.mem_cons_self, ?_⟩⟩
    rw [List.erase_cons_head]
    exact ih _

theorem follows_scan (below : BelowShards held) (collect : World → Nat → List SessionPtr)
    {rest : List SessionPtr → ManagerProgram} (hrest : ∀ l, Follows InOrder held (rest l) held) :
    Follows InOrder held (scan collect rest) held := fun _ => follows_scanShards below collect hrest _ _

theorem follows_forEach {fn : SessionPtr → ManagerProgram} (hfn : ∀ s, Follows InOrder held (fn s) held)
    (sessions : List SessionPtr) : Follows InOrder held (forEach fn sessions) held := by
  induction sessions with
  | nil => exact follows_done
  | cons s sessions ih => exact (hfn s).andThen ih

theorem below_nil : BelowShards [] := fun _ => nofun

theorem below_nickname : BelowShards [.nickname] := by
  intro i k hk
  rw [List.mem_singleton.mp hk]
  exact Nat.zero_lt_one

theorem inOrder_nil (m : ManagerMutex) : InOrder [] m := nofun

/-- Eviction closes a session, and so takes a shard mutex, under the nickname mutex. -/
theorem follows_registerNickname (nickname : String) (s : SessionPtr) :
    Follows InOrder [] (Locked.registerNickname nickname s) [] := by
  refine .guarded (inOrder_nil _) fun σ => .andThen (K := [.nickname]) ?_ fun _ => follows_done
  split
  · intro _
    exact follows_closeSession below_nickname _
  · exact follows_done

theorem follows_program {a : Activity} (h : a.Avoids) : Follows InOrder [] a.program [] := by
  induction a with
  | skip => exact follows_done
  | seq a b iha ihb => exact (iha h.1).andThen (ihb h.2)
  | look k ih => exact fun σ => ih σ (h σ)
  | addSession s => exact follows_addSession below_nil s
  | removeSession sessionId => exact follows_removeSession below_nil sessionId
  | findSession sessionId => exact follows_withShard below_nil sessionId fun _ _ => follows_done
  | findSessionByNickname nickname => exact .guarded (inOrder_nil _) fun _ => follows_done
  | forEachSession fn ih => exact follows_scan below_nil _ (follows_forEach fun s => ih s (h s))
  | sessionCount => exact follows_scan below_nil _ fun _ => follows_done
  | registerNickname nickname s => exact follows_registerNickname nickname s
  | unregisterNickname nickname s => exact h.elim
  | getTotalSessionCount => exact follows_scan below_nil _ fun _ => follows_done
  | cleanupExpiredNicknames => exact .guarded (inOrder_nil _) fun _ => follows_done
  | cleanupInactiveSessions now maxIdleTime =>
    exact follows_scan below_nil _ (follows_forEach fun s => follows_closeSession below_nil s)
  | closeSession s => exact follows_closeSession below_nil s

end Follows

instance : Nonempty World := ⟨World.init 0⟩

def oneSession (s : SessionPtr) : World :=
  { World.init 1 with manager := { shardCount := 1, sessionBuckets := fun _ => AList.singleton 0 s } }

theorem not_follows_unregister {held K : List ManagerMutex} (nickname : String) (s : SessionPtr)
    (q : ManagerProgram) :
    ¬ Follows MayAcquire held ((Locked.unregisterNickname nickname s).andThen q) K := by
  intro h
  have htwice := (h.2 (World.init 0)).1.1
  exact htwice List.mem_cons_self

theorem avoids_of_follows {a : Activity} {held K : List ManagerMutex} {q : ManagerProgram}
    (h : Follows MayAcquire held (a.program.andThen q) K) : a.Avoids := by
  induction a generalizing held K q with
  | seq a b iha ihb =>
    rw [Activity.program, andThen_assoc] at h
    obtain ⟨L, hb⟩ := h.after
    exact ⟨iha h, ihb hb⟩
  | look k ih => exact fun σ => ih σ (h σ)
  | forEachSession fn ih =>
    intro s
    -- the scan finds the session, and the function is called for it
    have hcalled := (h (oneSession s)).2 (oneSession s)
    have hfn : Follows MayAcquire ((ManagerMutex.shard 0 :: held).erase (.shard 0))
        (((fn s).program.andThen done).andThen q) K := hcalled.2
    rw [andThen_assoc] at hfn
    exact ih s hfn
  | unregisterNickname nickname s => exact not_follows_unregister nickname s q h
  | _ => trivial

theorem follows_iff (a : Activity) : Follows MayAcquire [] a.program [] ↔ a.Avoids := by
  constructor
  · intro h
    exact avoids_of_follows (q := done) (h.andThen rfl)
  · intro h
    exact (follows_program h).mono fun _ _ => InOrder.mayAcquire

abbrev Threads := Locking.Config Nat ManagerMutex World

def pool (activities : Nat → Activity) (σ : World) : Threads :=
  .start (fun i => (activities i).program) σ

/-- The locking of an activity: on every path through its calls, and in every state that it reaches
together with threads that follow the discipline. -/
structure SoundLocking (a : Activity) : Prop where
  disciplined : Follows MayAcquire [] a.program []
  orderly : ∀ (activities : Nat → Activity) (σ : World) (c : Threads), activities 0 = a →
    (∀ i, i ≠ 0 → Follows MayAcquire [] (activities i).program []) → (pool activities σ).Reachable c →
    ∀ i m rest, c.thread i = .lock m rest → MayAcquire (c.held i) m
  live : ∀ (activities : Nat → Activity) (σ : World) (c : Threads), activities 0 = a →
    (∀ i, i ≠ 0 → Follows MayAcquire [] (activities i).program []) →
    (pool activities σ).Reachable c → c.Live

theorem disciplined_pool {activities : Nat → Activity} (h : ∀ i, (activities i).Avoids) {σ : World}
    {c : Threads} (run : (pool activities σ).Reachable c) : c.Disciplined InOrder :=
  (Locking.Config.disciplined_start fun i => follows_program (h i)).reachable run

/-- An operation locks soundly, alone and among others, exactly when it is not `unregister_nickname`
and calls none. -/
theorem sound_locking_iff (a : Activity) : SoundLocking a ↔ a.Avoids := by
  constructor
  · intro h
    exact (follows_iff a).mp h.disciplined
  · intro h
    have havoids : ∀ activities : Nat → Activity, activities 0 = a →
        (∀ i, i ≠ 0 → Follows MayAcquire [] (activities i).program []) → ∀ i, (activities i).Avoids := by
      intro activities hfirst hothers i
      by_cases hi : i = 0
      · rw [hi, hfirst]
        exact h
      · exact (follows_iff _).mp (hothers i hi)
    refine ⟨(follows_iff a).mpr h, fun activities σ c hfirst hothers run i m rest next => ?_,
      fun activities σ c hfirst hothers run => ?_⟩
    · have hc := disciplined_pool (havoids activities hfirst hothers) run
      exact (hc.may_lock next).mayAcquire
    · have hc := disciplined_pool (havoids activities hfirst hothers) run
      refine hc.live rank 1 (fun m => ?_) fun _ _ hm => hm
      cases m with
      | nickname => exact Nat.zero_le 1
      | shard i => exact Nat.le_refl 1

/-- A single thread that calls `unregister_nickname` waits for itself. -/
theorem unregister_nickname_deadlocks :
    ¬ Follows MayAcquire [] (Activity.unregisterNickname "kim" 0).program [] ∧
    ∃ c : Threads, (pool (fun i => if i = 0 then .unregisterNickname "kim" 0 else .skip)
      (World.init 4)).Reachable c ∧ ¬ c.Live := by
  refine ⟨(follows_iff _).not.mpr fun h => h, ?_⟩
  exact Locking.Config.relock_deadlocks (i := 0) rfl (fun _ => rfl) _

end SessionManager

end DBMiddleWare
