import DBMiddleWare.Sharding

/-!
# Scans of the registry

`for_each_session` and the first loop of `cleanup_inactive_sessions` lock one shard after
another; between two locks other threads add and remove sessions. The removal that
follows the replacement of a session is one more removal step.
-/

namespace DBMiddleWare

open Execution
set_option autoImplicit false

/-- A locked section of another thread. -/
inductive RegistryStep where
  | add (s : SessionPtr)
  | remove (sessionId : Int32)
  deriving Repr, DecidableEq

def RegistryStep.apply (ids : SessionPtr → Int32) (m : SessionManager) : RegistryStep → SessionManager
  | .add s => m.insertSession (ids s) s
  | .remove sessionId => m.removeSession sessionId

/-- What a scan collects. -/
inductive ScanKind where
  | forEachSession
  | cleanupInactive (now maxIdleTime : Int)

def ScanKind.collects : ScanKind → Session → Bool
  | .forEachSession, _ => true
  | .cleanupInactive now maxIdleTime, o => maxIdleTime < now - o.lastAliveTime

structure Scan where
  manager : SessionManager
  /-- the shard that is visited next -/
  shard : Nat := 0
  collected : List SessionPtr := []

inductive ScanStep where
  | visit
  | other (op : RegistryStep)
  deriving Repr, DecidableEq

namespace Scan

variable (session : SessionPtr → Session) (kind : ScanKind)

def visit (x : Scan) : Scan :=
  { x with
    shard := x.shard + 1
    collected := x.collected ++ (x.manager.shardSessions x.shard).filter
      fun s => kind.collects (session s) }

def step (x : Scan) : ScanStep → Option Scan
  | .visit => if x.shard < x.manager.shardCount then some (x.visit session kind) else none
  | .other op => some { x with manager := op.apply (fun s => (session s).sessionId) x.manager }

end Scan

def SessionManager.Registered (m : SessionManager) (session : SessionPtr → Session)
    (s : SessionPtr) : Prop :=
  m.findSession (session s).sessionId = some s

/-- At some moment of a run, or at all of them. -/
def Sometime (session : SessionPtr → Session) (kind : ScanKind) (x : Scan) (acts : List ScanStep)
    (p : Scan → Prop) : Prop :=
  ∃ as y, as <+: acts ∧ exec (Scan.step session kind) x as = some y ∧ p y

def Throughout (session : SessionPtr → Session) (kind : ScanKind) (x : Scan) (acts : List ScanStep)
    (p : Scan → Prop) : Prop :=
  ∀ as y, as <+: acts → exec (Scan.step session kind) x as = some y → p y

section Shards
variable {m : SessionManager} {ids : SessionPtr → Int32}

theorem SessionManager.Filed.apply (h : m.Filed ids) (op : RegistryStep) :
    (op.apply ids m).Filed ids := by
  cases op with
  | add s => exact h.insertSession s
  | remove sessionId => exact h.removeSession sessionId

theorem apply_shardCount (m : SessionManager) (ids : SessionPtr → Int32) (op : RegistryStep) :
    (op.apply ids m).shardCount = m.shardCount := by
  cases op <;> rfl

theorem mem_shardSessions (h : m.Filed ids) {shard : Nat} {s : SessionPtr} :
    s ∈ m.shardSessions shard ↔ shard = m.shardIndex (ids s) ∧ m.findSession (ids s) = some s := by
  unfold SessionManager.shardSessions
  rw [List.mem_map]
  constructor
  · rintro ⟨⟨id, t⟩, hm, rfl⟩
    obtain ⟨hshard, hfind⟩ := ShardedTable.find_eq_some_of_mem h.placed hm
    have hid : ids t = id := h.keyed id t hfind
    dsimp only
    rw [hid]
    exact ⟨hshard, hfind⟩
  · rintro ⟨rfl, hfind⟩
    exact ⟨⟨ids s, s⟩, ShardedTable.mem_of_find hfind, rfl⟩

theorem nodup_shardSessions (h : m.Filed ids) (shard : Nat) : (m.shardSessions shard).Nodup := by
  unfold SessionManager.shardSessions
  apply List.Nodup.map_on _ (List.NodupKeys.nodup (m.sessionBuckets shard).nodupKeys)
  rintro ⟨id, s⟩ hm ⟨id', t⟩ hm' (rfl : s = t)
  have hid : ids s = id := h.keyed id s (ShardedTable.find_eq_some_of_mem h.placed hm).2
  have hid' : ids s = id' := h.keyed id' s (ShardedTable.find_eq_some_of_mem h.placed hm').2
  rw [← hid, ← hid']

end Shards

/-- What has been collected comes from the shards visited so far, each session once. -/
structure Scan.Valid (session : SessionPtr → Session) (x : Scan) : Prop where
  filed : x.manager.Filed fun s => (session s).sessionId
  nodup : x.collected.Nodup
  visited : ∀ s ∈ x.collected, x.manager.shardIndex (session s).sessionId < x.shard

section Step
variable {session : SessionPtr → Session} {kind : ScanKind} {x : Scan}

theorem mem_visit {s : SessionPtr} : s ∈ (x.visit session kind).collected ↔
    s ∈ x.collected ∨ s ∈ x.manager.shardSessions x.shard ∧ kind.collects (session s) = true := by
  unfold Scan.visit
  rw [List.mem_append, List.mem_filter]

theorem Scan.Valid.visit (h : x.Valid session) : (x.visit session kind).Valid session where
  filed := h.filed
  nodup := by
    refine h.nodup.append ((nodup_shardSessions h.filed x.shard).filter _) ?_
    intro s hs hs'
    have hlt := h.visited s hs
    have heq := ((mem_shardSessions h.filed).mp (List.mem_filter.mp hs').1).1
    omega
  visited := by
    intro s hs
    change x.manager.shardIndex (session s).sessionId < x.shard + 1
    rcases mem_visit.mp hs with hold | ⟨hnew, _⟩
    · have hlt := h.visited s hold
      omega
    · have heq := ((mem_shardSessions h.filed).mp hnew).1
      omega

theorem Scan.Valid.other (h : x.Valid session) (op : RegistryStep) :
    Scan.Valid session { x with manager := op.apply (fun s => (session s).sessionId) x.manager } where
  filed := h.filed.apply op
  nodup := h.nodup
  visited := by
    intro s hs
    have hlt := h.visited s hs
    unfold SessionManager.shardIndex SessionManager.getShard at hlt ⊢
    rwa [apply_shardCount]

theorem Scan.step_cases {a : ScanStep} {y : Scan} (h : Scan.step session kind x a = some y) :
    (a = .visit ∧ x.shard < x.manager.shardCount ∧ y = x.visit session kind) ∨
    ∃ op, a = .other op ∧ y = { x with
      manager := op.apply (fun s => (session s).sessionId) x.manager } := by
  cases a with
  | visit =>
    simp only [Scan.step, Option.ite_none_right_eq_some, Option.some.injEq] at h
    exact Or.inl ⟨rfl, h.1, h.2.symm⟩
  | other op => exact Or.inr ⟨op, rfl, (Option.some.inj h).symm⟩

end Step

/-- The history of a scan: a session registered all the time has been collected once its shard
was visited, and a collected one was registered at some time. -/
structure Scan.History (session : SessionPtr → Session) (kind : ScanKind) (start : Scan)
    (acts : List ScanStep) (x : Scan) : Prop where
  valid : x.Valid session
  shardCount : x.manager.shardCount = start.manager.shardCount
  stable : ∀ s, kind.collects (session s) = true →
    Throughout session kind start acts (fun y => y.manager.Registered session s) →
    x.manager.shardIndex (session s).sessionId < x.shard → s ∈ x.collected
  moment : ∀ s ∈ x.collected, kind.collects (session s) = true ∧
    Sometime session kind start acts fun y => y.manager.Registered session s

section History
variable {session : SessionPtr → Session} {kind : ScanKind} {start x y : Scan} {acts : List ScanStep}

theorem Sometime.concat {p : Scan → Prop} (h : Sometime session kind start acts p) (a : ScanStep) :
    Sometime session kind start (acts ++ [a]) p := by
  obtain ⟨as, y, hpre, hrun, hp⟩ := h
  exact ⟨as, y, hpre.trans (List.prefix_append acts [a]), hrun, hp⟩

theorem Throughout.of_concat {p : Scan → Prop} {a : ScanStep}
    (h : Throughout session kind start (acts ++ [a]) p) : Throughout session kind start acts p :=
  fun as y hpre hrun => h as y (hpre.trans (List.prefix_append acts [a])) hrun

theorem Scan.History.visit (h : Scan.History session kind start acts x)
    (run : exec (Scan.step session kind) start acts = some x) :
    Scan.History session kind start (acts ++ [.visit]) (x.visit session kind) where
  valid := h.valid.visit
  shardCount := h.shardCount
  stable := by
    intro s hcollects hthroughout hlt
    change x.manager.shardIndex (session s).sessionId < x.shard + 1 at hlt
    rw [mem_visit]
    by_cases hvisited : x.manager.shardIndex (session s).sessionId < x.shard
    · exact Or.inl (h.stable s hcollects hthroughout.of_concat hvisited)
    · have hnow : x.manager.Registered session s := hthroughout acts x (List.prefix_append _ _) run
      exact Or.inr ⟨(mem_shardSessions h.valid.filed).mpr ⟨by omega, hnow⟩, hcollects⟩
  moment := by
    intro s hs
    rcases mem_visit.mp hs with hold | ⟨hnew, hcollects⟩
    · exact ⟨(h.moment s hold).1, (h.moment s hold).2.concat _⟩
    · have hnow := ((mem_shardSessions h.valid.filed).mp hnew).2
      exact ⟨hcollects, acts, x, List.prefix_append _ _, run, hnow⟩

theorem Scan.History.other (h : Scan.History session kind start acts x) (op : RegistryStep) :
    Scan.History session kind start (acts ++ [.other op])
      { x with manager := op.apply (fun s => (session s).sessionId) x.manager } where
  valid := h.valid.other op
  shardCount := (apply_shardCount ..).trans h.shardCount
  stable := by
    intro s hcollects hthroughout hlt
    apply h.stable s hcollects hthroughout.of_concat
    unfold SessionManager.shardIndex SessionManager.getShard at hlt ⊢
    rwa [apply_shardCount] at hlt
  moment := by
    intro s hs
    exact ⟨(h.moment s hs).1, (h.moment s hs).2.concat _⟩

theorem history_of_run (filed : start.manager.Filed fun s => (session s).sessionId)
    (fresh : start.shard = 0) (empty : start.collected = [])
    (run : exec (Scan.step session kind) start acts = some x) :
    Scan.History session kind start acts x := by
  apply history_invariant (H := Scan.History session kind start) _ _ run
  · refine ⟨⟨filed, ?_, ?_⟩, rfl, ?_, ?_⟩
    · rw [empty]
      exact List.nodup_nil
    · rw [empty]
      nofun
    · intro s _ _ hlt
      rw [fresh] at hlt
      exact absurd hlt (Nat.not_lt_zero _)
    · rw [empty]
      nofun
  · intro as x a y hrun h hstep
    rcases Scan.step_cases hstep with ⟨rfl, _, rfl⟩ | ⟨op, rfl, rfl⟩
    · exact h.visit hrun
    · exact h.other op

theorem filed_foldl (before : List RegistryStep) {m : SessionManager} {ids : SessionPtr → Int32}
    (h : m.Filed ids) : (before.foldl (RegistryStep.apply ids) m).Filed ids := by
  induction before generalizing m with
  | nil => exact h
  | cons op before ih => exact ih (h.apply op)

theorem foldl_shardCount (before : List RegistryStep) (m : SessionManager) (ids : SessionPtr → Int32) :
    (before.foldl (RegistryStep.apply ids) m).shardCount = m.shardCount := by
  induction before generalizing m with
  | nil => rfl
  | cons op before ih => exact (ih _).trans (apply_shardCount m ids op)

end History

/-- A registry that other threads have used before the scan begins. -/
def Scan.begin (session : SessionPtr → Session) (shardCount : Nat) (before : List RegistryStep) :
    Scan where
  manager := before.foldl (RegistryStep.apply fun s => (session s).sessionId)
    { shardCount := shardCount }

/-- However adding and removing is interleaved with a complete scan of at most `2 ^ 31` shards, a
session that was registered all the time and meets the test is collected exactly once, none is
collected twice, and each collected one meets the test and was registered at some moment. -/
theorem scan_exact_for_stable (shardCount : Nat) (positive : 1 ≤ shardCount)
    (small : shardCount ≤ 2 ^ 31) (session : SessionPtr → Session)
    (kind : ScanKind) (before : List RegistryStep) (acts : List ScanStep) (x : Scan)
    (run : exec (Scan.step session kind) (.begin session shardCount before) acts = some x)
    (complete : x.shard = shardCount) :
    (∀ s, kind.collects (session s) = true →
      Throughout session kind (.begin session shardCount before) acts
        (fun y => y.manager.Registered session s) → x.collected.count s = 1) ∧
    (∀ s, x.collected.count s ≤ 1) ∧
    ∀ s ∈ x.collected, kind.collects (session s) = true ∧
      Sometime session kind (.begin session shardCount before) acts
        fun y => y.manager.Registered session s := by
  have h : Scan.History session kind (.begin session shardCount before) acts x :=
    history_of_run (filed_foldl before (SessionManager.filed_empty shardCount _)) rfl rfl run
  have hcount : x.manager.shardCount = shardCount := h.shardCount.trans (foldl_shardCount before _ _)
  refine ⟨fun s hcollects hthroughout => ?_, List.nodup_iff_count_le_one.mp h.valid.nodup, h.moment⟩
  have hlt : x.manager.shardIndex (session s).sessionId < x.shard := by
    have hrange := shardIndex_lt (m := x.manager) (by omega) (by omega) (session s).sessionId
    omega
  exact List.count_eq_one_of_mem h.valid.nodup (h.stable s hcollects hthroughout hlt)

/-- A session is removed after its shard was visited and comes back before the other shard is. -/
theorem scan_exact_for_stable_two_shards :
    ∃ x, exec (Scan.step (fun s => .new (Int32.ofNat s) 0) .forEachSession)
        (.begin (fun s => .new (Int32.ofNat s) 0) 2 [.add 0, .add 1])
        [.visit, .other (.remove 0), .other (.add 0), .visit] = some x ∧
      ∀ s, x.collected.count s ≤ 1 := by
  have hrun : (exec (Scan.step (fun s => .new (Int32.ofNat s) 0) .forEachSession)
      (.begin (fun s => .new (Int32.ofNat s) 0) 2 [.add 0, .add 1])
      [.visit, .other (.remove 0), .other (.add 0), .visit]).map Scan.shard = some 2 := by decide +kernel
  obtain ⟨x, run, complete⟩ := Option.map_eq_some_iff.mp hrun
  exact ⟨x, run, (scan_exact_for_stable 2 (by decide) (by decide) _ _ [.add 0, .add 1]
    _ x run complete).2.1⟩

section Undisturbed
variable {session : SessionPtr → Session} {kind : ScanKind} {x y : Scan}

theorem manager_of_visits {acts : List ScanStep} (visits : ∀ a ∈ acts, a = .visit)
    (run : exec (Scan.step session kind) x acts = some y) : y.manager = x.manager := by
  induction acts generalizing x with
  | nil =>
    rw [exec_nil, Option.some.injEq] at run
    rw [run]
  | cons a acts ih =>
    obtain ⟨z, hz, run⟩ := exec_cons_eq_some.mp run
    rcases Scan.step_cases hz with ⟨_, _, rfl⟩ | ⟨op, rfl, _⟩
    · exact ih (x := x.visit session kind) (fun b hb => visits b (List.mem_cons_of_mem a hb)) run
    · exact absurd (visits _ List.mem_cons_self) nofun

theorem exec_visits (session : SessionPtr → Session) (kind : ScanKind) (n : Nat)
    (room : x.shard + n ≤ x.manager.shardCount) :
    ∃ y, exec (Scan.step session kind) x (List.replicate n .visit) = some y ∧ y.shard = x.shard + n := by
  induction n generalizing x with
  | zero => exact ⟨x, rfl, rfl⟩
  | succ n ih =>
    have hstep : Scan.step session kind x .visit = some (x.visit session kind) :=
      if_pos (by omega)
    have hshard : (x.visit session kind).shard = x.shard + 1 := rfl
    obtain ⟨y, hy, hlast⟩ :=
      ih (x := x.visit session kind) (by rw [hshard]; change _ ≤ x.manager.shardCount; omega)
    refine ⟨y, ?_, by omega⟩
    rw [List.replicate_succ, exec_cons_eq_some]
    exact ⟨_, hstep, hy⟩

/-- A scan that nobody disturbs misses a registered session that is filed beyond its shards or
fails its test. -/
theorem scan_misses (shardCount : Nat) (before : List RegistryStep) (s : SessionPtr)
    (registered : (Scan.begin session shardCount before).manager.Registered session s)
    (beyond : shardCount ≤ (Scan.begin session shardCount before).manager.shardIndex
      (session s).sessionId ∨ kind.collects (session s) = false) :
    ∃ acts y, exec (Scan.step session kind) (.begin session shardCount before) acts = some y ∧
      y.shard = shardCount ∧ y.collected.count s = 0 ∧
      Throughout session kind (.begin session shardCount before) acts fun z =>
        z.manager.Registered session s := by
  have hcount : (Scan.begin session shardCount before).manager.shardCount = shardCount :=
    foldl_shardCount before _ _
  obtain ⟨y, hrun, hshard⟩ := exec_visits session kind
    (x := .begin session shardCount before) shardCount
      (by rw [hcount]; exact Nat.le_of_eq (Nat.zero_add _))
  have hvisits : ∀ a ∈ List.replicate shardCount ScanStep.visit, a = .visit :=
    fun a ha => List.eq_of_mem_replicate ha
  have h : Scan.History session kind (.begin session shardCount before) _ y :=
    history_of_run (filed_foldl before (SessionManager.filed_empty shardCount _)) rfl rfl hrun
  have hend : y.shard = shardCount := hshard.trans (Nat.zero_add _)
  refine ⟨_, y, hrun, hend, List.count_eq_zero.mpr fun hs => ?_, fun as z hpre hz => ?_⟩
  · rcases beyond with hbeyond | hfails
    · have hlt := h.valid.visited s hs
      rw [manager_of_visits hvisits hrun] at hlt
      omega
    · rw [(h.moment s hs).1] at hfails
      cases hfails
  · dsimp only
    rw [manager_of_visits (fun a ha => hvisits a (hpre.subset ha)) hz]
    exact registered

end Undisturbed

/-- With more than `2 ^ 31` shards the index of a session can lie outside the vectors of the
manager, where the program is undefined; and an active session is not collected by the cleanup. -/
theorem scan_misses_registered :
    (∃ acts y, exec (Scan.step (fun _ => .new (-5) 0) .forEachSession)
        (.begin (fun _ => .new (-5) 0) (2 ^ 31 + 1) [.add 0]) acts = some y ∧ y.shard = 2 ^ 31 + 1 ∧
      y.collected.count 0 = 0 ∧
      Throughout (fun _ => .new (-5) 0) .forEachSession
        (.begin (fun _ => .new (-5) 0) (2 ^ 31 + 1) [.add 0])
        acts fun z => z.manager.Registered (fun _ => .new (-5) 0) 0) ∧
    ∃ acts y, exec (Scan.step (fun _ => .new 7 0) (.cleanupInactive 10 300))
        (.begin (fun _ => .new 7 0) 4 [.add 0]) acts = some y ∧ y.shard = 4 ∧
      y.collected.count 0 = 0 ∧
      Throughout (fun _ => .new 7 0) (.cleanupInactive 10 300) (.begin (fun _ => .new 7 0) 4 [.add 0])
        acts fun z => z.manager.Registered (fun _ => .new 7 0) 0 :=
  ⟨scan_misses _ _ 0 (by unfold SessionManager.Registered; decide +kernel) (Or.inl (by decide +kernel)),
    scan_misses _ _ 0 (by unfold SessionManager.Registered; decide +kernel) (Or.inr (by decide +kernel))⟩

end DBMiddleWare
