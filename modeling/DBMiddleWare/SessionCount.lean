import Mathlib.Algebra.BigOperators.Intervals
import Mathlib.Algebra.Order.BigOperators.Group.Finset
import Mathlib.Algebra.Order.Ring.Nat
import DBMiddleWare.ShardScan

/-!
# The count of the monitor

`get_total_session_count` locks one shard after another, so what it returns need not be the number
of the sessions at any moment. It is off by at most the additions and the removals that other
threads make before it has finished.
-/

namespace DBMiddleWare

open Execution
set_option autoImplicit false

/-- The loop of `get_total_session_count` between two of its locks. -/
structure Tally where
  manager : SessionManager
  shard : Nat := 0
  total : Nat := 0

namespace Tally

def visit (x : Tally) : Tally :=
  { x with shard := x.shard + 1, total := x.total + (x.manager.sessionBuckets x.shard).entries.length }

def step (ids : SessionPtr → Int32) (x : Tally) : ScanStep → Option Tally
  | .visit => if x.shard < x.manager.shardCount then some x.visit else none
  | .other op => some { x with manager := op.apply ids x.manager }

end Tally

def ScanStep.adds : ScanStep → Bool
  | .other (.add _) => true
  | _ => false

def ScanStep.removes : ScanStep → Bool
  | .other (.remove _) => true
  | _ => false

def SessionManager.size (m : SessionManager) (shard : Nat) : Nat :=
  (m.sessionBuckets shard).entries.length

/-- The sessions in the shards that are still to be visited. -/
def Tally.ahead (x : Tally) : Nat :=
  ∑ shard ∈ Finset.Ico x.shard x.manager.shardCount, x.manager.size shard

section Sizes
variable (m : SessionManager) (id : Int32) (s : SessionPtr)

theorem length_erase (b : AList fun _ : Int32 => SessionPtr) :
    (b.erase id).entries.length ≤ b.entries.length ∧
    b.entries.length ≤ (b.erase id).entries.length + 1 := by
  have hlength : (b.erase id).entries.length = (List.kerase id b.entries).length := rfl
  rw [hlength, List.kerase, List.length_eraseP]
  split
  · omega
  · omega

theorem length_insert_erase (b : AList fun _ : Int32 => SessionPtr) :
    ((b.erase id).insert id s).entries.length = (b.erase id).entries.length + 1 := by
  have hfree : id ∉ b.erase id := fun h => (AList.mem_erase.mp h).1 rfl
  rw [AList.insert_of_notMem hfree]
  rfl

theorem size_setBucket (b : AList fun _ : Int32 => SessionPtr) (shard : Nat) :
    (m.setBucket id b).size shard =
      if shard = toSize (m.getShard id) then b.entries.length else m.size shard := by
  unfold SessionManager.size SessionManager.setBucket
  dsimp only
  split
  · rename_i heq
    rw [heq, Function.update_self]
  · rename_i hne
    rw [Function.update_of_ne hne]

/-- An addition makes one shard larger by one, or replaces a session in it. -/
theorem size_insertSession (shard : Nat) : m.size shard ≤ (m.insertSession id s).size shard ∧
    (m.insertSession id s).size shard ≤
      m.size shard + if shard = toSize (m.getShard id) then 1 else 0 := by
  rw [SessionManager.insertSession, size_setBucket, length_insert_erase]
  split
  · rename_i heq
    have herase := length_erase id (m.bucket id)
    have hsize : m.size shard = (m.bucket id).entries.length := heq ▸ rfl
    omega
  · exact ⟨Nat.le_refl _, Nat.le_refl _⟩

theorem size_removeSession (shard : Nat) : (m.removeSession id).size shard ≤ m.size shard ∧
    m.size shard ≤
      (m.removeSession id).size shard + if shard = toSize (m.getShard id) then 1 else 0 := by
  rw [SessionManager.removeSession, size_setBucket]
  split
  · rename_i heq
    have herase := length_erase id (m.bucket id)
    have hsize : m.size shard = (m.bucket id).entries.length := heq ▸ rfl
    omega
  · exact ⟨Nat.le_refl _, Nat.le_refl _⟩

theorem sum_le_succ {f g : Nat → Nat} {k j n : Nat} (h : ∀ i, g i ≤ f i + if i = j then 1 else 0) :
    ∑ i ∈ Finset.Ico k n, g i ≤ ∑ i ∈ Finset.Ico k n, f i + 1 := by
  have hone : ∑ i ∈ Finset.Ico k n, (if i = j then 1 else 0) ≤ 1 := by
    rw [Finset.sum_ite_eq']
    split
    · exact Nat.le_refl 1
    · exact Nat.zero_le 1
  calc ∑ i ∈ Finset.Ico k n, g i
      ≤ ∑ i ∈ Finset.Ico k n, (f i + if i = j then 1 else 0) := Finset.sum_le_sum fun i _ => h i
    _ = ∑ i ∈ Finset.Ico k n, f i + ∑ i ∈ Finset.Ico k n, (if i = j then 1 else 0) :=
      Finset.sum_add_distrib
    _ ≤ ∑ i ∈ Finset.Ico k n, f i + 1 := Nat.add_le_add_left hone _

theorem sumBuckets_eq_sum : m.sumBuckets = ∑ shard ∈ Finset.Ico 0 m.shardCount, m.size shard := by
  have hfold : ∀ n, (List.range n).foldl
      (fun total shard => total + (m.sessionBuckets shard).entries.length) 0 =
      ∑ shard ∈ Finset.Ico 0 n, m.size shard := by
    intro n
    induction n with
    | zero => rfl
    | succ n ih =>
      rw [List.range_succ, List.foldl_append, ih, Finset.sum_Ico_succ_top (Nat.zero_le n)]
      rfl
  exact hfold m.shardCount

end Sizes

/-- What has been counted and what is still ahead, against the sessions at the beginning. -/
structure Tallied (before : SessionManager) (acts : List ScanStep) (x : Tally) : Prop where
  shards : x.manager.shardCount = before.shardCount
  most : x.total + x.ahead ≤ before.getTotalSessionCount + acts.countP ScanStep.adds
  least : before.getTotalSessionCount ≤ x.total + x.ahead + acts.countP ScanStep.removes

section Count
variable {ids : SessionPtr → Int32} {before : SessionManager} {acts : List ScanStep} {x y : Tally}
    {a : ScanStep}

theorem ahead_visit (more : x.shard < x.manager.shardCount) :
    x.visit.total + x.visit.ahead = x.total + x.ahead := by
  have hsplit : x.ahead = x.manager.size x.shard + x.visit.ahead :=
    Finset.sum_eq_sum_Ico_succ_bot more fun shard => x.manager.size shard
  rw [hsplit, ← Nat.add_assoc]
  rfl

theorem Tallied.other (h : Tallied before acts x) (a : ScanStep) {m : SessionManager}
    (shards : m.shardCount = x.manager.shardCount)
    (most : ({ x with manager := m } : Tally).ahead ≤ x.ahead + if a.adds then 1 else 0)
    (least : x.ahead ≤ ({ x with manager := m } : Tally).ahead + if a.removes then 1 else 0) :
    Tallied before (acts ++ [a]) { x with manager := m } := by
  have hmost := h.most
  have hleast := h.least
  refine ⟨shards.trans h.shards, ?_, ?_⟩
  · rw [List.countP_append, List.countP_singleton]
    dsimp only
    omega
  · rw [List.countP_append, List.countP_singleton]
    dsimp only
    omega

theorem Tallied.step (h : Tallied before acts x) (hs : Tally.step ids x a = some y) :
    Tallied before (acts ++ [a]) y := by
  cases a with
  | visit =>
    simp only [Tally.step, Option.ite_none_right_eq_some, Option.some.injEq] at hs
    obtain ⟨hmore, rfl⟩ := hs
    have hsame := ahead_visit hmore
    refine ⟨h.shards, ?_, ?_⟩
    · rw [hsame, List.countP_append]
      exact h.most
    · rw [hsame, List.countP_append]
      exact h.least
  | other op =>
    obtain rfl := Option.some.inj hs
    cases op with
    | add s =>
      refine h.other _ rfl ?_ ?_
      · exact sum_le_succ fun i => (size_insertSession x.manager (ids s) s i).2
      · exact Finset.sum_le_sum fun i _ => (size_insertSession x.manager (ids s) s i).1
    | remove id =>
      refine h.other _ rfl ?_ ?_
      · exact Finset.sum_le_sum fun i _ => (size_removeSession x.manager id i).1
      · exact sum_le_succ fun i => (size_removeSession x.manager id i).2

end Count

/-- However the locks of the shards fall between the steps of other threads, the total differs from the
number of the sessions at the beginning by at most the additions and the removals meanwhile. -/
theorem session_count_bracket (ids : SessionPtr → Int32) (before : SessionManager) (acts : List ScanStep)
    (x : Tally) (run : exec (Tally.step ids) { manager := before } acts = some x)
    (done : x.shard = before.shardCount) :
    x.total ≤ before.getTotalSessionCount + acts.countP ScanStep.adds ∧
    before.getTotalSessionCount ≤ x.total + acts.countP ScanStep.removes := by
  have htallied : Tallied before acts x := by
    refine history_invariant (H := fun acts x => Tallied before acts x) ?_ ?_ run
    · have hall : before.getTotalSessionCount = ∑ i ∈ Finset.Ico 0 before.shardCount, before.size i :=
        sumBuckets_eq_sum before
      refine ⟨rfl, ?_, ?_⟩
      · rw [hall]
        exact Nat.le_of_eq (Nat.zero_add _)
      · rw [hall]
        exact Nat.le_of_eq (Nat.zero_add _).symm
    · exact fun acts x a y _ h hs => h.step hs
  have hnone : x.ahead = 0 := by
    rw [Tally.ahead, htallied.shards, done, Finset.Ico_self, Finset.sum_empty]
  have hmost := htallied.most
  have hleast := htallied.least
  rw [hnone] at hmost hleast
  exact ⟨hmost, hleast⟩

/-- Between the two shards a session comes into the first one, and the session of the second one goes. -/
theorem session_count_bracket_two :
    let ids : SessionPtr → Int32 := fun s => Int32.ofNat s
    let before := (({ shardCount := 2 } : SessionManager).insertSession 0 0).insertSession 1 1
    let acts := [.visit, .other (.add 2), .other (.remove 1), .visit]
    ∃ x, exec (Tally.step ids) { manager := before } acts = some x ∧ x.total = 1 ∧
      before.getTotalSessionCount ≤ x.total + acts.countP ScanStep.removes := by
  intro ids before acts
  have hrun : (exec (Tally.step ids) { manager := before } acts).map (fun x => (x.shard, x.total)) =
      some (2, 1) := by decide +kernel
  obtain ⟨x, run, hview⟩ := Option.map_eq_some_iff.mp hrun
  obtain ⟨hshard, htotal⟩ := Prod.mk.inj hview
  exact ⟨x, run, htotal, (session_count_bracket ids before acts x run hshard).2⟩

end DBMiddleWare
