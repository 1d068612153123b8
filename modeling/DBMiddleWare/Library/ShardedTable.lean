import Mathlib.Data.List.AList
import Mathlib.Data.List.Nodup

/-!
# Sharded tables

A table cut into shards, each key filed in the shard that a function of the key names.
It represents a single table; listing the shards one after another lists the entries of
the single table, in some order.
-/

namespace ShardedTable

set_option autoImplicit false

universe u v
variable {κ : Type u} {β : Type v}

/-- Every key is filed in its own shard. -/
def Placed (shard : κ → Nat) (shards : Nat → AList fun _ : κ => β) : Prop :=
  ∀ i k, k ∈ shards i → i = shard k

def entries (n : Nat) (shards : Nat → AList fun _ : κ => β) : List (Sigma fun _ : κ => β) :=
  (List.range n).flatMap fun i => (shards i).entries

theorem placed_empty (shard : κ → Nat) : Placed shard fun _ => (∅ : AList fun _ : κ => β) :=
  fun _ _ h => absurd h (AList.notMem_empty _)

/-- A shard may be replaced by one whose keys belong there. -/
theorem Placed.update {shard : κ → Nat} {shards : Nat → AList fun _ : κ => β}
    (h : Placed shard shards) (i : Nat) {b : AList fun _ : κ => β}
    (belongs : ∀ k ∈ b, i = shard k) : Placed shard (Function.update shards i b) := by
  intro j k hk
  by_cases hj : j = i
  · subst hj
    rw [Function.update_self] at hk
    exact belongs k hk
  · rw [Function.update_of_ne hj] at hk
    exact h j k hk

theorem length_entries (n : Nat) (shards : Nat → AList fun _ : κ => β) :
    (entries n shards).length =
      (List.range n).foldl (fun total i => total + (shards i).entries.length) 0 := by
  unfold entries
  induction n with
  | zero => rfl
  | succ n ih =>
    rw [List.range_succ, List.flatMap_append, List.length_append, ih, List.foldl_append]
    simp

variable [DecidableEq κ]

def find (shard : κ → Nat) (shards : Nat → AList fun _ : κ => β) (k : κ) : Option β :=
  (shards (shard k)).lookup k

def Represents (shard : κ → Nat) (shards : Nat → AList fun _ : κ => β)
    (table : AList fun _ : κ => β) : Prop :=
  ∀ k, find shard shards k = table.lookup k

section Rules
variable {shard : κ → Nat} {shards : Nat → AList fun _ : κ => β} {table : AList fun _ : κ => β}

theorem Placed.insert (h : Placed shard shards) (k : κ) (v : β) :
    Placed shard (Function.update shards (shard k) (((shards (shard k)).erase k).insert k v)) := by
  apply h.update
  intro l hl
  rcases (AList.mem_insert _).mp hl with rfl | hl
  · rfl
  · exact h _ l (AList.mem_erase.mp hl).2

theorem Placed.erase (h : Placed shard shards) (k : κ) :
    Placed shard (Function.update shards (shard k) ((shards (shard k)).erase k)) := by
  apply h.update
  intro l hl
  exact h _ l (AList.mem_erase.mp hl).2

theorem find_eq_some_of_mem (h : Placed shard shards) {i : Nat} {k : κ} {v : β}
    (hm : ⟨k, v⟩ ∈ (shards i).entries) : i = shard k ∧ find shard shards k = some v := by
  have hl : (shards i).lookup k = some v := AList.mem_lookup_iff.mpr hm
  have hk : k ∈ shards i := AList.lookup_isSome.mp (by rw [hl]; rfl)
  obtain rfl := h i k hk
  exact ⟨rfl, hl⟩

theorem mem_of_find {k : κ} {v : β} (h : find shard shards k = some v) :
    ⟨k, v⟩ ∈ (shards (shard k)).entries :=
  AList.mem_lookup_iff.mp h

theorem mem_entries_iff {n : Nat} (h : Placed shard shards) (range : ∀ k, shard k < n) {k : κ} {v : β} :
    ⟨k, v⟩ ∈ entries n shards ↔ find shard shards k = some v := by
  unfold entries
  rw [List.mem_flatMap]
  constructor
  · rintro ⟨i, _, hm⟩
    exact (find_eq_some_of_mem h hm).2
  · intro hf
    exact ⟨shard k, List.mem_range.mpr (range k), mem_of_find hf⟩

theorem nodup_entries (h : Placed shard shards) (n : Nat) : (entries n shards).Nodup := by
  unfold entries
  rw [List.nodup_flatMap]
  constructor
  · intro i _
    exact List.NodupKeys.nodup (shards i).nodupKeys
  · apply List.Nodup.pairwise_of_forall_ne List.nodup_range
    intro i _ j _ hij e hi hj
    exact hij ((find_eq_some_of_mem h hi).1.trans (find_eq_some_of_mem h hj).1.symm)

/-- Listing shard after shard lists the single table. -/
theorem entries_perm {n : Nat} (h : Placed shard shards) (range : ∀ k, shard k < n)
    (represents : Represents shard shards table) : (entries n shards).Perm table.entries := by
  rw [List.perm_ext_iff_of_nodup (nodup_entries h n) (List.NodupKeys.nodup table.nodupKeys)]
  rintro ⟨k, v⟩
  rw [mem_entries_iff h range, represents k]
  exact AList.mem_lookup_iff

end Rules

end ShardedTable
