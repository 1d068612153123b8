import Mathlib.Data.List.Nodup
import Mathlib.Data.List.Perm.Basic

/-!
# A queue whose front may be in progress

Items are posted at the back. The item at the front is started and stays in the
queue until it is removed, so at any time the front may or may not have been
started. Whatever is removed from the front, started items stay in posting order
and no item is started twice.
-/

namespace StartedFront

set_option autoImplicit false

universe u
variable {α : Type u}

structure Ordered (queue started posted : List α) : Prop where
  nodup : posted.Nodup
  /-- what has not been started waits behind everything that has -/
  waiting : (started ++ queue).Sublist posted ∨
    ∃ m rest, queue = m :: rest ∧ m ∈ started ∧ (started ++ rest).Sublist posted

namespace Ordered

variable {queue started posted : List α} {m : α}

theorem nil : Ordered ([] : List α) [] [] := ⟨List.nodup_nil, Or.inl (List.nil_sublist [])⟩

theorem started_sublist (h : Ordered queue started posted) : started.Sublist posted := by
  rcases h.waiting with hw | ⟨m, rest, _, _, hw⟩
  · exact (List.sublist_append_left started queue).trans hw
  · exact (List.sublist_append_left started rest).trans hw

theorem started_nodup (h : Ordered queue started posted) : started.Nodup :=
  h.started_sublist.nodup h.nodup

/-- Only the front can have been started. -/
theorem tail_not_started (h : Ordered (m :: queue) started posted) : ∀ x ∈ queue, x ∉ started := by
  have key : (started ++ queue).Sublist posted := by
    rcases h.waiting with hw | ⟨_, _, hq, _, hw⟩
    · exact ((List.Sublist.refl started).append (List.sublist_cons_self m queue)).trans hw
    · obtain ⟨rfl, rfl⟩ := List.cons.inj hq
      exact hw
  intro x hx hs
  exact (List.nodup_append'.mp (key.nodup h.nodup)).2.2 hs hx

theorem tail (h : Ordered (m :: queue) started posted) : Ordered queue started posted := by
  refine ⟨h.nodup, Or.inl ?_⟩
  rcases h.waiting with hw | ⟨_, _, hq, _, hw⟩
  · exact ((List.Sublist.refl started).append (List.sublist_cons_self m queue)).trans hw
  · obtain ⟨rfl, rfl⟩ := List.cons.inj hq
    exact hw

theorem lose (h : Ordered queue started posted) (hm : m ∉ posted) :
    Ordered queue started (posted ++ [m]) := by
  refine ⟨List.nodup_append'.mpr ⟨h.nodup, List.nodup_singleton m, by simpa using hm⟩, ?_⟩
  have grow := List.sublist_append_left posted [m]
  rcases h.waiting with hw | ⟨x, rest, hq, hx, hw⟩
  · exact Or.inl (hw.trans grow)
  · exact Or.inr ⟨x, rest, hq, hx, hw.trans grow⟩

theorem push (h : Ordered queue started posted) (hm : m ∉ posted) :
    Ordered (queue ++ [m]) started (posted ++ [m]) := by
  refine ⟨(h.lose hm).nodup, ?_⟩
  rcases h.waiting with hw | ⟨x, rest, hq, hx, hw⟩
  · exact Or.inl (by simpa using hw.append (List.Sublist.refl [m]))
  · refine Or.inr ⟨x, rest ++ [m], by rw [hq, List.cons_append], hx, ?_⟩
    simpa using hw.append (List.Sublist.refl [m])

theorem start (h : Ordered (m :: queue) started posted) (hm : m ∉ started) :
    Ordered (m :: queue) (started ++ [m]) posted := by
  refine ⟨h.nodup, Or.inr ⟨m, queue, rfl, by simp, ?_⟩⟩
  rcases h.waiting with hw | ⟨x, rest, hq, hx, _⟩
  · simpa using hw
  · exact absurd ((List.cons.inj hq).1 ▸ hx) hm

end Ordered

/-- Every posted item is in exactly one place: done, in the queue, or dropped without
having been started. -/
structure Accounted (queue started posted done dropped : List α) : Prop where
  perm : posted.Perm (done ++ queue ++ dropped)
  unstarted : ∀ m ∈ dropped, m ∉ started

namespace Accounted

variable {queue started posted done dropped : List α} {m : α}

theorem nil : Accounted ([] : List α) [] [] [] [] := ⟨.refl _, fun _ h => absurd h (by simp)⟩

theorem push (h : Accounted queue started posted done dropped) :
    Accounted (queue ++ [m]) started (posted ++ [m]) done dropped := by
  refine ⟨?_, h.unstarted⟩
  have hp := h.perm.append_right [m]
  refine hp.trans ?_
  simp only [List.append_assoc]
  exact (List.perm_append_comm.append_left _).append_left _

theorem finish (h : Accounted (m :: queue) started posted done dropped) :
    Accounted queue started posted (done ++ [m]) dropped :=
  ⟨by simpa using h.perm, h.unstarted⟩

theorem drop (h : Accounted (m :: queue) started posted done dropped) (hm : m ∉ started) :
    Accounted queue started posted done (dropped ++ [m]) := by
  constructor
  · refine h.perm.trans ?_
    simp only [List.append_assoc, List.cons_append]
    refine List.Perm.append_left _ ?_
    rw [← List.append_assoc]
    exact (List.perm_append_singleton m (queue ++ dropped)).symm
  · intro x hx
    rcases List.mem_append.mp hx with hx | hx
    · exact h.unstarted x hx
    · rwa [List.mem_singleton.mp hx]

theorem start (h : Accounted (m :: queue) started posted done dropped) (hp : posted.Nodup) :
    Accounted (m :: queue) (started ++ [m]) posted done dropped := by
  refine ⟨h.perm, fun x hx hs => ?_⟩
  rcases List.mem_append.mp hs with hs | hs
  · exact h.unstarted x hx hs
  · have hd := List.nodup_append'.mp (h.perm.nodup_iff.mp hp)
    refine hd.2.2 ?_ hx
    rw [List.mem_singleton.mp hs]
    simp

end Accounted

end StartedFront
