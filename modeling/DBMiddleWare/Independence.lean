import DBMiddleWare.Library.Conflicts
import DBMiddleWare.Twins

/-!
# Which steps may change places

Most steps touch nothing but their session and its place in the registry, a lookup also reads the
nickname index, and a registration writes it and touches the session that it evicts. So the outcome
of a run depends on the order of the steps of each session and of the registrations with the
lookups, and on nothing else of the interleaving.
-/

namespace DBMiddleWare

open Execution Conflicts
set_option autoImplicit false

inductive Footprint where
  | own (s : SessionPtr)
  | reads (s : SessionPtr)
  | writes (s : SessionPtr) (prev : Option SessionPtr)
  | all
  deriving DecidableEq

namespace Footprint

def touches : Footprint → SessionPtr → Bool
  | .own s, t => s = t
  | .reads s, t => s = t
  | .writes s prev, t => s = t ∨ prev = some t
  | .all, _ => true

/-- Two lookups do not conflict. -/
def conflicts : Footprint → Footprint → Bool
  | .own s, g => g.touches s
  | f, .own t => f.touches t
  | .reads s, .reads t => s = t
  | _, _ => true

theorem conflicts_self (f : Footprint) : f.conflicts f = true := by
  cases f <;> simp [conflicts, touches]

theorem conflicts_symm (f g : Footprint) (h : f.conflicts g = true) : g.conflicts f = true := by
  cases f <;> cases g <;> simp_all [conflicts, touches]

end Footprint

def World.footprint (σ : World) : Act → Footprint
  | .on _ .sweep => .all
  | .on _ .destroy => .all
  | .on s .advance =>
    match (σ.session s).phase with
    | .loginLookup _ => .reads s
    | .loginRegister nickname => .writes s (σ.previousOwner s nickname)
    | .loginEvict _ prev => .writes s (some prev)
    | _ => .own s
  | .on s _ => .own s
  | _ => .all

/-- Another state of a session, with some ids taken out of the registry. -/
def World.put (σ : World) (t : SessionPtr) (o : Session) (ids : List Int32) : World :=
  { σ with
    session := Function.update σ.session t o
    manager := ids.foldl SessionManager.removeSession σ.manager }

section Put
variable (σ : World) {s t : SessionPtr} {o : Session} {ids : List Int32}

theorem removeSession_comm (m : SessionManager) (id id' : Int32) :
    (m.removeSession id).removeSession id' = (m.removeSession id').removeSession id := by
  have hbuckets : ∀ i j : Int32, ((m.removeSession i).removeSession j).sessionBuckets =
      Function.update (Function.update m.sessionBuckets (toSize (m.getShard i)) ((m.bucket i).erase i))
        (toSize (m.getShard j))
        ((Function.update m.sessionBuckets (toSize (m.getShard i)) ((m.bucket i).erase i)
          (toSize (m.getShard j))).erase j) := fun _ _ => rfl
  have hcomm : ((m.removeSession id).removeSession id').sessionBuckets =
      ((m.removeSession id').removeSession id).sessionBuckets := by
    rw [hbuckets, hbuckets]
    by_cases hshard : toSize (m.getShard id) = toSize (m.getShard id')
    · simp only [SessionManager.bucket, hshard, Function.update_self, Function.update_idem]
      rw [AList.erase_erase]
    · rw [Function.update_of_ne (Ne.symm hshard), Function.update_of_ne hshard,
        Function.update_comm hshard]
      rfl
  calc (m.removeSession id).removeSession id'
      = { m with sessionBuckets := ((m.removeSession id).removeSession id').sessionBuckets } := rfl
    _ = { m with sessionBuckets := ((m.removeSession id').removeSession id).sessionBuckets } := by
      rw [hcomm]
    _ = (m.removeSession id').removeSession id := rfl

theorem removeSession_foldl (m : SessionManager) (id : Int32) :
    ids.foldl SessionManager.removeSession (m.removeSession id) =
      (ids.foldl SessionManager.removeSession m).removeSession id := by
  induction ids generalizing m with
  | nil => rfl
  | cons id' ids ih => rw [List.foldl_cons, List.foldl_cons, removeSession_comm, ih]

theorem setOwner_foldl (m : SessionManager) (n : String) (s : SessionPtr) :
    ids.foldl SessionManager.removeSession (m.setOwner n s) =
      (ids.foldl SessionManager.removeSession m).setOwner n s := by
  induction ids generalizing m with
  | nil => rfl
  | cons id ids ih => exact ih (m.removeSession id)

theorem foldl_owner (m : SessionManager) (n : String) :
    (ids.foldl SessionManager.removeSession m).owner n = m.owner n := by
  induction ids generalizing m with
  | nil => rfl
  | cons id ids ih => exact ih (m.removeSession id)

theorem put_session_of_ne (ne : s ≠ t) : (σ.put t o ids).session s = σ.session s :=
  Function.update_of_ne ne ..

theorem put_session_self : (σ.put t o ids).session t = o := Function.update_self ..

theorem put_find (n : String) : (σ.put t o ids).findSessionByNickname n = σ.findSessionByNickname n := by
  unfold World.findSessionByNickname
  have howner : (σ.put t o ids).manager.owner n = σ.manager.owner n := foldl_owner σ.manager n
  rw [howner]
  rfl

theorem put_previousOwner (n : String) : (σ.put t o ids).previousOwner s n = σ.previousOwner s n := by
  unfold World.previousOwner
  rw [put_find]

theorem put_modify (ne : s ≠ t) (f : Session → Session) :
    (σ.put t o ids).modify s f = (σ.modify s f).put t o ids := by
  unfold World.modify
  rw [put_session_of_ne σ ne]
  unfold World.put
  rw [Function.update_comm ne]

theorem put_closeSession (ne : s ≠ t) :
    (σ.put t o ids).closeSession s = (σ.closeSession s).put t o ids := by
  unfold World.closeSession
  rw [put_session_of_ne σ ne, put_modify σ ne]
  split
  · rfl
  · unfold World.removeSession World.put
    dsimp only
    rw [removeSession_foldl]

theorem put_indexNickname (ne : s ≠ t) (n : String) :
    (σ.put t o ids).indexNickname s n = (σ.indexNickname s n).put t o ids := by
  unfold World.indexNickname
  rw [put_modify σ ne]
  unfold World.put
  dsimp only
  rw [setOwner_foldl]

end Put

section Beside
variable {env : Env} {σ σ' τ : World} {s t : SessionPtr} {o : Session} {ids : List Int32} {e : Event}

theorem beside_put (ne : s ≠ t) : Beside s fun σ τ => τ = σ.put t o ids where
  session σ τ same := by rw [same, put_session_of_ne σ ne]
  modify σ τ f same _ := by
    rw [same, put_modify σ ne]
  close σ τ same := by rw [same, put_closeSession σ ne]

/-- What the steps of a session make of it, and of the registry. -/
theorem beside_both (σ τ : World) (t : SessionPtr) :
    Beside t fun σ' τ' => ∃ o ids, σ' = σ.put t o ids ∧ τ' = τ.put t o ids := by
  have hmodify : ∀ (ρ : World) (o : Session) (ids : List Int32) (f : Session → Session),
      (ρ.put t o ids).modify t f = ρ.put t (f o) ids := by
    intro ρ o ids f
    unfold World.modify
    rw [put_session_self]
    unfold World.put
    rw [Function.update_idem]
  have hclose : ∀ (ρ : World) (o : Session) (ids : List Int32), (ρ.put t o ids).closeSession t =
      ρ.put t o.shut (if o.closed then ids else ids ++ [o.sessionId]) := by
    intro ρ o ids
    unfold World.closeSession
    rw [put_session_self, hmodify]
    split
    · rfl
    · unfold World.removeSession World.put
      rw [List.foldl_append]
      rfl
  refine ⟨?_, ?_, ?_⟩
  · rintro _ _ ⟨o, ids, rfl, rfl⟩
    rw [put_session_self, put_session_self]
  · rintro _ _ f ⟨o, ids, rfl, rfl⟩ _
    exact ⟨f o, ids, hmodify σ o ids f, hmodify τ o ids f⟩
  · rintro _ _ ⟨o, ids, rfl, rfl⟩
    exact ⟨o.shut, _, hclose σ o ids, hclose τ o ids⟩

theorem put_same (σ : World) (t : SessionPtr) : σ = σ.put t (σ.session t) [] := by
  unfold World.put
  rw [Function.update_eq_self]
  rfl

theorem own_iff : σ.footprint (.on s e) = .own s ↔
    (e = .advance → (σ.session s).phase.directory = false) ∧ e ≠ .sweep ∧ e ≠ .destroy := by
  cases e with
  | advance =>
    cases hp : (σ.session s).phase <;> simp [World.footprint, hp, Phase.directory]
  | _ => simp [World.footprint]

theorem put_lookupStep (ne : s ≠ t) (n : String) :
    (σ.put t o ids).lookupStep s n = (σ.lookupStep s n).put t o ids := by
  unfold World.lookupStep
  rw [put_find]
  split
  · exact put_modify σ ne _
  · exact put_modify σ ne _

theorem put_registerStep (ne : s ≠ t) (n : String) (other : σ.previousOwner s n ≠ some t) :
    (σ.put t o ids).registerStep s n = (σ.registerStep s n).put t o ids := by
  unfold World.registerStep
  rw [put_previousOwner]
  split
  · rename_i prev hprev
    have hne : prev ≠ t := fun heq => other (heq ▸ hprev)
    unfold World.dispatch World.setPhase
    rw [put_modify σ hne, put_modify _ ne]
    rfl
  · rw [put_indexNickname σ ne]
    exact put_modify _ ne _

theorem put_evictStep (ne : s ≠ t) (n : String) {prev : SessionPtr} (other : prev ≠ t) :
    (σ.put t o ids).evictStep s n prev = (σ.evictStep s n prev).put t o ids := by
  unfold World.evictStep World.setPhase
  rw [put_closeSession σ other, put_indexNickname _ ne, put_modify _ ne]
  rfl

theorem put_advance (directory : (σ.session s).phase.directory = true)
    (clear : (σ.footprint (.on s .advance)).touches t = false) :
    (σ.put t o ids).advance env s = (σ.advance env s).map fun σ' => σ'.put t o ids := by
  unfold World.advance
  cases hp : (σ.session s).phase with
  | loginLookup n =>
    have hne : s ≠ t := by simpa [World.footprint, hp, Footprint.touches] using clear
    rw [put_session_of_ne σ hne, hp]
    dsimp only
    rw [put_lookupStep hne]
    change (if σ.nicknameMutex = none then _ else _) = _
    split
    · rfl
    · rfl
  | loginRegister n =>
    have hboth : s ≠ t ∧ σ.previousOwner s n ≠ some t := by
      simpa [World.footprint, hp, Footprint.touches] using clear
    rw [put_session_of_ne σ hboth.1, hp]
    dsimp only
    rw [put_registerStep hboth.1 n hboth.2]
    change (if σ.nicknameMutex = none then _ else _) = _
    split
    · rfl
    · rfl
  | loginEvict n prev =>
    have hboth : s ≠ t ∧ prev ≠ t := by simpa [World.footprint, hp, Footprint.touches] using clear
    rw [put_session_of_ne σ hboth.1, hp]
    dsimp only
    rw [put_evictStep hboth.1 n hboth.2]
    rfl
  | _ =>
    rw [hp] at directory
    cases directory

/-- A step that does not touch a session goes as it would with another state of that session. -/
theorem put_event (clear : (σ.footprint (.on s e)).touches t = false) :
    (σ.put t o ids).event env s e = (σ.event env s e).map fun σ' => σ'.put t o ids := by
  have hown : (e = .advance → (σ.session s).phase.directory = false) → e ≠ .sweep ∧ e ≠ .destroy →
      (σ.put t o ids).event env s e = (σ.event env s e).map fun σ' => σ'.put t o ids := by
    intro hphase hkept
    have hfoot := own_iff.mpr ⟨hphase, hkept⟩
    have hne : s ≠ t := by simpa [hfoot, Footprint.touches] using clear
    have hbeside : Beside s fun σ τ => τ = σ.put t o ids := beside_put hne
    have hrel := hbeside.event rfl env e hphase hkept
    generalize σ.event env s e = x, (σ.put t o ids).event env s e = y at hrel
    cases hrel with
    | some h => exact congrArg some h
    | none => rfl
  cases e with
  | advance =>
    cases hphase : (σ.session s).phase.directory with
    | true => exact put_advance hphase clear
    | false => exact hown (fun _ => hphase) (by simp)
  | sweep => simp [World.footprint, Footprint.touches] at clear
  | destroy => simp [World.footprint, Footprint.touches] at clear
  | _ => exact hown (by simp) (by simp)

/-- A step leaves alone the session that it does not touch. -/
theorem event_untouched (clear : (σ.footprint (.on s e)).touches t = false)
    (h : σ.event env s e = some σ') :
    σ'.session t = σ.session t := by
  have hput : (σ.put t (σ.session t) []).event env s e =
      (σ.event env s e).map fun σ' => σ'.put t (σ.session t) [] := put_event clear
  rw [← put_same, h] at hput
  rw [Option.some.inj hput, put_session_self]

/-- What a step touches does not depend on another session. -/
theorem put_footprint (ne : s ≠ t) : (σ.put t o ids).footprint (.on s e) = σ.footprint (.on s e) := by
  cases e with
  | advance =>
    unfold World.footprint
    dsimp only
    rw [put_session_of_ne σ ne]
    cases (σ.session s).phase with
    | loginRegister n => exact congrArg (Footprint.writes s) (put_previousOwner σ n)
    | _ => rfl
  | _ => rfl

/-- The step touches its session, and at most reads the nickname index. -/
def Reads (σ : World) (t : SessionPtr) (e : Event) : Prop :=
  σ.footprint (.on t e) = .own t ∨ σ.footprint (.on t e) = .reads t

theorem reads_congr (same : τ.session t = σ.session t) (reads : Reads σ t e) :
    τ.footprint (.on t e) = σ.footprint (.on t e) := by
  cases e with
  | advance =>
    unfold Reads at reads
    unfold World.footprint at reads ⊢
    dsimp only at reads ⊢
    rw [same]
    cases hp : (σ.session t).phase with
    | loginRegister n => simp [hp] at reads
    | _ => rfl
  | _ => rfl

/-- What such a step makes of its session and of the registry, it also makes of them in another state,
where the index is the same if it reads it. -/
theorem event_put (reads : Reads σ t e) (same : τ.session t = σ.session t)
    (index : σ.footprint (.on t e) = .reads t → τ.nicknameMutex = σ.nicknameMutex ∧
      ∀ n, τ.findSessionByNickname n = σ.findSessionByNickname n) (h : σ.event env t e = some σ') :
    ∃ o ids, σ' = σ.put t o ids ∧ τ.event env t e = some (τ.put t o ids) := by
  rcases reads with hown | hreads
  · obtain ⟨hphase, hkept⟩ := own_iff.mp hown
    have hstart : ∃ o ids, σ = σ.put t o ids ∧ τ = τ.put t o ids :=
      ⟨σ.session t, [], put_same σ t, same ▸ put_same τ t⟩
    obtain ⟨τ', hτ', o, ids, hσ', rfl⟩ :=
      rel_some ((beside_both σ τ t).event hstart env e hphase hkept) h
    exact ⟨o, ids, hσ', hτ'⟩
  · obtain ⟨hmutex, hfind⟩ := index hreads
    have hphase : e = .advance ∧ ∃ n, (σ.session t).phase = .loginLookup n := by
      cases e with
      | advance => cases hp : (σ.session t).phase <;> simp [World.footprint, hp] at hreads ⊢
      | _ => simp [World.footprint] at hreads
    obtain ⟨rfl, n, hp⟩ := hphase
    have hset : ∀ (ρ : World) (phase : Phase), ρ.session t = σ.session t →
        ρ.setPhase t phase = ρ.put t { σ.session t with phase := phase } [] := by
      intro ρ phase hρ
      unfold World.setPhase World.modify
      rw [hρ]
      rfl
    simp only [World.event, World.advance, hp, same, hmutex, World.lookupStep, hfind] at h ⊢
    split at h
    · rename_i hfree
      rw [if_pos hfree, ← Option.some.inj h]
      split
      · exact ⟨_, [], hset σ _ rfl, congrArg some (hset τ _ same)⟩
      · exact ⟨_, [], hset σ _ rfl, congrArg some (hset τ _ same)⟩
    · cases h

theorem event_live (kept : σ.footprint (.on t e) ≠ .all) (h : σ.event env t e = some σ') :
    σ'.live = σ.live := by
  by_cases hreads : Reads σ t e
  · obtain ⟨o, ids, rfl, _⟩ := event_put hreads rfl (fun _ => ⟨rfl, fun _ => rfl⟩) h
    rfl
  · have hphase : e = .advance ∧ ((∃ n, (σ.session t).phase = .loginRegister n) ∨
        ∃ n prev, (σ.session t).phase = .loginEvict n prev) := by
      cases e with
      | advance => cases hp : (σ.session t).phase <;> simp [Reads, World.footprint, hp] at hreads ⊢
      | sweep => exact absurd rfl kept
      | destroy => exact absurd rfl kept
      | _ => exact absurd (Or.inl rfl) hreads
    obtain ⟨rfl, ⟨n, hp⟩ | ⟨n, prev, hp⟩⟩ := hphase
    · simp only [World.event, World.advance, hp, Option.ite_none_right_eq_some] at h
      rw [← Option.some.inj h.2]
      unfold World.registerStep
      split
      · rfl
      · rfl
    · simp only [World.event, World.advance, hp] at h
      rw [← Option.some.inj h]
      exact World.closeSession_live σ prev

end Beside

section Swap
variable {env : Env} {σ σ₁ σ₂ : World} {s t : SessionPtr} {e e' : Event}

theorem footprint_cases (σ : World) (s : SessionPtr) (e : Event) : Reads σ s e ∨
    (∃ prev, σ.footprint (.on s e) = .writes s prev) ∨ σ.footprint (.on s e) = .all := by
  cases e with
  | advance => cases hp : (σ.session s).phase <;> simp [Reads, World.footprint, hp]
  | sweep => exact Or.inr (Or.inr rfl)
  | destroy => exact Or.inr (Or.inr rfl)
  | _ => exact Or.inl (Or.inl rfl)

theorem touches_self (σ : World) (s : SessionPtr) (e : Event) :
    (σ.footprint (.on s e)).touches s = true := by
  rcases footprint_cases σ s e with (h | h) | ⟨prev, h⟩ | h
  · simp [h, Footprint.touches]
  · simp [h, Footprint.touches]
  · simp [h, Footprint.touches]
  · simp [h, Footprint.touches]

theorem ne_of_clear (clear : (σ.footprint (.on s e)).touches t = false) : s ≠ t := by
  rintro rfl
  rw [touches_self] at clear
  cases clear

/-- What does not conflict with a step that writes nothing leaves its session alone, and writes nothing
if the step reads the index. -/
theorem clear_of_reads (reads : Reads σ t e)
    (free : ¬ (σ.footprint (.on t e)).conflicts (σ₁.footprint (.on s e')) = true) :
    (σ₁.footprint (.on s e')).touches t = false ∧
    (σ.footprint (.on t e) = .reads t → Reads σ₁ s e') := by
  rcases reads with hown | hreads
  · rw [hown] at free ⊢
    exact ⟨by simpa [Footprint.conflicts] using free, fun h => by cases h⟩
  · rw [hreads] at free
    rcases footprint_cases σ₁ s e' with (h | h) | ⟨prev, h⟩ | h
    · rw [h] at free ⊢
      exact ⟨by simpa [Footprint.conflicts, Footprint.touches, eq_comm] using free, fun _ => Or.inl h⟩
    · rw [h] at free ⊢
      exact ⟨by simpa [Footprint.conflicts, Footprint.touches, eq_comm] using free, fun _ => Or.inr h⟩
    · rw [h] at free
      exact absurd rfl free
    · rw [h] at free
      exact absurd rfl free

theorem clear_of_writes {prev : Option SessionPtr} (writes : σ.footprint (.on t e) = .writes t prev)
    (free : ¬ (σ.footprint (.on t e)).conflicts (σ₁.footprint (.on s e')) = true) :
    σ₁.footprint (.on s e') = .own s ∧ (σ.footprint (.on t e)).touches s = false := by
  rw [writes] at free ⊢
  rcases footprint_cases σ₁ s e' with (h | h) | ⟨prev', h⟩ | h
  · rw [h] at free
    exact ⟨h, by simpa [Footprint.conflicts] using free⟩
  · rw [h] at free
    exact absurd rfl free
  · rw [h] at free
    exact absurd rfl free
  · rw [h] at free
    exact absurd rfl free

theorem step_on : step env σ (.on s e) = some σ₁ ↔ σ.live s = true ∧ σ.event env s e = some σ₁ := by
  simp only [step, Option.ite_none_right_eq_some]

theorem swap_reads (reads : Reads σ t e) (first : step env σ (.on t e) = some σ₁)
    (second : step env σ₁ (.on s e') = some σ₂)
    (free : ¬ (σ.footprint (.on t e)).conflicts (σ₁.footprint (.on s e')) = true) :
    ∃ σ', step env σ (.on s e') = some σ' ∧ σ.footprint (.on s e') = σ₁.footprint (.on s e') ∧
      step env σ' (.on t e) = some σ₂ ∧ σ'.footprint (.on t e) = σ.footprint (.on t e) := by
  obtain ⟨hlive, hfirst⟩ := step_on.mp first
  obtain ⟨hlive', hsecond⟩ := step_on.mp second
  obtain ⟨hclear, hreads⟩ := clear_of_reads reads free
  obtain ⟨o, ids, hσ₁, _⟩ := event_put reads rfl (fun _ => ⟨rfl, fun _ => rfl⟩) hfirst
  have hfoot : σ₁.footprint (.on s e') = σ.footprint (.on s e') :=
    hσ₁ ▸ put_footprint (ne_of_clear hclear)
  rw [hfoot] at hclear
  have hput : ∀ o ids, σ₁ = σ.put t o ids →
      some σ₂ = (σ.event env s e').map fun σ' => σ'.put t o ids := by
    rintro o ids heq
    rw [← hsecond, heq]
    exact put_event hclear
  obtain ⟨σ', hσ', _⟩ := Option.map_eq_some_iff.mp (hput o ids hσ₁).symm
  have hsame : σ'.session t = σ.session t := event_untouched hclear hσ'
  -- the second step may come first; then the first does the same as before
  have hindex : σ.footprint (.on t e) = .reads t → σ'.nicknameMutex = σ.nicknameMutex ∧
      ∀ n, σ'.findSessionByNickname n = σ.findSessionByNickname n := by
    intro h
    have hreads' : Reads σ s e' := by
      have hr := hreads h
      unfold Reads at hr ⊢
      rw [← hfoot]
      exact hr
    obtain ⟨o', ids', rfl, _⟩ := event_put hreads' rfl (fun _ => ⟨rfl, fun _ => rfl⟩) hσ'
    exact ⟨rfl, fun n => put_find σ n⟩
  obtain ⟨o', ids', hσ₁', hlast⟩ := event_put reads hsame hindex hfirst
  have hσ₂ := hput o' ids' hσ₁'
  rw [hσ', Option.map_some] at hσ₂
  have hkept : σ.footprint (.on s e') ≠ .all := by
    intro h
    rw [h] at hclear
    cases hclear
  refine ⟨σ', step_on.mpr ⟨?_, hσ'⟩, hfoot.symm, step_on.mpr ⟨?_, ?_⟩, reads_congr hsame reads⟩
  · rw [hσ₁] at hlive'
    exact hlive'
  · rw [event_live hkept hσ']
    exact hlive
  · rw [hlast, hσ₂]

theorem swap_writes {prev : Option SessionPtr} (writes : σ.footprint (.on t e) = .writes t prev)
    (first : step env σ (.on t e) = some σ₁) (second : step env σ₁ (.on s e') = some σ₂)
    (free : ¬ (σ.footprint (.on t e)).conflicts (σ₁.footprint (.on s e')) = true) :
    ∃ σ', step env σ (.on s e') = some σ' ∧ σ.footprint (.on s e') = σ₁.footprint (.on s e') ∧
      step env σ' (.on t e) = some σ₂ ∧ σ'.footprint (.on t e) = σ.footprint (.on t e) := by
  obtain ⟨hlive, hfirst⟩ := step_on.mp first
  obtain ⟨hlive', hsecond⟩ := step_on.mp second
  obtain ⟨hown, hclear⟩ := clear_of_writes writes free
  have hsame : σ.session s = σ₁.session s := (event_untouched hclear hfirst).symm
  have hnoindex : σ₁.footprint (.on s e') = .reads s → σ.nicknameMutex = σ₁.nicknameMutex ∧
      ∀ n, σ.findSessionByNickname n = σ₁.findSessionByNickname n := by
    intro h
    rw [hown] at h
    cases h
  obtain ⟨o, ids, hσ₂, hnew⟩ := event_put (Or.inl hown) hsame hnoindex hsecond
  have hput : (σ.put s o ids).event env t e = (σ.event env t e).map
      fun σ' => σ'.put s o ids := put_event hclear
  have hkept : σ.footprint (.on t e) ≠ .all := by
    intro h
    rw [h] at writes
    cases writes
  refine ⟨σ.put s o ids, step_on.mpr ⟨?_, hnew⟩, reads_congr hsame (Or.inl hown),
    step_on.mpr ⟨hlive, ?_⟩, put_footprint (ne_of_clear hclear)⟩
  · rw [event_live hkept hfirst] at hlive'
    exact hlive'
  · rw [hput, hfirst, hσ₂]
    rfl

end Swap

/-- Steps that do not conflict may change places. -/
theorem independent (env : Env) :
    Independent (step env) World.footprint fun f g => f.conflicts g = true where
  refl := Footprint.conflicts_self
  symm := Footprint.conflicts_symm
  swap := by
    intro σ a σ₁ b σ₂ first second free
    have hall : ∀ f : Footprint, Footprint.conflicts .all f = true ∧ f.conflicts .all = true := by
      intro f
      cases f <;> exact ⟨rfl, rfl⟩
    cases a with
    | on t e =>
      cases b with
      | on s e' =>
        rcases footprint_cases σ t e with hreads | ⟨prev, hwrites⟩ | hend
        · exact swap_reads hreads first second free
        · exact swap_writes hwrites first second free
        · rw [hend] at free
          exact absurd (hall _).1 free
      | _ => exact absurd (hall _).2 free
    | _ => exact absurd (hall _).1 free

/-- The outcome of a run depends on the order of the conflicting steps, and on nothing else of its
interleaving. -/
theorem conflicts_determine_outcome (env : Env) (σ τ : World) (acts : List Act)
    (run : exec (step env) σ acts = some τ) (trace : List (Act × Footprint))
    (same : SameOrder (fun x y => x.2.conflicts y.2 = true) (traced (step env) World.footprint σ acts)
      trace) :
    exec (step env) σ (trace.map Prod.fst) = some τ ∧
      traced (step env) World.footprint σ (trace.map Prod.fst) = trace :=
  (independent env).reordered run same

/-- Two logins arrive, one of them before the other or after it. -/
theorem conflicts_determine_outcome_two :
    let env := Env.ofTable [] [loginText "a", loginText "b"]
    let data := fun n => MessageBufferManager.frame .little (loginText n).1
    let front := connects 0 ++ connects 1
    ∃ τ, exec (step env) (World.init 4)
      (front ++ [.on 0 (.readData (data "a")), .on 1 (.readData (data "b"))]) =
        some τ ∧
      exec (step env) (World.init 4)
        (front ++ [.on 1 (.readData (data "b")), .on 0 (.readData (data "a"))]) =
        some τ := by
  intro env data front
  let x : Act × Footprint := (.on 0 (.readData (data "a")), .own 0)
  let y : Act × Footprint := (.on 1 (.readData (data "b")), .own 1)
  let before : List (Act × Footprint) :=
    [(.accept 0, .all), (.on 0 .start, .own 0), (.on 0 .strand, .own 0),
    (.accept 0, .all), (.on 1 .start, .own 1), (.on 1 .strand, .own 1)]
  obtain ⟨τ, run⟩ := Option.isSome_iff_exists.mp (show (exec (step env) (World.init 4)
    (front ++ [.on 0 (.readData (data "a")), .on 1 (.readData (data "b"))])).isSome by decide +kernel)
  have htrace : traced (step env) World.footprint (World.init 4)
      (front ++ [.on 0 (.readData (data "a")), .on 1 (.readData (data "b"))]) = before ++ [x, y] := by
    decide +kernel
  have hsame : SameOrder (fun x y => x.2.conflicts y.2 = true) (before ++ [x, y]) (before ++ [y, x]) :=
    SameOrder.swapped (fun x y => Footprint.conflicts_symm x.2 y.2) (.swap before x y [] (by decide))
  exact ⟨τ, run, (conflicts_determine_outcome env (World.init 4) τ _ run (before ++ [y, x])
    (htrace ▸ hsame)).1⟩

end DBMiddleWare
