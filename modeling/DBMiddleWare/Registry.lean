import DBMiddleWare.Library.ShardedTable
import DBMiddleWare.Terminal

/-!
# The registry

Sessions are filed under their own id, in the shard of that id. `add_session` closes
the session it replaces when the new one is already filed, and closing removes by id.
-/

namespace DBMiddleWare

open Execution Control
set_option autoImplicit false

/-- `DataHandler::add_session`; the id it is given is not used. -/
def DataHandler.addSession (σ : World) (_sessionId : Int32) (s : SessionPtr) : World := σ.addSession s

namespace SessionManager

/-- The place of `session_buckets_` that the operations on an id work on. -/
def shardIndex (m : SessionManager) (sessionId : Int32) : Nat := toSize (m.getShard sessionId)

structure Filed (m : SessionManager) (ids : SessionPtr → Int32) : Prop where
  placed : ShardedTable.Placed m.shardIndex m.sessionBuckets
  keyed : ∀ id s, m.findSession id = some s → ids s = id

section Filed
variable {m : SessionManager} {ids : SessionPtr → Int32}

theorem Filed.insertSession (h : m.Filed ids) (s : SessionPtr) :
    (m.insertSession (ids s) s).Filed ids where
  placed := ShardedTable.Placed.insert h.placed (ids s) s
  keyed := by
    intro id t ht
    rw [findSession_insertSession] at ht
    split at ht
    · rename_i hid
      exact hid ▸ Option.some.inj ht ▸ rfl
    · exact h.keyed id t ht

theorem Filed.removeSession (h : m.Filed ids) (sessionId : Int32) :
    (m.removeSession sessionId).Filed ids where
  placed := ShardedTable.Placed.erase h.placed sessionId
  keyed := by
    intro id t ht
    rw [findSession_removeSession] at ht
    split at ht
    · cases ht
    · exact h.keyed id t ht

theorem filed_empty (shardCount : Nat) (ids : SessionPtr → Int32) :
    Filed { shardCount := shardCount } ids where
  placed := ShardedTable.placed_empty _
  keyed id s h := by simp [findSession, bucket] at h

theorem Filed.congr (h : m.Filed ids) {ids' : SessionPtr → Int32}
    (same : ∀ id s, m.findSession id = some s → ids' s = ids s) : m.Filed ids' where
  placed := h.placed
  keyed id s hs := (same id s hs).trans (h.keyed id s hs)

end Filed

end SessionManager

def World.Filed (σ : World) : Prop := σ.manager.Filed fun s => (σ.session s).sessionId

section Closing
variable {σ : World}

theorem closeSession_findSession (r : SessionPtr) (id : Int32) :
    (σ.closeSession r).manager.findSession id =
      if (σ.session r).closed = false ∧ id = (σ.session r).sessionId then none
      else σ.manager.findSession id := by
  unfold World.closeSession
  cases hclosed : (σ.session r).closed with
  | true => simp [World.modify]
  | false =>
    simp only [Bool.false_eq_true, if_false, true_and]
    exact σ.manager.findSession_removeSession _ id

theorem closeSession_sessionId (r t : SessionPtr) :
    ((σ.closeSession r).session t).sessionId = (σ.session t).sessionId :=
  World.closeSession_view σ r t (fun o => o.sessionId) fun o => o.toSessionControl.shut_sessionId

theorem World.Filed.closeSession (h : σ.Filed) (r : SessionPtr) : (σ.closeSession r).Filed := by
  have hmanager : (σ.closeSession r).manager.Filed fun s => (σ.session s).sessionId := by
    unfold World.closeSession
    split
    · exact h
    · exact SessionManager.Filed.removeSession h _
  exact hmanager.congr fun _ t _ => closeSession_sessionId r t

def ClosesOnly (σ : World) (r : SessionPtr) : Prop :=
  ∀ id t, t ≠ r → σ.manager.findSession id = some t → (σ.closeSession r).manager.findSession id = some t

theorem closesOnly_iff (r : SessionPtr) :
    ClosesOnly σ r ↔ (σ.session r).closed = true ∨
      ∀ t, σ.manager.findSession (σ.session r).sessionId = some t → t = r := by
  unfold ClosesOnly
  simp only [closeSession_findSession]
  constructor
  · intro h
    by_contra hboth
    obtain ⟨hopen, t, ht, hne⟩ : (σ.session r).closed = false ∧
        ∃ t, σ.manager.findSession (σ.session r).sessionId = some t ∧ t ≠ r := by simpa using hboth
    have := h _ t hne ht
    rw [if_pos ⟨hopen, rfl⟩] at this
    cases this
  · rintro hcond id t hne ht
    rw [if_neg]
    · exact ht
    · rintro ⟨hopen, rfl⟩
      rcases hcond with hclosed | hown
      · rw [hopen] at hclosed
        cases hclosed
      · exact hne (hown t ht)

end Closing

/-- What the caller of `add_session` relies on. -/
structure KeepsNewcomer (σ : World) (sessionId : Int32) (s : SessionPtr) : Prop where
  found : (DataHandler.addSession σ sessionId s).manager.findSession sessionId = some s
  closed : ∀ r, r ≠ s → σ.manager.findSession sessionId = some r →
    ((DataHandler.addSession σ sessionId s).session r).closed = true
  unregistered : ∀ r, r ≠ s → σ.manager.findSession sessionId = some r →
    ∀ id, (DataHandler.addSession σ sessionId s).manager.findSession id ≠ some r
  others : ∀ id, id ≠ sessionId →
    (DataHandler.addSession σ sessionId s).manager.findSession id = σ.manager.findSession id

section Replacement
variable {σ : World}

/-- The new session is filed; when it replaces an open session, that one is closed and
takes the new entry with it. -/
theorem addSession_findSession (h : σ.Filed) (s : SessionPtr) (id : Int32) :
    (σ.addSession s).manager.findSession id =
      if id = (σ.session s).sessionId then
        if ∀ r, σ.manager.findSession id = some r → (σ.session r).closed = true then some s else none
      else σ.manager.findSession id := by
  have hinsert := σ.manager.findSession_insertSession (σ.session s).sessionId s id
  unfold World.addSession
  dsimp only
  split
  · rename_i r hr
    have hid : (σ.session r).sessionId = (σ.session s).sessionId := h.keyed _ r hr
    split
    · rename_i hclosed
      rw [hinsert]
      split
      · rename_i heq
        subst heq
        rw [if_pos]
        intro t ht
        rw [hr] at ht
        exact Option.some.inj ht ▸ hclosed
      · rfl
    · rename_i hopen
      rw [closeSession_findSession, hinsert]
      split
      · rename_i hboth
        rw [if_pos (hboth.2.trans hid), if_neg]
        intro hall
        exact hopen (hall r (hboth.2.trans hid ▸ hr))
      · rename_i hnot
        have hne : id ≠ (σ.session s).sessionId := fun heq =>
          hnot ⟨Bool.eq_false_iff.mpr hopen, heq.trans hid.symm⟩
        rw [if_neg hne, if_neg hne]
  · rename_i hnone
    rw [hinsert]
    split
    · rename_i heq
      subst heq
      rw [if_pos]
      intro t ht
      rw [hnone] at ht
      cases ht
    · rfl

/-- Adding closes the open session filed under the id, and no other. -/
theorem addSession_closed (s r : SessionPtr) :
    ((σ.addSession s).session r).closed = true ↔
      (σ.session r).closed = true ∨ σ.manager.findSession (σ.session s).sessionId = some r := by
  unfold World.addSession
  dsimp only
  split
  · rename_i t ht
    split
    · rename_i hclosed
      constructor
      · exact Or.inl
      · rintro (h | h)
        · exact h
        · rw [ht] at h
          exact Option.some.inj h ▸ hclosed
    · rw [World.closeSession_session, World.modify_session]
      split
      · rename_i heq
        subst heq
        simp [Session.shut, ht]
      · rename_i hne
        rw [ht]
        simp [Ne.symm hne]
  · rename_i hnone
    simp [hnone]

theorem keepsNewcomer_iff (h : σ.Filed) (sessionId : Int32) (s : SessionPtr) :
    KeepsNewcomer σ sessionId s ↔ sessionId = (σ.session s).sessionId ∧
      ∀ r, σ.manager.findSession sessionId = some r → (σ.session r).closed = true := by
  have hfind := addSession_findSession h s
  constructor
  · intro hk
    have hfound := hk.found
    change (σ.addSession s).manager.findSession sessionId = some s at hfound
    rw [hfind] at hfound
    split at hfound
    · rename_i heq
      refine ⟨heq, ?_⟩
      by_contra hopen
      rw [if_neg hopen] at hfound
      cases hfound
    · exact absurd (h.keyed _ s hfound).symm (by assumption)
  · rintro ⟨rfl, hclosed⟩
    have hself : (σ.addSession s).manager.findSession (σ.session s).sessionId = some s := by
      rw [hfind, if_pos rfl, if_pos hclosed]
    constructor
    · exact hself
    · intro r _ hr
      exact (addSession_closed s r).mpr (Or.inr hr)
    · intro r hne hr id hid
      change (σ.addSession s).manager.findSession id = some r at hid
      by_cases heq : id = (σ.session s).sessionId
      · rw [heq, hself] at hid
        exact hne (Option.some.inj hid).symm
      · rw [hfind, if_neg heq] at hid
        exact heq ((h.keyed id r hid).symm.trans (h.keyed _ r hr))
    · intro id hne
      change (σ.addSession s).manager.findSession id = _
      rw [hfind, if_neg hne]

theorem World.Filed.addSession (h : σ.Filed) (s : SessionPtr) : (σ.addSession s).Filed := by
  have hinsert : World.Filed { σ with manager := σ.manager.insertSession (σ.session s).sessionId s } :=
    SessionManager.Filed.insertSession h s
  rcases addSession_cases σ s with heq | ⟨r, _, heq⟩
  · exact heq ▸ hinsert
  · exact heq ▸ hinsert.closeSession r

theorem World.Filed.postWrite (h : σ.Filed) (s : SessionPtr) (cfg : Config) (text : Bytes) :
    (σ.postWrite s cfg text).Filed := by
  rcases control_postWrite (s := s) (σ := σ) cfg text with hsame | ⟨_, _, hflag⟩
  · exact SessionManager.Filed.congr h
      fun _ t _ => congrArg (fun c : Control => (c.session t).sessionId) hsame
  · refine SessionManager.Filed.congr h fun _ t _ => ?_
    have ht := congrArg (fun c : Control => (c.session t).sessionId) hflag
    exact ht.trans (Control.modify_view σ.control s t .flag SessionControl.sessionId fun _ => rfl)

/-- When a session is added under its own id and the one filed there before is closed, the new
session stays, and in no other case; closing removes another session unless the session is
closed already or no other is filed under its id. -/
theorem replacement_keeps_newcomer_iff (σ : World) (filed : σ.Filed) :
    (∀ sessionId s, KeepsNewcomer σ sessionId s ↔ sessionId = (σ.session s).sessionId ∧
      ∀ r, σ.manager.findSession sessionId = some r → (σ.session r).closed = true) ∧
    ∀ r, ClosesOnly σ r ↔ (σ.session r).closed = true ∨
      ∀ t, σ.manager.findSession (σ.session r).sessionId = some t → t = r :=
  ⟨keepsNewcomer_iff filed, closesOnly_iff⟩

/-- The write queue has flagged the registered session as closed when another one comes with its id. -/
theorem replacement_keeps_newcomer_iff_flagged :
    ∃ σ : World, σ.Filed ∧ σ.manager.findSession 0 = some 0 ∧ (σ.session 0).closed = true ∧
      KeepsNewcomer σ 0 1 ∧ ClosesOnly σ 0 ∧ ¬ ClosesOnly σ 1 := by
  let cfg : Config := { maxWriteQueueSize := 1, writeQueueOverflowLimit := 1 }
  let σ := (((World.init 4).addSession 0).postWrite 0 cfg []).postWrite 0 cfg []
  have empty : (World.init 4).Filed := SessionManager.filed_empty 4 _
  have filed : σ.Filed := ((empty.addSession 0).postWrite 0 cfg []).postWrite 0 cfg []
  have found : σ.manager.findSession 0 = some 0 := by decide +kernel
  have flagged : (σ.session 0).closed = true := by decide +kernel
  obtain ⟨hkeeps, hcloses⟩ := replacement_keeps_newcomer_iff σ filed
  refine ⟨σ, filed, found, flagged, (hkeeps 0 1).mpr ⟨by decide +kernel, fun r hr => ?_⟩,
    (hcloses 0).mpr (Or.inl flagged), fun honly => ?_⟩
  · rw [found] at hr
    exact Option.some.inj hr ▸ flagged
  · rcases (hcloses 1).mp honly with hclosed | hown
    · revert hclosed
      decide +kernel
    · have hsame : (0 : SessionPtr) = 1 := hown 0 (by decide +kernel)
      cases hsame

/-- Two open sessions with one id: the second replaces the first, and then neither is found. -/
theorem replaced_session_takes_newcomer :
    (DataHandler.addSession ((World.init 4).addSession 0) 0 1).manager.findSession 0 = none ∧
      ¬ KeepsNewcomer ((World.init 4).addSession 0) 0 1 ∧
      ¬ ClosesOnly ((World.init 4).addSession 0) 1 := by
  refine ⟨by decide, fun h => ?_, fun h => ?_⟩
  · have hfound := h.found
    revert hfound
    decide
  · have hfound := h 0 0 (by decide) (by decide)
    revert hfound
    decide

end Replacement

structure FiledKnown (c : Control) : Prop where
  filed : c.manager.Filed fun t => (c.session t).sessionId
  known : ∀ id t, c.manager.findSession id = some t → t < c.nextPtr

section Reachable
variable {c c' : Control}

theorem FiledKnown.accept (h : FiledKnown c) (sessionId : Int32) : FiledKnown (c.accept sessionId) := by
  have hids : ∀ id t, c.manager.findSession id = some t →
      ((c.accept sessionId).session t).sessionId = (c.session t).sessionId := by
    intro id t ht
    rw [accept_session_of_ne c t sessionId (Nat.ne_of_lt (h.known id t ht))]
  have hnew : ((c.accept sessionId).session c.nextPtr).sessionId = sessionId := by
    rw [accept_session_new]
  constructor
  · have hfiled := (h.filed.congr hids).insertSession c.nextPtr
    rwa [hnew] at hfiled
  · intro id t ht
    rw [accept_findSession] at ht
    split at ht
    · exact Option.some.inj ht ▸ Nat.lt_succ_self _
    · exact Nat.lt_succ_of_lt (h.known id t ht)

theorem FiledKnown.modify (h : FiledKnown c) (s : SessionPtr) {f : SessionControl → SessionControl}
    (sessionId : ∀ o, (f o).sessionId = o.sessionId) : FiledKnown (c.modify s f) where
  filed := h.filed.congr fun _ t _ => modify_view c s t f SessionControl.sessionId sessionId
  known := h.known

theorem FiledKnown.close (h : FiledKnown c) (s : SessionPtr) : FiledKnown (c.close s) := by
  constructor
  · have hmanager : (c.close s).manager.Filed fun t => (c.session t).sessionId := by
      unfold Control.close
      split
      · exact h.filed
      · exact h.filed.removeSession _
    exact hmanager.congr fun _ t _ =>
      close_view c s t SessionControl.sessionId SessionControl.shut_sessionId
  · intro id t ht
    rw [close_nextPtr]
    exact h.known id t (close_findSession c s t ht).1

theorem FiledKnown.step {env : Env} {op : Op} (h : FiledKnown c) (step : Step env c op c') :
    FiledKnown c' := by
  cases step with
  | accept sessionId => exact h.accept sessionId
  | destroy s _ => exact ⟨h.filed, h.known⟩
  | close s => exact h.close s
  | flag s => exact h.modify s fun _ => rfl
  | goto s phase _ _ _ => exact h.modify s fun _ => rfl
  | receive s packet _ => exact h.modify s fun _ => rfl
  | lookup s nickname _ _ => exact h.modify s fun _ => rfl
  | name s nickname _ => exact h.modify s fun _ => rfl
  | ready s nickname _ => exact h.modify s fun _ => rfl
  | evict s nickname prev _ _ _ => exact h.modify s fun _ => rfl
  | index s nickname _ =>
    have hindexed : FiledKnown (c.modify s (.index nickname)) := h.modify s fun _ => rfl
    exact ⟨⟨hindexed.filed.placed, hindexed.filed.keyed⟩, hindexed.known⟩
  | ack s nickname _ => exact h.modify s fun _ => rfl

theorem filedKnown_of_run {env : Env} {shardCount : Nat} {acts : List Act} {σ : World}
    (run : exec (step env) (World.init shardCount) acts = some σ) : FiledKnown σ.control := by
  have hinit : FiledKnown (World.init shardCount).control :=
    ⟨SessionManager.filed_empty shardCount _,
      fun id t ht => by simp [World.control, World.init, SessionManager.findSession,
        SessionManager.bucket] at ht⟩
  exact invariant (I := fun σ : World => FiledKnown σ.control)
    (fun _ _ _ hσ hs => control_preserved (fun _ _ _ hop hc => hc.step hop) hs hσ) hinit run

/-- Every state the server reaches has its sessions filed. -/
theorem filed_of_run {env : Env} {shardCount : Nat} {acts : List Act} {σ : World}
    (run : exec (step env) (World.init shardCount) acts = some σ) : σ.Filed :=
  (filedKnown_of_run run).filed

end Reachable

end DBMiddleWare
