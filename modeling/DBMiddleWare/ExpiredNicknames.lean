import DBMiddleWare.LockDiscipline
import DBMiddleWare.NicknameMutex
import DBMiddleWare.Twins

/-!
# Expired entries of the nickname index

`cleanup_expired_nicknames` takes out the entries whose sessions no longer exist. A lookup
finds nothing through such an entry, so the server answers the same with and without it,
whenever the cleanup is called and whatever happens afterwards.
-/

namespace DBMiddleWare

open Execution
set_option autoImplicit false

namespace World

def withIndex (σ : World) (index : AList fun _ : String => SessionPtr) : World :=
  { σ with manager := { σ.manager with nicknameIndex := index } }

section Index
variable (σ : World) (index : AList fun _ : String => SessionPtr) (s : SessionPtr)

theorem withIndex_closeSession :
    (σ.withIndex index).closeSession s = (σ.closeSession s).withIndex index := by
  unfold closeSession
  change (if (σ.session s).closed = true then _ else _) = _
  split <;> rfl

theorem withIndex_addSession : (σ.withIndex index).addSession s = (σ.addSession s).withIndex index := by
  unfold addSession
  cases hfind : σ.manager.findSession (σ.session s).sessionId with
  | none =>
    have hfind' : (σ.withIndex index).manager.findSession ((σ.withIndex index).session s).sessionId =
        none := hfind
    simp only [hfind, hfind']
    rfl
  | some r =>
    have hfind' : (σ.withIndex index).manager.findSession ((σ.withIndex index).session s).sessionId =
        some r := hfind
    simp only [hfind, hfind']
    change (if (σ.session r).closed then _ else _) = _
    split
    · rfl
    · exact withIndex_closeSession { σ with
        manager := σ.manager.insertSession (σ.session s).sessionId s } index r

theorem withIndex_accept (now : Int) :
    (σ.withIndex index).accept now = (σ.accept now).withIndex index := by
  unfold accept
  exact withIndex_addSession
    { σ with
      session := Function.update σ.session σ.nextPtr (.new σ.sessionCounter now)
      live := Function.update σ.live σ.nextPtr true
      nextPtr := σ.nextPtr + 1
      sessionCounter := σ.sessionCounter + 1 } index σ.nextPtr

end Index

theorem findSessionByNickname_congr {σ σ' : World} (owner : ∀ n, σ'.manager.owner n = σ.manager.owner n)
    (live : ∀ n s, σ.manager.owner n = some s → σ'.live s = σ.live s) (n : String) :
    σ'.findSessionByNickname n = σ.findSessionByNickname n := by
  unfold findSessionByNickname
  rw [owner n]
  cases h : σ.manager.owner n with
  | none => rfl
  | some s =>
    simp only [Option.bind_some, lock]
    rw [live n s h]

theorem findSessionByNickname_eq_some {σ : World} {n : String} {s : SessionPtr} :
    σ.findSessionByNickname n = some s ↔ σ.manager.owner n = some s ∧ σ.live s = true := by
  rw [← control_find, Control.find, Option.filter_eq_some_iff]
  rfl

theorem findSessionByNickname_index (σ : World) (s : SessionPtr) (nickname n : String) :
    (σ.indexNickname s nickname).findSessionByNickname n =
      if n = nickname then σ.lock s else σ.findSessionByNickname n := by
  unfold findSessionByNickname indexNickname
  dsimp only
  rw [SessionManager.owner_setOwner]
  split
  · rfl
  · rfl

theorem findSessionByNickname_destroy (σ : World) (s : SessionPtr) (n : String) :
    findSessionByNickname { σ with live := Function.update σ.live s false } n =
      (σ.findSessionByNickname n).filter fun r => r ≠ s := by
  ext r
  rw [Option.filter_eq_some_iff, findSessionByNickname_eq_some, findSessionByNickname_eq_some]
  dsimp only
  by_cases hr : r = s
  · simp [hr]
  · simp [hr]

end World

/-- The servers differ at most in entries of the index that lead nowhere. -/
structure SameButExpired (σ τ : World) : Prop where
  rest : ∃ index, τ = σ.withIndex index
  find : ∀ n, σ.findSessionByNickname n = τ.findSessionByNickname n

theorem SameButExpired.refl (σ : World) : SameButExpired σ σ :=
  ⟨⟨σ.manager.nicknameIndex, rfl⟩, fun _ => rfl⟩

theorem sameButExpired_twin : Twin (fun _ => True) SameButExpired where
  session := by
    rintro σ _ s ⟨⟨index, rfl⟩, _⟩ _
    rfl
  mutex := by
    rintro σ _ ⟨⟨index, rfl⟩, _⟩
    rfl
  find _ _ n h := h.find n
  found _ _ _ _ _ _ := trivial
  evicted _ _ _ _ _ _ _ _ := trivial
  collected := by
    rintro σ _ s ⟨⟨index, rfl⟩, _⟩ _
    rfl
  owned := by
    rintro σ _ s ⟨⟨index, rfl⟩, _⟩ _
    rfl
  modify := by
    rintro σ _ s f ⟨⟨index, rfl⟩, hfind⟩ _ _
    exact ⟨⟨index, rfl⟩, hfind⟩
  close := by
    rintro σ _ s ⟨⟨index, rfl⟩, hfind⟩ _
    refine ⟨⟨index, σ.withIndex_closeSession index s⟩, fun n => ?_⟩
    rw [World.findSessionByNickname_congr (σ.closeSession_owner s)
      fun _ _ _ => by rw [World.closeSession_live],
      World.findSessionByNickname_congr ((σ.withIndex index).closeSession_owner s)
        fun _ _ _ => by rw [World.closeSession_live]]
    exact hfind n
  index := by
    rintro σ _ s nickname ⟨⟨index, rfl⟩, hfind⟩ _
    refine ⟨⟨index.insert nickname s, rfl⟩, fun n => ?_⟩
    rw [World.findSessionByNickname_index, World.findSessionByNickname_index, hfind n]
    rfl
  lock := by
    rintro σ _ s ⟨⟨index, rfl⟩, hfind⟩ _
    exact ⟨⟨index, rfl⟩, hfind⟩
  unlock := by
    rintro σ _ ⟨⟨index, rfl⟩, hfind⟩
    exact ⟨⟨index, rfl⟩, hfind⟩
  take := by
    rintro σ _ s ⟨⟨index, rfl⟩, hfind⟩ _
    exact ⟨⟨index, rfl⟩, hfind⟩
  destroy := by
    rintro σ _ s ⟨⟨index, rfl⟩, hfind⟩ _
    refine ⟨⟨index, rfl⟩, fun n => ?_⟩
    rw [World.findSessionByNickname_destroy, World.findSessionByNickname_destroy, hfind n]

section Lockstep
variable {env : Env} {σ τ : World}

/-- No entry of the index leads to the session that is created. -/
theorem find_accept (known : Control.Known σ.control) (now : Int) (n : String) :
    (σ.accept now).findSessionByNickname n = σ.findSessionByNickname n := by
  have howner : ∀ n, (σ.accept now).manager.owner n =
      σ.manager.owner n := (Undisturbed.accept σ now).owner
  refine World.findSessionByNickname_congr howner (fun n s hs => ?_) n
  have hne : s ≠ σ.nextPtr := Nat.ne_of_lt (known.owner n s hs)
  have hlive : Function.update σ.live σ.nextPtr true s = σ.live s := Function.update_of_ne hne ..
  rw [World.accept]
  rcases addSession_cases _ σ.nextPtr with heq | ⟨r, _, heq⟩
  · rw [heq]
    exact hlive
  · rw [heq, World.closeSession_live]
    exact hlive

/-- The servers, both in reachable states. -/
structure Alike (σ τ : World) : Prop where
  same : SameButExpired σ τ
  left : Control.Known σ.control
  right : Control.Known τ.control

theorem sameButExpired_step (h : Alike σ τ) (a : Act) :
    Option.Rel SameButExpired (step env σ a) (step env τ a) := by
  obtain ⟨⟨index, hτ⟩, hfind⟩ := h.same
  cases a with
  | accept now =>
    refine .some ⟨⟨index, ?_⟩, fun n => ?_⟩
    · rw [hτ, World.withIndex_accept]
    · rw [find_accept h.left, find_accept h.right, hfind n]
  | cleanupInactive shard now maxIdleTime =>
    subst hτ
    exact rel_ite Iff.rfl fun _ => ⟨⟨index, rfl⟩, hfind⟩
  | cleanupUnauth maxUnauth sorted =>
    subst hτ
    exact rel_ite Iff.rfl fun _ => ⟨⟨index, rfl⟩, hfind⟩
  | on s e =>
    have hlive : σ.live s = τ.live s := by
      rw [hτ]
      rfl
    have hevent := sameButExpired_twin.event h.same (s := s) trivial env e
    unfold step
    dsimp only
    rw [hlive]
    split
    · exact hevent
    · exact .none

theorem alike_step (h : Alike σ τ) (a : Act) : Option.Rel Alike (step env σ a) (step env τ a) :=
  rel_imp (sameButExpired_step h a) fun _ _ hs ht hsame =>
    ⟨hsame, known_of_step hs h.left, known_of_step ht h.right⟩

end Lockstep

theorem lookup_foldl_erase (keep : String → Bool) (keys : List String)
    (index : AList fun _ : String => SessionPtr) (n : String) :
    (keys.foldl (fun index n => if keep n then index else index.erase n) index).lookup n =
      if n ∈ keys ∧ keep n = false then none else index.lookup n := by
  induction keys generalizing index with
  | nil => simp
  | cons key keys ih =>
    rw [List.foldl_cons, ih]
    cases hkey : keep key with
    | true =>
      by_cases hn : n = key
      · subst hn
        simp [hkey]
      · simp [hn]
    | false =>
      by_cases hn : n = key
      · subst hn
        simp [hkey]
      · simp [hn, AList.lookup_erase_ne]

section Cleanup
variable (σ : World)

/-- What is left are the entries of the sessions that exist. -/
theorem owner_eraseExpired (n : String) :
    σ.eraseExpired.manager.owner n = σ.findSessionByNickname n := by
  unfold World.eraseExpired SessionManager.owner
  dsimp only
  rw [lookup_foldl_erase (fun n => (σ.findSessionByNickname n).isSome)]
  cases hfind : σ.findSessionByNickname n with
  | some s =>
    rw [if_neg fun h => Bool.noConfusion h.2]
    exact (World.findSessionByNickname_eq_some.mp hfind).1
  | none =>
    split
    · rfl
    · rename_i hkey
      simp only [Option.isSome_none, and_true] at hkey
      exact AList.lookup_eq_none.mpr hkey

theorem find_eraseExpired (n : String) :
    σ.eraseExpired.findSessionByNickname n = σ.findSessionByNickname n := by
  ext s
  rw [World.findSessionByNickname_eq_some, owner_eraseExpired, World.findSessionByNickname_eq_some]
  exact and_iff_left_of_imp fun h => h.2

theorem SameButExpired.cleanup {σ τ : World} (h : SameButExpired σ τ) :
    SameButExpired σ.eraseExpired τ := by
  obtain ⟨⟨index, rfl⟩, hfind⟩ := h
  exact ⟨⟨index, rfl⟩, fun n => (find_eraseExpired σ n).trans (hfind n)⟩

theorem Alike.cleanup {σ τ : World} (h : Alike σ τ) : Alike σ.eraseExpired τ where
  same := h.same.cleanup
  left := by
    refine ⟨h.left.live, h.left.begun, fun n s hs => h.left.owner n s ?_⟩
    change σ.eraseExpired.manager.owner n = some s at hs
    rw [owner_eraseExpired] at hs
    exact (World.findSessionByNickname_eq_some.mp hs).1
  right := h.right

end Cleanup

/-- A step of the server, or the cleanup, which waits for the nickname mutex. -/
inductive ServiceAct where
  | server (a : Act)
  | cleanupExpired
  deriving Repr, DecidableEq

def ServiceAct.serverActs : ServiceAct → List Act
  | .server a => [a]
  | .cleanupExpired => []

def World.service (env : Env) (σ : World) : ServiceAct → Option World
  | .server a => step env σ a
  | .cleanupExpired => if σ.nicknameMutex = none then some σ.eraseExpired else none

/-- A run without its cleanups ends in a server that cannot be told from that of the run, then or
later; and a cleanup leaves exactly the entries whose sessions exist. -/
theorem cleanup_expired_invisible (env : Env) (shardCount : Nat) (acts : List ServiceAct) (σ : World)
    (run : exec (World.service env) (World.init shardCount) acts = some σ) :
    (∃ τ, exec (step env) (World.init shardCount) (acts.flatMap ServiceAct.serverActs) = some τ ∧
      SameButExpired σ τ ∧
      ∀ more, Option.Rel SameButExpired (exec (step env) σ more) (exec (step env) τ more)) ∧
    ∀ σ', σ.service env .cleanupExpired = some σ' → SameButExpired σ' σ ∧
      ∀ n s, σ'.manager.owner n = some s ↔ σ.manager.owner n = some s ∧ σ.live s = true := by
  have hknown : Control.Known (World.init shardCount).control := known_init shardCount
  have hstart : Alike (World.init shardCount) (World.init shardCount) := ⟨.refl _, hknown, hknown⟩
  have hmirror : ∃ τ, exec (step env) (World.init shardCount)
      (acts.flatMap ServiceAct.serverActs) = some τ ∧ Alike σ τ := by
    apply exec_answered ServiceAct.serverActs hstart _ run
    intro bs σ τ a σ' _ _ _ h hs
    cases a with
    | server a =>
      obtain ⟨τ', ht, h'⟩ := rel_some (alike_step h a) hs
      exact ⟨τ', exec_cons_eq_some.mpr ⟨τ', ht, rfl⟩, h'⟩
    | cleanupExpired =>
      simp only [World.service, Option.ite_none_right_eq_some, Option.some.injEq] at hs
      exact ⟨τ, rfl, hs.2 ▸ h.cleanup⟩
  obtain ⟨τ, run', h⟩ := hmirror
  refine ⟨⟨τ, run', h.same, fun more => ?_⟩, fun σ' hs => ?_⟩
  · exact rel_imp (exec_lockstep (fun _ _ a h => alike_step h a) h more) fun _ _ _ _ h => h.same
  · simp only [World.service, Option.ite_none_right_eq_some, Option.some.injEq] at hs
    obtain ⟨_, rfl⟩ := hs
    refine ⟨(SameButExpired.refl σ).cleanup, fun n s => ?_⟩
    rw [owner_eraseExpired, World.findSessionByNickname_eq_some]

/-- A client logs in and leaves, its session is destroyed and its entry swept, and another client
asks for the nickname. -/
theorem cleanup_expired_invisible_again :
    let stays := connects 0 ++ sends 0 [(loginText "a").1] 8 ++
      [.on 0 (.writeDone 0 false), .on 0 (.readError false), .on 0 .advance, .on 0 .destroy]
    let comes := connects 1 ++ sends 1 [(loginText "a").1] 8
    ∃ σ τ, exec (World.service (.ofTable [] [loginText "a"])) (World.init 4)
        (stays.map .server ++ [.cleanupExpired] ++ comes.map .server) = some σ ∧
      exec (step (.ofTable [] [loginText "a"])) (World.init 4) (stays ++ comes) = some τ ∧
      (σ.session 1).acked = ["a"] ∧ SameButExpired σ τ := by
  intro stays comes
  have hrun : (exec (World.service (.ofTable [] [loginText "a"])) (World.init 4)
      (stays.map .server ++ [.cleanupExpired] ++ comes.map .server)).map (fun σ => (σ.session 1).acked) =
      some ["a"] := by decide +kernel
  obtain ⟨σ, run, hacked⟩ := Option.map_eq_some_iff.mp hrun
  obtain ⟨⟨τ, run', hsame, _⟩, _⟩ := cleanup_expired_invisible _ 4 _ σ run
  exact ⟨σ, τ, run, run', hacked, hsame⟩

end DBMiddleWare
