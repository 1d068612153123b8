import DBMiddleWare.Acceptor
import DBMiddleWare.Authentication
import DBMiddleWare.Lifetime
import DBMiddleWare.ReadStream

/-!
# From the acceptor to the sessions

A completed accept makes, registers and starts one session, or it leaves the sessions alone;
also an exception on its way does not matter to them, unless memory is short. So a server
runs the machine of the sessions, whose first steps are those of its accept handler. While
no call throws, every session is started and the next accept is always outstanding.
-/

namespace DBMiddleWare

open Execution Exceptions
set_option autoImplicit false

/-- The peer gets a session. -/
def Completion.admitted (c : Completion) (allowed : AllowedIPManager) : Bool :=
  c.ec = 0 && !c.raises .remoteEndpoint && allowed.isAllowed c.ip

/-- Neither the session nor its place in the registry fails to be allocated. -/
def Completion.Allocates (c : Completion) (allowed : AllowedIPManager) : Prop :=
  c.admitted allowed = true → c.raises .makeShared = false ∧ c.raises .addSession = false

/-- What the handler does to the sessions, when `s` is the next one. -/
def Completion.sessionActs (c : Completion) (allowed : AllowedIPManager) (s : SessionPtr) : List Act :=
  if c.admitted allowed then
    .accept c.now :: if c.raises .start then [] else [.on s .start]
  else []

/-- The sessions after the handler has admitted the peer. -/
def Completion.serve (c : Completion) (σ : World) : World :=
  if c.raises .start then σ.accept c.now else ((σ.accept c.now).setPhase σ.nextPtr .idle).start σ.nextPtr

namespace Server

def sessionActs (allowed : AllowedIPManager) : SessionPtr → List Act → List DBMiddleWare.Act
  | _, [] => []
  | s, .other a :: acts => a :: sessionActs allowed s acts
  | s, .completion c :: acts =>
    c.sessionActs allowed s ++ sessionActs allowed (if c.admitted allowed then s + 1 else s) acts

def Act.admission (allowed : AllowedIPManager) : Act → Option Completion
  | .completion c => if c.admitted allowed then some c else none
  | .other _ => none

/-- The completions that have led to a session. -/
def admissions (allowed : AllowedIPManager) (acts : List Act) : List Completion :=
  acts.filterMap (Act.admission allowed)

/-- The sessions, and what the handler needs and notes for them. -/
def sessions (x : Server) : AllowedIPManager × World × (SessionPtr → Bytes) :=
  (x.allowedIpMgr, x.world, x.clientIp)

section Handler
variable {c : Completion} {allowed : AllowedIPManager} {σ : World} {ips : SessionPtr → Bytes}
  {v : AllowedIPManager × World × (SessionPtr → Bytes)} {x : Server}

/-- Whether the program ends or throws, it leaves the sessions so. -/
def Leaves {α : Type} (v : AllowedIPManager × World × (SessionPtr → Bytes)) (p : Handler α)
    (v' : AllowedIPManager × World × (SessionPtr → Bytes)) : Prop :=
  Triple (fun x => x.sessions = v) p (fun _ x => x.sessions = v') fun _ x => x.sessions = v'

theorem leaves_call (k : AcceptCall) : Leaves v (call c k) v := call_keeps k

theorem leaves_startAccept : Leaves v (startAccept c) v :=
  (leaves_call .asyncAccept).bind fun _ => .modify fun _ hx => hx

theorem makes_session (quiet : c.raises .makeShared = false) :
    Triple (fun x => x.sessions = (allowed, σ, ips)) (makeSession c)
      (fun s x => s = σ.nextPtr ∧ x.sessions =
        (allowed, σ.fetchAdd.makeSession σ.sessionCounter c.now, Function.update ips σ.nextPtr c.ip))
      fun _ _ => False := by
  unfold makeSession
  refine .bind (Q := fun y x => y = x ∧ x.sessions = (allowed, σ, ips)) (.get fun x hx => ⟨rfl, hx⟩)
    fun y => ?_
  refine .bind (Q := fun _ x => y.sessions = (allowed, σ, ips) ∧ x.sessions = (allowed, σ.fetchAdd, ips))
    (.modify fun x hx => ?_) fun _ => ?_
  · obtain ⟨rfl, hview⟩ := hx
    refine ⟨hview, ?_⟩
    simp only [sessions, Prod.mk.injEq] at hview ⊢
    exact ⟨hview.1, congrArg World.fetchAdd hview.2.1, hview.2.2⟩
  refine .bind (Q := fun _ x => y.sessions = (allowed, σ, ips) ∧ x.sessions = (allowed, σ.fetchAdd, ips))
    (triple_call (fun _ hx _ => hx) fun _ _ hraised => ?_) fun _ => ?_
  · rw [quiet] at hraised
    cases hraised
  refine .bind (Q := fun _ x => y.sessions = (allowed, σ, ips) ∧ x.sessions =
    (allowed, σ.fetchAdd.makeSession σ.sessionCounter c.now, Function.update ips σ.nextPtr c.ip))
    (.modify fun x hx => ⟨hx.1, ?_⟩) fun _ => .pure fun x hx => ⟨?_, hx.2⟩
  · obtain ⟨hy, hview⟩ := hx
    simp only [sessions, Prod.mk.injEq] at hy hview
    simp only [sessions, noteClient, onWorld, hy, hview]
    rfl
  · obtain ⟨hy, _⟩ := hx
    simp only [sessions, Prod.mk.injEq] at hy
    rw [hy.2.1]

theorem adds_session (quiet : c.raises .addSession = false) (s : SessionPtr) :
    Triple (fun x => x.sessions = (allowed, σ, ips)) (addSession c s)
      (fun _ x => x.sessions = (allowed, σ.addSession s, ips)) fun _ _ => False := by
  unfold addSession
  refine .ite (fun hraised => ?_) fun _ => .modify fun x hx => ?_
  · rw [quiet] at hraised
    cases hraised
  · simp only [sessions, Prod.mk.injEq] at hx
    simp only [sessions, onWorld, hx]

theorem leaves_start (s : SessionPtr) :
    Leaves (allowed, σ, ips) (start c s)
      (allowed, if c.raises .start then σ else (σ.setPhase s .idle).start s, ips) := by
  unfold start
  refine .bind (Q := fun _ x => x.sessions = (allowed, σ, ips) ∧ c.raises .start = false) ?_ fun _ => ?_
  · apply triple_call
    · exact fun x hx hquiet => ⟨hx, hquiet⟩
    · intro x hx hraised
      rw [if_pos hraised]
      exact hx
  · refine .modify fun x hx => ?_
    obtain ⟨hview, hquiet⟩ := hx
    rw [if_neg (Bool.eq_false_iff.mp hquiet)]
    simp only [sessions, Prod.mk.injEq] at hview
    simp only [sessions, onWorld, hview]

theorem admits_peer (hshared : c.raises .makeShared = false) (hadd : c.raises .addSession = false) :
    Leaves (allowed, σ, ips) (admitPeer c true)
      (allowed, c.serve σ, Function.update ips σ.nextPtr c.ip) := by
  unfold admitPeer
  refine .ite (fun hblocked => by cases hblocked) fun _ => ?_
  refine .bind ((makes_session hshared).conseq (fun _ hx => hx) (fun _ _ hs => hs) fun _ _ h => h.elim)
    fun s => ?_
  by_cases hs : s = σ.nextPtr
  · subst hs
    refine .bind ((adds_session hadd σ.nextPtr).conseq (fun _ hx => hx.2) (fun _ _ hx => hx)
      fun _ _ h => h.elim)
      fun _ => ?_
    exact (leaves_start σ.nextPtr).bind fun _ => leaves_call .info
  · exact fun x hx => absurd hx.1 hs

theorem leaves_onAccept (allocates : c.Allocates allowed) :
    Leaves (allowed, σ, ips) (onAccept c)
      (if c.admitted allowed then (allowed, c.serve σ, Function.update ips σ.nextPtr c.ip)
        else (allowed, σ, ips)) := by
  refine Triple.bind ?_ fun _ => leaves_startAccept
  unfold onConnected
  refine .ite (fun hec => ?_) fun hec => ?_
  · by_cases hraises : c.raises .remoteEndpoint = true
    · have hnot : c.admitted allowed = false := by simp [Completion.admitted, hraises]
      rw [hnot, if_neg Bool.false_ne_true]
      refine .bind (Q := fun _ _ => False) ?_ fun _ _ h => h.elim
      apply triple_call
      · intro x _ hquiet
        rw [hraises] at hquiet
        cases hquiet
      · exact fun x hx _ => hx
    · have hquiet : c.raises .remoteEndpoint = false := Bool.eq_false_iff.mpr hraises
      refine .bind (Q := fun _ x => x.sessions = (allowed, σ, ips)) (triple_call (fun _ hx _ => hx) ?_)
        fun _ => ?_
      · exact fun _ _ hraised => absurd hraised hraises
      refine .bind (Q := fun y x => y = x ∧ x.sessions = (allowed, σ, ips))
        (.get fun x hx => ⟨rfl, hx⟩) fun y => ?_
      rintro x ⟨rfl, hview⟩
      have hmgr : y.allowedIpMgr = allowed := (Prod.mk.inj hview).1
      have hadmitted : c.admitted allowed = allowed.isAllowed c.ip := by
        simp [Completion.admitted, hec, hquiet]
      rw [hmgr]
      cases hallowed : allowed.isAllowed c.ip with
      | true =>
        rw [hadmitted, hallowed, if_pos rfl]
        obtain ⟨hshared, hadd⟩ := allocates (hadmitted.trans hallowed)
        exact admits_peer hshared hadd y hview
      | false =>
        rw [hadmitted, hallowed, if_neg Bool.false_ne_true]
        exact ((leaves_call .warn).bind fun _ => leaves_call .close) y hview
  · have hnot : c.admitted allowed = false := by simp [Completion.admitted, hec]
    rw [hnot, if_neg Bool.false_ne_true]
    exact .pure fun x hx => hx

theorem complete_sessions (allocates : c.Allocates x.allowedIpMgr) :
    (x.complete c).sessions =
      if c.admitted x.allowedIpMgr then
        (x.allowedIpMgr, c.serve x.world, Function.update x.clientIp x.world.nextPtr c.ip)
      else x.sessions := by
  have hstart : { x with asyncAccepts := x.asyncAccepts - 1 }.sessions =
      (x.allowedIpMgr, x.world, x.clientIp) := rfl
  have hleaves := leaves_onAccept allocates _ hstart
  unfold complete
  cases hrun : (onAccept c).run { x with asyncAccepts := x.asyncAccepts - 1 } with
  | ok _ y =>
    rw [hrun] at hleaves
    exact hleaves.of_ok
  | error e y =>
    rw [hrun] at hleaves
    exact hleaves.of_error

end Handler

section Run
variable {env : Env} {c : Completion} {x x' : Server} {a : Act} {acts : List Act}
    {allowed : AllowedIPManager}

theorem accept_starting (σ : World) (now : Int) :
    ((σ.accept now).session σ.nextPtr).phase = .starting := by
  have hloop := accept_loop σ now σ.nextPtr
  rw [if_pos rfl] at hloop
  exact (loop_eq_iff.mp hloop).1

/-- The first two steps of a session, or only the first. -/
theorem exec_serve (c : Completion) (σ : World) :
    exec (DBMiddleWare.step env) σ (.accept c.now :: if c.raises .start then []
      else [.on σ.nextPtr .start]) =
      some (c.serve σ) := by
  refine exec_cons_eq_some.mpr ⟨σ.accept c.now, rfl, ?_⟩
  unfold Completion.serve
  split
  · rfl
  · refine exec_cons_eq_some.mpr ⟨((σ.accept c.now).setPhase σ.nextPtr .idle).start σ.nextPtr, ?_, rfl⟩
    simp [DBMiddleWare.step, accept_live_new, World.event, accept_starting]

theorem serve_nextPtr (c : Completion) (σ : World) : (c.serve σ).nextPtr = σ.nextPtr + 1 := by
  have haccept : (σ.accept c.now).nextPtr = σ.nextPtr + 1 := addSession_nextPtr σ.nextPtr
  unfold Completion.serve
  split
  · exact haccept
  · exact ((nextPtr_ownSteps σ.nextPtr).start _).trans haccept

/-- From `x` to `y` the sessions have taken the steps that the acts of the server are for them, and
the peers that were admitted have got one session each. -/
structure Mirrored (env : Env) (x : Server) (acts : List Act) (y : Server) : Prop where
  allowedIpMgr : y.allowedIpMgr = x.allowedIpMgr
  sessions : exec (DBMiddleWare.step env) x.world (sessionActs x.allowedIpMgr x.world.nextPtr acts) =
    some y.world
  nextPtr : y.world.nextPtr = x.world.nextPtr + (admissions x.allowedIpMgr acts).length
  peers : (List.range y.world.nextPtr).map y.clientIp =
    (List.range x.world.nextPtr).map x.clientIp ++ (admissions x.allowedIpMgr acts).map Completion.ip

theorem mirrored_complete (c : Completion) (allocates : c.Allocates x.allowedIpMgr) :
    Mirrored env x [.completion c] (x.complete c) := by
  have hsessions := complete_sessions allocates
  cases hadmitted : c.admitted x.allowedIpMgr with
  | true =>
    rw [hadmitted, if_pos rfl] at hsessions
    simp only [sessions, Prod.mk.injEq] at hsessions
    obtain ⟨hmgr, hworld, hips⟩ := hsessions
    have hadmissions : admissions x.allowedIpMgr [.completion c] = [c] := by
      simp [admissions, Act.admission, hadmitted]
    refine ⟨hmgr, ?_, ?_, ?_⟩
    · rw [hworld, sessionActs, sessionActs, List.append_nil, Completion.sessionActs, if_pos hadmitted]
      exact exec_serve c x.world
    · rw [hworld, hadmissions, serve_nextPtr]
      rfl
    · rw [hworld, hadmissions, serve_nextPtr, hips, List.range_succ, List.map_append, List.map_singleton,
        Function.update_self]
      congr 1
      apply List.map_congr_left
      intro s hs
      exact Function.update_of_ne (Nat.ne_of_lt (List.mem_range.mp hs)) ..
  | false =>
    rw [hadmitted, if_neg Bool.false_ne_true] at hsessions
    simp only [sessions, Prod.mk.injEq] at hsessions
    obtain ⟨hmgr, hworld, hips⟩ := hsessions
    have hadmissions : admissions x.allowedIpMgr [.completion c] = [] := by
      simp [admissions, Act.admission, hadmitted]
    refine ⟨hmgr, ?_, ?_, ?_⟩
    · rw [hworld, sessionActs, sessionActs, List.append_nil, Completion.sessionActs, hadmitted,
        if_neg Bool.false_ne_true]
      rfl
    · rw [hworld, hadmissions]
      rfl
    · rw [hworld, hadmissions, hips, List.map_nil, List.append_nil]

theorem mirrored_other {a : DBMiddleWare.Act} {σ : World} (acceptor : ¬ ofAcceptor a = true)
    (hσ : DBMiddleWare.step env x.world a = some σ) :
    Mirrored env x [.other a] { x with world := σ } := by
  have hnext : σ.nextPtr = x.world.nextPtr := by
    rcases step_cases hσ with ⟨now, rfl, rfl⟩ | ⟨collected, _, rfl⟩ | ⟨s, e, rfl, _, happened⟩
    · exact absurd rfl acceptor
    · rfl
    · exact event_nextPtr happened
  refine ⟨rfl, ?_, hnext, ?_⟩
  · exact exec_cons_eq_some.mpr ⟨σ, hσ, rfl⟩
  · change (List.range σ.nextPtr).map x.clientIp = _ ++ []
    rw [hnext, List.append_nil]

/-- One step of the server is some steps of its sessions. -/
theorem mirrored_step (allocates : ∀ c, a = .completion c → c.Allocates x.allowedIpMgr)
    (hx : step env x a = some x') : Mirrored env x [a] x' := by
  cases a with
  | completion c =>
    simp only [step, Option.ite_none_left_eq_some, Option.some.injEq] at hx
    obtain ⟨_, rfl⟩ := hx
    exact mirrored_complete c (allocates c rfl)
  | other a =>
    simp only [step, Option.ite_none_left_eq_some, Option.map_eq_some_iff] at hx
    obtain ⟨hacceptor, σ, hσ, rfl⟩ := hx
    exact mirrored_other hacceptor hσ

theorem sessionActs_append (s : SessionPtr) (acts more : List Act) :
    sessionActs allowed s (acts ++ more) =
      sessionActs allowed s acts ++ sessionActs allowed (s + (admissions allowed acts).length) more := by
  induction acts generalizing s with
  | nil => rfl
  | cons a acts ih =>
    cases a with
    | other a =>
      rw [List.cons_append, sessionActs, sessionActs, ih, List.cons_append]
      rfl
    | completion c =>
      rw [List.cons_append, sessionActs, sessionActs, ih, List.append_assoc]
      cases hadmitted : c.admitted allowed with
      | true =>
        have hnext : s + 1 + (admissions allowed acts).length =
            s + (admissions allowed (.completion c :: acts)).length := by
          simp only [admissions, List.filterMap_cons, Act.admission, hadmitted, if_true,
            List.length_cons]
          exact Nat.add_right_comm ..
        rw [if_pos rfl, hnext]
      | false =>
        have hsame : admissions allowed (.completion c :: acts) = admissions allowed acts := by
          simp only [admissions, List.filterMap_cons, Act.admission, hadmitted,
            if_neg Bool.false_ne_true]
        rw [if_neg Bool.false_ne_true, hsame]

theorem Mirrored.trans {y z : Server} {more : List Act} (h : Mirrored env x acts y)
    (h' : Mirrored env y more z) :
    Mirrored env x (acts ++ more) z := by
  have hsessions := h'.sessions
  have hpeers := h'.peers
  have hadmissions : admissions x.allowedIpMgr (acts ++ more) =
      admissions x.allowedIpMgr acts ++ admissions x.allowedIpMgr more := List.filterMap_append
  rw [h.allowedIpMgr, h.nextPtr] at hsessions
  rw [h.allowedIpMgr, h.peers, List.append_assoc, ← List.map_append, ← hadmissions] at hpeers
  refine ⟨h'.allowedIpMgr.trans h.allowedIpMgr, ?_, ?_, hpeers⟩
  · rw [sessionActs_append]
    exact exec_append_eq_some.mpr ⟨y.world, h.sessions, hsessions⟩
  · rw [hadmissions, List.length_append, h'.nextPtr, h.nextPtr, h.allowedIpMgr]
    exact Nat.add_assoc ..

theorem mirrored_of_run (allocates : ∀ c, .completion c ∈ acts → c.Allocates x.allowedIpMgr)
    (run : exec (step env) x acts = some x') : Mirrored env x acts x' := by
  induction acts generalizing x with
  | nil =>
    rw [exec_nil, Option.some.injEq] at run
    exact run ▸ ⟨rfl, rfl, rfl, (List.append_nil _).symm⟩
  | cons a acts ih =>
    obtain ⟨y, hy, run⟩ := exec_cons_eq_some.mp run
    have hstep : Mirrored env x [a] y :=
      mirrored_step (fun c hc => allocates c (hc ▸ List.mem_cons_self)) hy
    refine hstep.trans (ih (fun c hc => ?_) run)
    rw [hstep.allowedIpMgr]
    exact allocates c (List.mem_cons_of_mem a hc)

end Run

/-- One accept is outstanding, a thread can run its handler, and every session has been started. -/
structure GoesOn (x : Server) : Prop where
  accepting : Accepting x
  threads : x.ioThreads ≠ 0
  started : ∀ t < x.world.nextPtr, (x.world.session t).phase ≠ .starting

section GoesOn
variable {env : Env} {c : Completion} {x x' : Server} {a : Act} {acts : List Act}

/-- When nothing throws for an admitted peer, its session is made, registered and started. -/
theorem quiet_of_admitted (quiet : Quiet x c) (admitted : c.admitted x.allowedIpMgr = true) :
    c.raises .makeShared = false ∧ c.raises .addSession = false ∧ c.raises .start = false := by
  simp only [Completion.admitted, Bool.and_eq_true, decide_eq_true_iff] at admitted
  obtain ⟨⟨hec, _⟩, hallowed⟩ := admitted
  have hcalls : ∀ k ∈ peerCalls true, c.raises k = false := by
    intro k hk
    apply quiet
    rw [Completion.calls, if_pos hec, hallowed]
    exact List.mem_append_left _ (List.mem_cons_of_mem _ hk)
  exact ⟨hcalls _ (by decide), hcalls _ (by decide), hcalls _ (by decide)⟩

theorem complete_world (quiet : Quiet x c) :
    (x.complete c).world = if c.admitted x.allowedIpMgr then c.serve x.world else x.world := by
  have allocates : c.Allocates x.allowedIpMgr := by
    intro admitted
    obtain ⟨hshared, hadd, _⟩ := quiet_of_admitted quiet admitted
    exact ⟨hshared, hadd⟩
  have hworld := congrArg (fun v => v.2.1) (complete_sessions allocates)
  cases hadmitted : c.admitted x.allowedIpMgr with
  | true =>
    rw [hadmitted] at hworld
    exact hworld
  | false =>
    rw [hadmitted] at hworld
    exact hworld

/-- The sessions that were there are not put back, and the new one is started at once. -/
theorem serve_started (quiet : c.raises .start = false) {σ : World}
    (h : ∀ t < σ.nextPtr, (σ.session t).phase ≠ .starting) :
    ∀ t < (c.serve σ).nextPtr, ((c.serve σ).session t).phase ≠ .starting := by
  have hserve : c.serve σ = ((σ.accept c.now).setPhase σ.nextPtr .idle).start σ.nextPtr := by
    rw [Completion.serve, quiet, if_neg Bool.false_ne_true]
  have hnext : (σ.accept c.now).nextPtr = σ.nextPtr + 1 := addSession_nextPtr σ.nextPtr
  have hsteps : exec (DBMiddleWare.step (.ofTable [] [])) σ (.accept c.now ::
      if c.raises .start then [] else [.on σ.nextPtr .start]) = some (c.serve σ) := exec_serve c σ
  rw [quiet, if_neg Bool.false_ne_true] at hsteps
  obtain ⟨σ₁, haccept, hrest⟩ := exec_cons_eq_some.mp hsteps
  obtain ⟨σ₂, hstart, hnil⟩ := exec_cons_eq_some.mp hrest
  obtain rfl : σ.accept c.now = σ₁ := Option.some.inj haccept
  obtain rfl : σ₂ = c.serve σ := Option.some.inj hnil
  intro t ht
  rw [serve_nextPtr] at ht
  rcases Nat.lt_succ_iff_lt_or_eq.mp ht with hold | rfl
  · have hthere : t < (σ.accept c.now).nextPtr := hnext.symm ▸ ht
    exact (step_readMove hstart hthere).begun ((step_readMove haccept hold).begun (h t hold))
  · have hphase := congrArg (fun o : Control => (o.session σ.nextPtr).phase)
      (control_start (s := σ.nextPtr) (σ := (σ.accept c.now).setPhase σ.nextPtr .idle))
    have hidle : (((σ.accept c.now).setPhase σ.nextPtr .idle).session σ.nextPtr).phase = .idle := by
      simp [World.setPhase]
    rw [hserve]
    intro hstarting
    cases hstarting.symm.trans (hphase.trans hidle)

theorem GoesOn.step (h : GoesOn x) (unthrown : Unthrown x a) (hx : step env x a = some x') :
    GoesOn x' := by
  have haccepting : Accepting x' := h.accepting.step unthrown hx
  have hthreads := (threads_step ⟨h.accepting.whitelisted, fun _ => h.threads⟩ hx).2 haccepting.contained
  refine ⟨haccepting, hthreads, ?_⟩
  cases a with
  | completion c =>
    simp only [Server.step, Option.ite_none_left_eq_some, Option.some.injEq] at hx
    obtain ⟨_, rfl⟩ := hx
    rw [complete_world unthrown]
    split
    · rename_i admitted
      exact serve_started (quiet_of_admitted unthrown admitted).2.2 h.started
    · exact h.started
  | other a =>
    simp only [Server.step, Option.ite_none_left_eq_some, Option.map_eq_some_iff] at hx
    obtain ⟨hacceptor, σ, hσ, rfl⟩ := hx
    intro t ht
    have hnext : σ.nextPtr = x.world.nextPtr := (mirrored_other hacceptor hσ).nextPtr
    have hold : t < x.world.nextPtr := hnext ▸ ht
    exact (step_readMove hσ hold).begun (h.started t hold)

theorem goesOn_of_run {shardCount : Nat} {allowed : AllowedIPManager} {hardwareConcurrency : Nat}
    (unthrown : Along (Server.step env) Unthrown (init shardCount allowed hardwareConcurrency) acts)
    (run : exec (Server.step env) (init shardCount allowed hardwareConcurrency) acts = some x) :
    GoesOn x := by
  refine invariant_along (fun _ _ _ h unthrown hx => h.step unthrown hx) ?_ unthrown run
  constructor
  case accepting => exact ⟨rfl, rfl, init_whitelisted shardCount allowed hardwareConcurrency⟩
  case threads =>
    have hnone : exec (Server.step env) (init shardCount allowed hardwareConcurrency) [] =
      some (init shardCount allowed hardwareConcurrency) := exec_nil _
    exact (threads_of_run hnone).2 rfl
  case started => exact fun t ht => absurd ht (Nat.not_lt_zero t)

end GoesOn

/-- The session has a nickname, is found under one or has had an `insert` handled. -/
def LoggedIn (σ : World) (t : SessionPtr) : Prop :=
  (σ.session t).nicknameRegistered = true ∨ .insert ∈ (σ.session t).handled ∨
  ∃ n, σ.manager.owner n = some t

section Access
variable {env : Env} {shardCount : Nat} {σ : World} {t : SessionPtr} {acts : List Act} {x : Server}

theorem asked_of_loggedIn {acts : List DBMiddleWare.Act}
    (run : exec (DBMiddleWare.step env) (World.init shardCount) acts = some σ) (h : LoggedIn σ t) :
    t < σ.nextPtr ∧ ∃ packet ∈ (wire.parse (delivered t acts)).1,
      ∃ nickname, AsksLogin env packet nickname := by
  have hauthentic := authentic_of_run run
  have hgranted : Granted env shardCount acts t := by
    rcases h with hregistered | hinserted | ⟨n, hindexed⟩
    · exact hauthentic.registered t hregistered
    · exact hauthentic.inserted t hinserted
    · exact hauthentic.indexed n t hindexed
  obtain ⟨pre, post, τ, nickname, packet, rfl, hpre, hphase, _, hpacket, hasks⟩ := hgranted
  obtain ⟨τ', hτ', hpost⟩ := exec_append_eq_some.mp run
  obtain rfl : τ = τ' := Option.some.inj (hpre.symm.trans hτ')
  have hexisting : t < τ.nextPtr := (known_of_run hpre).begun t (by simp [World.control, hphase])
  have hreceived : packet ∈ (wire.parse (delivered t pre)).1 :=
    (streamed_of_run hpre hexisting).received_front.subset (List.mem_of_getLast? hpacket)
  refine ⟨Nat.lt_of_lt_of_le hexisting (nextPtr_exec hpost), packet, ?_, nickname, hasks⟩
  rw [delivered_append]
  exact (wire.parse_front ..).subset hreceived

theorem Mirrored.whitelisted {y : Server} (h : Mirrored env x acts y) (fresh : x.world.nextPtr = 0)
    (existing : t < y.world.nextPtr) : x.allowedIpMgr.isAllowed (y.clientIp t) = true := by
  have hpeers := h.peers
  rw [fresh, List.range_zero, List.map_nil, List.nil_append] at hpeers
  have hpeer : y.clientIp t ∈ (admissions x.allowedIpMgr acts).map Completion.ip := by
    rw [← hpeers]
    exact List.mem_map_of_mem (List.mem_range.mpr existing)
  obtain ⟨c, hc, hip⟩ := List.mem_map.mp hpeer
  obtain ⟨a, _, ha⟩ := List.mem_filterMap.mp hc
  cases a with
  | other a => cases ha
  | completion c' =>
    simp only [Act.admission, Option.ite_none_right_eq_some, Option.some.injEq] at ha
    obtain ⟨hadmitted, rfl⟩ := ha
    simp only [Completion.admitted, Bool.and_eq_true] at hadmitted
    rw [← hip]
    exact hadmitted.2

end Access

/-- Unless memory is short, the sessions of a server take exactly the steps that the completions of its
accepts and the other handlers are for them. There is one session for each admitted peer, in their order;
and who is logged in has come from an address of the whitelist and has sent the secret. As long as no
call on the way of a completion throws, the next accept is outstanding and every session is started. -/
theorem acceptor_refines_sessions (env : Env) (shardCount : Nat) (allowed : AllowedIPManager)
    (hardwareConcurrency : Nat) (acts : List Act) (x : Server)
    (allocates : ∀ c, .completion c ∈ acts → c.Allocates allowed)
    (run : exec (step env) (init shardCount allowed hardwareConcurrency) acts = some x) :
    exec (DBMiddleWare.step env) (World.init shardCount) (sessionActs allowed 0 acts) = some x.world ∧
    (List.range x.world.nextPtr).map x.clientIp = (admissions allowed acts).map Completion.ip ∧
    (∀ t, LoggedIn x.world t → allowed.isAllowed (x.clientIp t) = true ∧
      ∃ packet ∈ (wire.parse (delivered t (sessionActs allowed 0 acts))).1,
        ∃ nickname, AsksLogin env packet nickname) ∧
    (Along (step env) Unthrown (init shardCount allowed hardwareConcurrency) acts → GoesOn x) := by
  have hmirrored : Mirrored env (init shardCount allowed hardwareConcurrency) acts x :=
    mirrored_of_run allocates run
  refine ⟨hmirrored.sessions, hmirrored.peers, fun t hlogged => ?_,
    fun unthrown => goesOn_of_run unthrown run⟩
  obtain ⟨hexisting, hasked⟩ := asked_of_loggedIn hmirrored.sessions hlogged
  exact ⟨hmirrored.whitelisted rfl hexisting, hasked⟩

/-- A peer that is not on the whitelist comes first. The next one is, and logs in; unless the log call
throws, the server goes on accepting. -/
theorem acceptor_refines_sessions_login :
    let env := Env.ofTable [] [loginText "a"]
    let allowed : AllowedIPManager := ⟨[utf8 "10.0.0.1"]⟩
    let peer : Bytes → (AcceptCall → Bool) → Completion := fun ip raises => ⟨0, ip, 0, raises⟩
    let stranger := peer (utf8 "10.0.0.2") fun _ => false
    let more := (.on 0 .strand :: sends 0 [(loginText "a").1] 7).map Act.other
    let acts := .completion stranger :: .completion (peer (utf8 "10.0.0.1") fun k => k = .info) :: more
    let quiet := [.completion stranger, .completion (peer (utf8 "10.0.0.1") fun _ => false)]
    (∃ x, exec (step env) (init 4 allowed 4) acts = some x ∧ x.ioThreads = 3 ∧
      (x.world.session 0).acked = ["a"] ∧
      sessionActs allowed 0 acts = connects 0 ++ sends 0 [(loginText "a").1] 7 ∧
      exec (DBMiddleWare.step env) (World.init 4) (connects 0 ++ sends 0 [(loginText "a").1] 7) =
      some x.world ∧ allowed.isAllowed (x.clientIp 0) = true) ∧
    ∃ x, exec (step env) (init 4 allowed 4) quiet = some x ∧ x.world.nextPtr = 1 ∧ GoesOn x := by
  intro env allowed peer stranger more acts quiet
  have hrun : (exec (step env) (init 4 allowed 4) acts).map
      (fun x => (x.ioThreads, (x.world.session 0).acked,
      (x.world.session 0).nicknameRegistered)) = some (3, ["a"], true) := by decide +kernel
  have hquiet : (exec (step env) (init 4 allowed 4) quiet).map (fun x => x.world.nextPtr) = some 1 := by
    decide +kernel
  constructor
  · obtain ⟨x, run, hview⟩ := Option.map_eq_some_iff.mp hrun
    simp only [Prod.mk.injEq] at hview
    have hacts : sessionActs allowed 0 acts = connects 0 ++ sends 0 [(loginText "a").1] 7 := by
      decide +kernel
    have hrefines := acceptor_refines_sessions env 4 allowed 4 acts x ?_ run
    · rw [hacts] at hrefines
      exact ⟨x, run, hview.1, hview.2.1, hacts, hrefines.1, (hrefines.2.2.1 0 (Or.inl hview.2.2)).1⟩
    · intro c hc
      simp only [acts, more, List.mem_cons, Act.completion.injEq, List.mem_map, reduceCtorEq, and_false,
        exists_false, or_false] at hc
      rcases hc with rfl | rfl
      · exact fun _ => ⟨rfl, rfl⟩
      · exact fun _ => ⟨by decide, by decide⟩
  · obtain ⟨x, run, hview⟩ := Option.map_eq_some_iff.mp hquiet
    have hgoes := (acceptor_refines_sessions env 4 allowed 4 quiet x ?_ run).2.2.2
    · refine ⟨x, run, hview, hgoes ⟨fun _ _ => rfl, fun _ _ => ⟨fun _ _ => rfl, fun _ _ => trivial⟩⟩⟩
    · intro c hc
      simp only [quiet, List.mem_cons, Act.completion.injEq, List.not_mem_nil, or_false] at hc
      rcases hc with rfl | rfl
      · exact fun _ => ⟨rfl, rfl⟩
      · exact fun _ => ⟨rfl, rfl⟩

end Server

end DBMiddleWare
