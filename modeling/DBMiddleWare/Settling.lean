import Mathlib.Algebra.BigOperators.Group.Finset.Piecewise
import Mathlib.Algebra.Order.BigOperators.Group.Finset
import DBMiddleWare.Answers
import DBMiddleWare.Library.Progress
import DBMiddleWare.Lifetime
import DBMiddleWare.ReadStream

/-!
# The work of the handlers

A byte that a client sends pays for the steps that its packet may take, so the work of a
handler is linear in what it has been sent. Handlers wait for nothing but the nickname
mutex, and its holder can always go on; so they come to rest, and then every request has
its answer.
-/

namespace DBMiddleWare

open Execution
set_option autoImplicit false

/-- The steps that the handler may take before it needs the next packet or is done. -/
def Phase.work : Phase → Nat
  | .starting => 0
  | .idle => 0
  | .next => 1
  | .drain => 2
  | .reply _ => 3
  | .loginAck _ => 3
  | .loginEvict _ _ => 4
  | .loginRegister _ => 5
  | .loginReady _ => 6
  | .loginSet _ => 7
  | .loginLookup _ => 8

/-- The work ahead, in fifths of a step: a packet has five bytes at least, and takes seven steps at
most. -/
def Session.workload (o : Session) : Nat := 5 * o.phase.work + 7 * o.msgBufMgr.buffer.length

/-- What an event adds to the work of its session. -/
def Event.workload : Event → Nat
  | .readData data => 10 + 7 * data.length
  | .readError _ => 5
  | _ => 0

def Act.workload (t : SessionPtr) : Act → Nat
  | .on s e => if s = t then e.workload else 0
  | _ => 0

section Step
variable {env : Env} {σ σ' : World} {t : SessionPtr} {a : Act}

theorem Route.phase_work (env : Env) (r : Route) : (r.phase env).work ≤ 8 := by
  unfold Route.phase
  split
  · simp [Phase.work]
  · simp [Phase.work]
  · simp [Phase.work]
  · split
    · simp [Phase.work]
    · split <;> simp [Phase.work]
  · split <;> simp [Phase.work]

theorem work_of_inLoop {phase : Phase} (h : phase.inLoop = false) : phase.work ≤ 1 := by
  cases phase with
  | starting => exact Nat.zero_le 1
  | idle => exact Nat.zero_le 1
  | next => exact Nat.le_refl 1
  | _ => cases h

/-- Behind the drain loop every step brings the handler nearer to the next packet. -/
theorem advance_work (h : Advanced env σ t σ') (other : (σ.session t).phase ≠ .drain) :
    (σ'.session t).phase.work + 1 ≤ (σ.session t).phase.work := by
  have hgoto : ∀ {phase phase' : Phase}, (σ.session t).phase = phase → (σ'.session t).phase = phase' →
      phase'.work + 1 ≤ phase.work → (σ'.session t).phase.work + 1 ≤ (σ.session t).phase.work := by
    rintro _ _ rfl rfl hle
    exact hle
  cases h with
  | drain at_ => exact absurd at_ other
  | reply text at_ =>
    exact hgoto at_ ((postWrite_phase ..).trans (setPhase_phase ..)) (Nat.le_refl 3)
  | lookup nickname at_ =>
    unfold World.lookupStep at hgoto ⊢
    split
    · rename_i found
      rw [if_pos found] at hgoto
      exact hgoto at_ (setPhase_phase ..) (by simp [Phase.work])
    · rename_i free
      rw [if_neg free] at hgoto
      exact hgoto at_ (setPhase_phase ..) (Nat.le_refl 8)
  | name nickname at_ => exact hgoto at_ (setPhase_phase ..) (Nat.le_refl 7)
  | ready nickname at_ => exact hgoto at_ (setPhase_phase ..) (Nat.le_refl 6)
  | register nickname at_ =>
    unfold World.registerStep at hgoto ⊢
    split
    · rename_i prev hprev
      rw [hprev] at hgoto
      exact hgoto at_ (setPhase_phase _ t (.loginEvict nickname prev)) (Nat.le_refl 5)
    · rename_i hprev
      rw [hprev] at hgoto
      exact hgoto at_ (setPhase_phase ..) (by simp [Phase.work])
  | evict nickname prev at_ =>
    exact hgoto at_ (setPhase_phase ((σ.closeSession prev).indexNickname t nickname) t
      (.loginAck nickname))
      (Nat.le_refl 4)
  | ack nickname at_ =>
    have hacked : (((σ.setPhase t .drain).modify t
        fun o => { o with acked := o.acked ++ [nickname] }).session t).phase =
        .drain := by
      rw [World.modify_session_self]
      exact setPhase_phase ..
    exact hgoto at_ ((postWrite_phase ..).trans hacked) (Nat.le_refl 3)
  | next at_ =>
    have hidle : (((σ.setPhase t .idle).modify t Session.runNextTask).session t).phase = .idle := by
      rw [World.modify_session_self, runNextTask_control]
      exact setPhase_phase ..
    exact hgoto at_ hidle (Nat.le_refl 1)

theorem workload_of_loop {o o' : Session} (h : o'.loop = o.loop) : o'.workload = o.workload := by
  obtain ⟨hphase, hintake⟩ := Prod.mk.inj h
  rw [Session.workload, hphase, (Prod.mk.inj hintake).1, Session.workload]

/-- Apart from its own steps, only a read gives the handler of a session something to do. -/
theorem event_workload {e : Event} (h : Happened env σ t e σ') (waits : e ≠ .advance) :
    (σ'.session t).workload ≤ (σ.session t).workload + e.workload := by
  have hsame : (σ'.session t).loop = (σ.session t).loop →
      (σ'.session t).workload ≤ (σ.session t).workload + e.workload := by
    intro heq
    rw [workload_of_loop heq]
    exact Nat.le_add_right _ _
  cases h with
  | start at_ =>
    have hloop := loop_untouched.start (σ.setPhase t .idle) t t
    rw [workload_of_loop hloop, World.setPhase, World.modify_session_self, Session.workload,
      Session.workload, at_]
    exact Nat.le_refl _
  | strand closure rest _ _ =>
    have htaken : ((σ.modify t fun o => { o with strand := rest }).session t).loop =
      (σ.session t).loop :=
      modify_loop σ t t fun _ => rfl
    cases closure with
    | write text =>
      exact hsame ((modify_loop _ t t fun o => o.loop_postWrite env.config text).trans htaken)
    | task fn => exact hsame ((loop_untouched.postTask _ t t env.config fn).trans htaken)
  | readData data _ =>
    rw [World.readData, World.modify_session_self, Session.workload, Session.workload, Event.workload]
    simp only [Phase.work, MessageBufferManager.append, List.length_append]
    omega
  | readError aborted _ =>
    have hloop : ((σ.readError t aborted).session t).loop = (.next, (σ.session t).intake) := by
      unfold World.readError
      dsimp only
      split
      · rw [World.modify_session_self]
        rfl
      · rw [World.closeSession_session_self, Session.loop_shut, World.modify_session_self]
        rfl
    obtain ⟨hphase, hintake⟩ := Prod.mk.inj hloop
    rw [Session.workload, hphase, (Prod.mk.inj hintake).1, Session.workload, Event.workload]
    simp only [Phase.work]
    omega
  | advance _ => exact absurd rfl waits
  | postWrite text => exact hsame (modify_loop σ t t fun _ => rfl)
  | writeDone k w ec _ => exact hsame (loop_untouched.onWrite σ t t k w ec)
  | sweep => exact hsame (loop_untouched.closeSession { σ with toClose := σ.toClose.erase t } t t)
  | destroy _ => exact hsame rfl

theorem advance_workload (h : Advanced env σ t σ')
    (move : LoopMove env t (.on t .advance) (σ.session t) (σ'.session t)) :
    (σ'.session t).workload + 5 ≤ (σ.session t).workload := by
  unfold Session.workload
  cases move with
  | keep other intake _ =>
    have hwork := advance_work h (other rfl)
    rw [(intake_eq_iff.mp intake).1]
    omega
  | read data act _ _ => cases act
  | take packet mgr _ at_ extract loop =>
    obtain ⟨hphase, hmgr, _⟩ := loop_eq_iff.mp loop
    have hwork := Route.phase_work env (route env (σ.session t).nicknameRegistered packet)
    have hlength := extract_some_length extract
    have hdrain : Phase.drain.work = 2 := rfl
    rw [hphase, hmgr, at_, hdrain]
    omega
  | leave mgr _ at_ extract intake left =>
    have hwork := work_of_inLoop left
    have hlength := (extract_none_incomplete extract).2
    have hdrain : Phase.drain.work = 2 := rfl
    rw [(intake_eq_iff.mp intake).1, at_, hdrain]
    omega

/-- Each step of a handler is paid for, and only its own session is sent more. -/
theorem step_workload (existing : t < σ.nextPtr) (hs : step env σ a = some σ') :
    (σ'.session t).workload + (if a = .on t .advance then 5 else 0) ≤
    (σ.session t).workload + a.workload t := by
  by_cases hself : ∃ e, a = .on t e
  · obtain ⟨e, rfl⟩ := hself
    rw [Act.workload, if_pos rfl]
    by_cases hadvance : e = .advance
    · subst hadvance
      rw [if_pos rfl]
      exact advance_workload (advance_step_cases hs) (step_move hs existing)
    · rw [if_neg fun h => hadvance (Act.on.inj h).2]
      simp only [step, Option.ite_none_right_eq_some] at hs
      exact event_workload (event_cases hs.2) hadvance
  · have hother : ∀ e, a ≠ .on t e := fun e he => hself ⟨e, he⟩
    have hloop : (σ'.session t).loop = (σ.session t).loop := by
      have hremote := (step_seen hs existing hother).1
      generalize σ'.session t = o' at hremote
      cases hremote with
      | same => rfl
      | shut => exact Session.loop_shut _
      | notice text => rfl
    rw [if_neg (hother .advance), workload_of_loop hloop]
    exact Nat.le_add_right _ _

end Step

/-- A read of the session ends, with data or with an error. -/
def Act.completesRead (t : SessionPtr) : Act → Bool
  | .on s (.readData _) => s = t
  | .on s (.readError _) => s = t
  | _ => false

theorem workload_le (t : SessionPtr) (a : Act) :
    a.workload t ≤ 7 * (a.delivered t).length + 10 * [a].countP (Act.completesRead t) := by
  rw [List.countP_singleton]
  cases a with
  | on s e =>
    cases e with
    | readData data =>
      by_cases hs : s = t
      · simp [Act.workload, Event.workload, Act.delivered, Act.completesRead, hs]
        omega
      · simp [Act.workload, hs]
    | readError aborted =>
      by_cases hs : s = t
      · simp [Act.workload, Event.workload, Act.completesRead, hs]
      · simp [Act.workload, hs]
    | _ => simp [Act.workload, Event.workload]
  | _ => exact Nat.zero_le _

section Run
variable {env : Env} {shardCount : Nat} {acts : List Act} {σ : World} {t : SessionPtr}

/-- In every run the handler of a session takes a number of steps that is linear in what its client has
sent: two for a read, and seven for every five bytes. -/
theorem handler_steps_linear (env : Env) (shardCount : Nat) (acts : List Act) (σ : World)
    (run : exec (step env) (World.init shardCount) acts = some σ) (t : SessionPtr)
    (existing : t < σ.nextPtr) :
    5 * acts.count (.on t .advance) + (σ.session t).workload ≤
      7 * (delivered t acts).length + 10 * acts.countP (Act.completesRead t) := by
  refine session_history (H := fun acts o => 5 * acts.count (.on t .advance) + o.workload ≤
    7 * (delivered t acts).length + 10 * acts.countP (Act.completesRead t)) ?_ ?_ run existing
  · intro acts σ now _ ht hnone
    have hloop := accept_loop σ now t
    rw [if_pos ht] at hloop
    have hwork : ((σ.accept now).session t).workload = 0 := by
      obtain ⟨hphase, hmgr, _⟩ := loop_eq_iff.mp hloop
      rw [Session.workload, hphase, hmgr]
      rfl
    have hcount : (acts ++ [Act.accept now]).count (Act.on t .advance) = 0 := by
      rw [List.count_eq_zero, List.mem_append, not_or]
      exact ⟨hnone .advance, by simp⟩
    rw [hwork, hcount]
    exact Nat.zero_le _
  · intro acts σ a σ' _ hexisting h hs
    have hstep := step_workload hexisting hs
    have hgain := workload_le t a
    have hcount : 5 * [a].count (Act.on t .advance) = if a = .on t .advance then 5 else 0 := by
      rw [List.count_singleton]
      simp only [beq_iff_eq]
      split <;> rfl
    rw [delivered_concat, List.count_append, List.countP_append, List.length_append]
    omega

/-- A login takes seven steps, and its frame would pay for fifty. -/
theorem handler_steps_linear_login :
    let env := Env.ofTable [] [loginText "a"]
    let acts := connects 0 ++ sends 0 [(loginText "a").1] 7
    ∃ σ, exec (step env) (World.init 4) acts = some σ ∧ (σ.session 0).acked = ["a"] ∧
      acts.count (.on 0 .advance) = 7 ∧
      5 * acts.count (.on 0 .advance) + (σ.session 0).workload ≤
        7 * (delivered 0 acts).length + 10 * acts.countP (Act.completesRead 0) := by
  intro env acts
  have hrun : (exec (step env) (World.init 4) acts).map (fun σ => (σ.nextPtr, (σ.session 0).acked)) =
      some (1, ["a"]) := by decide +kernel
  obtain ⟨σ, run, hview⟩ := Option.map_eq_some_iff.mp hrun
  obtain ⟨hnext, hacked⟩ := Prod.mk.inj hview
  have hlinear := handler_steps_linear env 4 acts σ run 0 (by rw [hnext]; decide)
  exact ⟨σ, run, hacked, by decide +kernel, hlinear⟩

end Run

/-- The holder of the nickname mutex is closing a previous owner. -/
def MutexEvicts (σ : World) : Prop :=
  ∀ s, σ.nicknameMutex = some s → ∃ n prev, (σ.session s).phase = .loginEvict n prev

def Act.Advances (a : Act) : Prop := ∃ s, a = .on s .advance

/-- No handler can go on. -/
def Settled (env : Env) (σ : World) : Prop := ∀ s, step env σ (.on s .advance) = none

def World.workload (σ : World) : Nat := ∑ t ∈ Finset.range σ.nextPtr, (σ.session t).workload

section All
variable {env : Env} {shardCount : Nat} {acts more : List Act} {σ σ' : World} {s : SessionPtr} {a : Act}

theorem existing_of_phase (known : Control.Known σ.control) (at_ : (σ.session s).phase ≠ .starting) :
    s < σ.nextPtr :=
  known.begun s at_

theorem Advanced.eq_evictStep {n : String} {prev : SessionPtr} (h : Advanced env σ s σ')
    (at_ : (σ.session s).phase = .loginEvict n prev) : σ' = σ.evictStep s n prev := by
  cases h with
  | evict nickname prev' at' =>
    rw [at_] at at'
    cases at'
    rfl
  | drain at' => cases at_.symm.trans at'
  | reply text at' => cases at_.symm.trans at'
  | lookup nickname at' => cases at_.symm.trans at'
  | name nickname at' => cases at_.symm.trans at'
  | ready nickname at' => cases at_.symm.trans at'
  | register nickname at' => cases at_.symm.trans at'
  | ack nickname at' => cases at_.symm.trans at'
  | next at' => cases at_.symm.trans at'

theorem MutexEvicts.step (h : MutexEvicts σ) (known : Control.Known σ.control)
    (hs : step env σ a = some σ') :
    MutexEvicts σ' := by
  -- the holder is where it was, unless it goes on
  have hkept : ∀ t, a ≠ .on t .advance → σ.nicknameMutex = some t →
      ∃ n prev, (σ'.session t).phase = .loginEvict n prev := by
    intro t hother hmutex
    obtain ⟨n, prev, hp⟩ := h t hmutex
    have hexisting : t < σ.nextPtr := existing_of_phase known (by simp [hp])
    refine ⟨n, prev, ((step_phase hexisting hs hother).resolve_right fun hfree => ?_).trans hp⟩
    rw [SessionControl.strandFree, hp] at hfree
    cases hfree
  rcases step_cases hs with ⟨now, rfl, rfl⟩ | ⟨collected, hother, rfl⟩ | ⟨s, e, rfl, _, happened⟩
  · intro t ht
    rw [(Undisturbed.accept σ now).mutex] at ht
    exact hkept t (by simp) ht
  · exact fun t ht => hkept t (hother t .advance) ht
  · rcases (Undisturbed.ownSteps s).event happened with hsame | ⟨rfl,
      ⟨nickname, at_, rfl⟩ | ⟨nickname, prev, at_, rfl⟩⟩
    · intro t ht
      rw [hsame.mutex] at ht
      by_cases hself : Act.on s e = .on t .advance
      · obtain ⟨rfl, rfl⟩ := Act.on.inj hself
        obtain ⟨n, prev, hp⟩ := h s ht
        have hstep := (advance_step_cases hs).eq_evictStep hp
        have hfree := hsame.mutex
        rw [hstep, ht] at hfree
        cases hfree
      · exact hkept t hself ht
    · intro t ht
      by_cases hself : t = s
      · subst hself
        unfold World.registerStep at ht ⊢
        split
        · rename_i prev _
          exact ⟨nickname, prev, setPhase_phase _ t (.loginEvict nickname prev)⟩
        · rename_i hfree
          rw [hfree] at ht
          obtain ⟨n, prev, hp⟩ := h t ht
          cases at_.symm.trans hp
      · refine hkept t (fun heq => hself (Act.on.inj heq).1.symm) ?_
        unfold World.registerStep at ht
        split at ht
        · exact absurd (Option.some.inj ht).symm hself
        · exact ht
    · intro t ht
      cases ht

theorem mutexEvicts_of_run (run : exec (step env) (World.init shardCount) acts = some σ) :
    MutexEvicts σ := by
  apply history_invariant (H := fun _ σ => MutexEvicts σ) _ _ run
  · intro s hs
    cases hs
  · exact fun as σ a σ' run h hs => h.step (known_of_run run) hs

/-- Handlers wait for the nickname mutex only, and its holder waits for nothing. -/
theorem advance_enabled (positive : 1 ≤ shardCount) (small : shardCount ≤ 2 ^ 31)
    (run : exec (step env) (World.init shardCount) acts = some σ)
    (busy : (σ.session s).strandFree = false) :
    ∃ r σ', step env σ (.on r .advance) = some σ' := by
  have hbegun : ∀ r, (σ.session r).strandFree = false → σ.live r = true := by
    intro r hr
    have hphase : (σ.session r).phase ≠ .starting ∧ (σ.session r).phase ≠ .idle := by
      constructor
      · intro hp
        rw [SessionControl.strandFree, hp] at hr
        cases hr
      · intro hp
        rw [SessionControl.strandFree, hp] at hr
        cases hr
    have hexisting : r < σ.nextPtr := existing_of_phase (known_of_run run) hphase.1
    exact (noDangling_of_run positive small run).handler r hexisting hphase.2
  have hgoes : ∀ r, (σ.session r).strandFree = false → σ.advance env r ≠ none →
      ∃ r σ', step env σ (.on r .advance) = some σ' := by
    intro r hr hsome
    obtain ⟨σ', hσ'⟩ := Option.ne_none_iff_exists'.mp hsome
    refine ⟨r, σ', ?_⟩
    simp only [step, hbegun r hr, if_true]
    exact hσ'
  cases hmutex : σ.nicknameMutex with
  | some holder =>
    obtain ⟨n, prev, hp⟩ := mutexEvicts_of_run run holder hmutex
    refine hgoes holder ?_ ?_
    · rw [SessionControl.strandFree, hp]
      rfl
    · simp [World.advance, hp]
  | none =>
    refine hgoes s busy ?_
    unfold World.advance
    rw [hmutex]
    cases hp : (σ.session s).phase with
    | starting =>
      rw [SessionControl.strandFree, hp] at busy
      cases busy
    | idle =>
      rw [SessionControl.strandFree, hp] at busy
      cases busy
    | _ => simp

theorem strandFree_of_settled (positive : 1 ≤ shardCount) (small : shardCount ≤ 2 ^ 31)
    (run : exec (step env) (World.init shardCount) acts = some σ) (settled : Settled env σ)
    (s : SessionPtr) :
    (σ.session s).strandFree = true := by
  by_contra hbusy
  obtain ⟨r, σ', hr⟩ := advance_enabled positive small run (Bool.eq_false_iff.mpr hbusy)
  rw [settled r] at hr
  cases hr

/-- One session pays, and no other one has more to do. -/
theorem sum_pays {n price : Nat} {before after : SessionPtr → Nat} (existing : s < n)
    (each : ∀ t < n, after t + (if s = t then price else 0) ≤ before t) :
    ∑ t ∈ Finset.range n, after t + price ≤ ∑ t ∈ Finset.range n, before t := by
  have hprice : (∑ t ∈ Finset.range n, if s = t then price else 0) = price := by
    rw [Finset.sum_ite_eq, if_pos (Finset.mem_range.mpr existing)]
  calc ∑ t ∈ Finset.range n, after t + price
      = ∑ t ∈ Finset.range n, (after t + if s = t then price else 0) := by
        rw [Finset.sum_add_distrib, hprice]
    _ ≤ ∑ t ∈ Finset.range n, before t := Finset.sum_le_sum fun t ht => each t (Finset.mem_range.mp ht)

theorem existing_of_event {e : Event} (run : exec (step env) (World.init shardCount) acts = some σ)
    (hs : step env σ (.on s e) = some σ') : s < σ.nextPtr ∧ σ'.nextPtr = σ.nextPtr := by
  simp only [step, Option.ite_none_right_eq_some] at hs
  exact ⟨(known_of_run run).live s hs.1, event_nextPtr (event_cases hs.2)⟩

theorem advance_total (run : exec (step env) (World.init shardCount) acts = some σ)
    (hs : step env σ (.on s .advance) = some σ') : σ'.workload + 5 ≤ σ.workload := by
  obtain ⟨hexisting, hnext⟩ := existing_of_event run hs
  rw [World.workload, World.workload, hnext]
  refine sum_pays hexisting fun t ht => ?_
  have hstep := step_workload ht hs
  simp only [Act.on.injEq, and_true, Act.workload, Event.workload, ite_self] at hstep
  exact hstep

theorem delivered_of_advances (kind : ∀ a ∈ more, a.Advances) (t : SessionPtr) :
    delivered t more = [] := by
  rw [delivered, List.flatMap_eq_nil_iff]
  intro a ha
  obtain ⟨s, rfl⟩ := kind a ha
  rfl

/-- The handlers of a server, left to themselves, always come to rest, after a number of steps that is
bounded in advance however they are scheduled; and when none can go on, each complete frame that a client
has delivered has got one answer, in the order of the frames. -/
theorem requests_get_answered (env : Env) (shardCount : Nat) (positive : 1 ≤ shardCount)
    (small : shardCount ≤ 2 ^ 31) (acts : List Act) (σ : World)
    (run : exec (step env) (World.init shardCount) acts = some σ) :
    (∃ more σ', (∀ a ∈ more, a.Advances) ∧ exec (step env) σ more = some σ' ∧ Settled env σ') ∧
    ∀ more σ', (∀ a ∈ more, a.Advances) → exec (step env) σ more = some σ' →
      5 * more.length ≤ σ.workload ∧
      (Settled env σ' → ∀ t < σ.nextPtr, ∃ answers,
        answers.map Prod.fst = (wire.parse (delivered t acts)).1 ∧
        handlerEffects env t (World.init shardCount) (acts ++ more) = conversation answers) := by
  have hreachable : ∀ τ a τ', (∃ acts, exec (step env) (World.init shardCount) acts = some τ) →
      a.Advances → step env τ a = some τ' →
      ∃ acts, exec (step env) (World.init shardCount) acts = some τ' :=
    fun _ _ _ reached _ hs => exists_exec_step reached hs
  have hpays : ∀ τ a τ', (∃ acts, exec (step env) (World.init shardCount) acts = some τ) → a.Advances →
      step env τ a = some τ' → τ'.workload + 5 ≤ τ.workload := by
    rintro τ _ τ' ⟨acts, h⟩ ⟨s, rfl⟩ hs
    exact advance_total h hs
  refine ⟨?_, fun more σ' kind run' => ⟨?_, fun settled t existing => ?_⟩⟩
  · apply exec_settles World.workload hreachable _ _ ⟨acts, run⟩
    · intro τ a τ' h hmine hs
      have hless := hpays τ a τ' h hmine hs
      omega
    · rintro τ ⟨acts, h⟩ hgoes
      simp only [Settled, not_forall] at hgoes
      obtain ⟨s, hs⟩ := hgoes
      obtain ⟨τ', hτ'⟩ := Option.ne_none_iff_exists'.mp hs
      exact ⟨_, τ', ⟨s, rfl⟩, hτ'⟩
  · have hbound := exec_potential World.workload (fun _ => 5) (fun _ => 0) hreachable hpays
      ⟨acts, run⟩ kind run'
    simp only [List.map_const', List.sum_replicate_nat] at hbound
    omega
  · have run'' : exec (step env) (World.init shardCount) (acts ++ more) = some σ' :=
      exec_append_eq_some.mpr ⟨σ, run, run'⟩
    have existing' : t < σ'.nextPtr := Nat.lt_of_lt_of_le existing (nextPtr_exec run')
    have hrests := inLoop_of_strandFree (strandFree_of_settled positive small run'' settled t)
    obtain ⟨answers, pending, hdialogue⟩ := (dialogue_of_run run'').1 existing'
    obtain rfl := hdialogue.nothing_pending (inLoop_eq_false_iff.mp hrests).2
    refine ⟨answers, ?_, by rw [hdialogue.trace, List.map_nil, List.append_nil]⟩
    have hpackets := hdialogue.packets
    rw [List.append_nil] at hpackets
    have hdelivered : delivered t (acts ++ more) = delivered t acts := by
      rw [delivered_append, delivered_of_advances kind t, List.append_nil]
    rw [hpackets, ← hdelivered]
    exact received_of_rest run'' existing' hrests

/-- Two clients ask for one nickname, and the handler of the second one has just taken the packet. -/
theorem requests_get_answered_two :
    let env := Env.ofTable [] [loginText "a"]
    let login := (loginText "a").1
    let acts := connects 0 ++ connects 1 ++ sends 0 [login] 0 ++ sends 1 [login] 1
    ∃ σ more σ' answers, exec (step env) (World.init 4) acts = some σ ∧
      exec (step env) σ more = some σ' ∧ 5 * more.length ≤ σ.workload ∧ Settled env σ' ∧
      answers.map Prod.fst = [login] ∧
      handlerEffects env 1 (World.init 4) (acts ++ more) = conversation answers := by
  intro env login acts
  have hrun : (exec (step env) (World.init 4) acts).map (fun σ => σ.nextPtr) = some 2 := by
    decide +kernel
  obtain ⟨σ, run, hnext⟩ := Option.map_eq_some_iff.mp hrun
  obtain ⟨⟨more, σ', kind, run', hsettled⟩, hall⟩ :=
    requests_get_answered env 4 (by decide) (by decide) acts σ run
  obtain ⟨hbound, hanswered⟩ := hall more σ' kind run'
  obtain ⟨answers, hpackets, heffects⟩ := hanswered hsettled 1 (by rw [hnext]; decide)
  have hframes : (wire.parse (delivered 1 acts)).1 = [login] := by decide +kernel
  exact ⟨σ, more, σ', answers, run, run', hbound, hsettled, hpackets.trans hframes, heffects⟩

end All

end DBMiddleWare
