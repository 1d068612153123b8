import Mathlib.Data.List.DropRight
import DBMiddleWare.OpenSockets
import DBMiddleWare.Serving

/-!
# The overflow of a write queue

A post that finds the queue full drops the oldest message, and too many of them in a row set
the flag of a closed session. Nothing more is done: `close_session` then returns at once, so
the socket stays open and the session stays registered.
-/

namespace DBMiddleWare

open Execution Control WriteQueue
set_option autoImplicit false

/-- For a post of the open session, whether its queue is full. -/
def fullPost (cfg : Config) (o o' : Session) : List Bool :=
  if o.closed = false ∧ o'.posted.length ≠ o.posted.length then
    [decide (cfg.maxWriteQueueSize ≤ o.writeQueue.length)]
  else []

/-- The posts before the flag; what is posted to a session that is already flagged does not count. -/
def fullPosts (env : Env) (t : SessionPtr) : World → List Act → List Bool :=
  observed (step env) fun σ _ σ' => fullPost env.config (σ.session t) (σ'.session t)

/-- How many of the last posts have found the queue full. -/
def fullInARow (posts : List Bool) : Nat := (posts.rtakeWhile id).length

theorem fullInARow_concat (posts : List Bool) (full : Bool) :
    fullInARow (posts ++ [full]) = if full then fullInARow posts + 1 else 0 := by
  unfold fullInARow
  rw [List.rtakeWhile_concat]
  cases full with
  | true => exact List.length_append
  | false => rfl

theorem replicate_suffix_iff (n : Nat) (posts : List Bool) :
    List.replicate n true <:+ posts ↔ n ≤ fullInARow posts := by
  have hfront : ∀ (n : Nat) (bs : List Bool), List.replicate n true <+: bs ↔
      n ≤ (bs.takeWhile id).length := by
    intro n bs
    induction bs generalizing n with
    | nil =>
      cases n with
      | zero => simp
      | succ n => simp [List.replicate_succ]
    | cons b bs ih =>
      cases n with
      | zero => simp
      | succ n =>
        rw [List.replicate_succ, List.cons_prefix_cons, ih]
        cases b with
        | true => simp
        | false => simp
  rw [← List.reverse_prefix, List.reverse_replicate, hfront, fullInARow, List.rtakeWhile,
    List.length_reverse]

section Post
variable {cfg : Config} {o : Session}

theorem doWriteQueue_overflow (o : Session) :
    o.doWriteQueue.writeQueueOverflowCount = o.writeQueueOverflowCount ∧ o.doWriteQueue.closed =
    o.closed := by
  rcases doWriteQueue_cases o with he | ⟨_, he⟩ | ⟨_, _, _, he⟩
  · rw [he]
    exact ⟨rfl, rfl⟩
  · rw [he]
    exact ⟨rfl, rfl⟩
  · rw [he]
    exact ⟨rfl, rfl⟩

/-- A post counts, or begins to count again; at the limit it sets the flag. -/
theorem postWrite_overflow (cfg : Config) (text : Bytes) (opened : o.closed = false) :
    (o.writeQueue.length < cfg.maxWriteQueueSize ∧ (o.postWrite cfg text).writeQueueOverflowCount = 0 ∧
      (o.postWrite cfg text).closed = false) ∨
    (cfg.maxWriteQueueSize ≤ o.writeQueue.length ∧
      (o.postWrite cfg text).writeQueueOverflowCount = o.writeQueueOverflowCount + 1 ∧
      (o.postWrite cfg text).closed =
        decide (cfg.writeQueueOverflowLimit ≤ o.writeQueueOverflowCount + 1)) := by
  have hqueued : (o.postWrite cfg text).writeQueueOverflowCount =
      (queued cfg text o).writeQueueOverflowCount ∧
      (o.postWrite cfg text).closed = (queued cfg text o).closed := by
    rcases postWrite_cases cfg text o with ⟨_, he⟩ | ⟨_, he⟩
    · rw [he]
      exact doWriteQueue_overflow { queued cfg text o with writeInProgress := true }
    · rw [he]
      exact ⟨rfl, rfl⟩
  rw [hqueued.1, hqueued.2]
  unfold queued
  rcases enqueueWrite_cases cfg (o.newMessage text)
    { o with posted := o.posted ++ [o.newMessage text] } with
    ⟨hroom, he⟩ | ⟨hfull, hlimit, he⟩ | ⟨hfull, hbelow, he⟩
  · rw [he]
    exact Or.inl ⟨hroom, rfl, opened⟩
  · rw [he]
    exact Or.inr ⟨hfull, rfl, (decide_eq_true hlimit).symm⟩
  · rw [he]
    exact Or.inr ⟨hfull, rfl, opened.trans (decide_eq_false (Nat.not_le_of_lt hbelow)).symm⟩

theorem onWrite_overflow (w : PendingWrite) (ec : Bool) (o : Session) :
    (WriteQueue.onWrite w ec o).writeQueueOverflowCount = o.writeQueueOverflowCount := by
  unfold WriteQueue.onWrite
  split
  · rfl
  · split
    · rfl
    · exact (doWriteQueue_overflow { o with sent := o.sent ++ [w.msg] }.pop).1

end Post

/-- A session is open, closed with its socket, or flagged while its socket is open. -/
def SessionControl.ending (o : SessionControl) : Bool × Bool := (o.closed, o.socketOpen)

def FlagsOther (t : SessionPtr) (_ : Control) (op : Op) : Prop := op ≠ .flag t

section Ending
variable {env : Env} {c c' : Control} {t : SessionPtr} {o o' : SessionControl}

theorem shut_ending (h : o.closed = !o.socketOpen) : o.shut.closed = !o.shut.socketOpen := by
  rcases o.shut_cases with ⟨hclosed, heq⟩ | ⟨_, heq⟩
  · rw [heq]
    exact h
  · rw [heq]
    rfl

/-- Other operations than the flag set it together with the socket. -/
theorem ending_of_operation {op : Op} (existing : t < c.nextPtr)
    (h : (c.session t).closed = !(c.session t).socketOpen) (other : FlagsOther t c op)
    (step : Step env c op c') :
    t < c'.nextPtr ∧ (c'.session t).closed = !(c'.session t).socketOpen := by
  refine ⟨Nat.lt_of_lt_of_le existing step.nextPtr_le, ?_⟩
  have hsame : (c'.session t).ending = (c.session t).ending →
      (c'.session t).closed = !(c'.session t).socketOpen := by
    intro heq
    obtain ⟨hclosed, hsocket⟩ := Prod.mk.inj heq
    rw [hclosed, hsocket]
    exact h
  cases step with
  | accept sessionId =>
    exact hsame (congrArg _ (accept_session_of_ne c t sessionId (Nat.ne_of_lt existing)))
  | destroy s _ => exact h
  | close s =>
    rw [close_session, modify_session]
    split
    · rename_i heq
      exact shut_ending (heq ▸ h)
    · exact h
  | flag s =>
    have hne : t ≠ s := fun heq => other (heq ▸ rfl)
    rw [modify_session, if_neg hne]
    exact h
  | goto s phase _ _ _ => exact hsame (modify_view c s t _ SessionControl.ending fun _ => rfl)
  | receive s packet _ => exact hsame (modify_view c s t _ SessionControl.ending fun _ => rfl)
  | lookup s nickname _ _ => exact hsame (modify_view c s t _ SessionControl.ending fun _ => rfl)
  | name s nickname _ => exact hsame (modify_view c s t _ SessionControl.ending fun _ => rfl)
  | ready s nickname _ => exact hsame (modify_view c s t _ SessionControl.ending fun _ => rfl)
  | evict s nickname prev _ _ _ => exact hsame (modify_view c s t _ SessionControl.ending fun _ => rfl)
  | index s nickname _ => exact hsame (modify_view c s t _ SessionControl.ending fun _ => rfl)
  | ack s nickname _ => exact hsame (modify_view c s t _ SessionControl.ending fun _ => rfl)

/-- What has been flagged or closed stays as it is, whatever is done to it. -/
theorem Control.Touch.ended (touch : Touch env o o') (closed : o.closed = true) :
    o'.closed = true ∧ o'.socketOpen = o.socketOpen := by
  cases touch with
  | shut => exact ⟨o.shut_closed, shut_socketOpen_of_closed closed⟩
  | flag => exact ⟨rfl, rfl⟩
  | _ => exact ⟨closed, rfl⟩

end Ending

section Step
variable {env : Env} {σ σ' : World} {t : SessionPtr} {a : Act}

theorem postWrite_posts (τ : World) (s : SessionPtr) (cfg : Config) (text : Bytes) :
    ((τ.postWrite s cfg text).session s).posted.length = (τ.session s).posted.length + 1 := by
  rw [World.postWrite, World.modify_session_self, postWrite_posted, List.length_append]
  rfl

theorem posted_of_posts (posts : σ.posts a = some t) (hs : step env σ a = some σ') :
    (σ'.session t).posted.length = (σ.session t).posted.length + 1 := by
  have hmoved : ∀ (s : SessionPtr) (f : Session → Session), (∀ o, (f o).posted = o.posted) → ∀ τ : World,
      ((τ.modify s f).session s).posted.length = (τ.session s).posted.length := fun s f hf τ =>
    congrArg List.length (World.modify_view τ s s f (fun o => o.posted) hf)
  unfold World.posts at posts
  split at posts
  · rename_i s
    simp only [step, World.event, Option.ite_none_right_eq_some] at hs
    obtain ⟨_, hs⟩ := hs
    split at posts
    · rename_i text at_
      obtain rfl := Option.some.inj posts
      rw [World.advance, at_] at hs
      obtain rfl := Option.some.inj hs
      rw [postWrite_posts, Nat.add_left_inj]
      apply hmoved
      exact fun _ => rfl
    · rename_i nickname at_
      obtain rfl := Option.some.inj posts
      rw [World.advance, at_] at hs
      obtain rfl := Option.some.inj hs
      rw [World.ackLogin, postWrite_posts, Nat.add_left_inj, World.setPhase, World.modify_modify]
      apply hmoved
      exact fun _ => rfl
    · cases posts
  · rename_i s
    simp only [step, Option.ite_none_right_eq_some] at hs
    split at posts
    · rename_i text rest hqueue
      obtain rfl := Option.some.inj posts
      cases event_cases hs.2 with
      | strand closure rest' queue _ =>
        obtain ⟨rfl, rfl⟩ := List.cons.inj (queue.symm.trans hqueue)
        rw [World.runClosure, postWrite_posts, Nat.add_left_inj]
        apply hmoved
        exact fun _ => rfl
    · cases posts
  · cases posts

/-- A step without a post of the session does not set its flag alone. -/
theorem quiet_ending (existing : t < σ.nextPtr) (hs : step env σ a = some σ')
    (quiet : (σ'.session t).posted.length = (σ.session t).posted.length)
    (h : (σ.session t).closed = !(σ.session t).socketOpen) :
    (σ'.session t).closed = !(σ'.session t).socketOpen := by
  have hother : ∀ s, σ.posts a = some s → s ≠ t := by
    rintro s hposts rfl
    rw [posted_of_posts hposts hs] at quiet
    omega
  have hwatch : Watch env (FlagsOther t) σ a := by
    refine ⟨?_, ?_, ?_, ?_, fun s hposts _ _ heq => hother s hposts (Op.flag.inj heq), ?_, ?_, ?_⟩
    · rintro c op hop rfl
      cases hop
    · exact fun _ _ heq => by cases heq
    · exact fun _ _ heq => by cases heq
    · exact fun _ _ _ _ heq => by cases heq
    · exact fun _ _ _ heq => by cases heq
    · exact fun _ _ _ heq => by cases heq
    · exact fun _ _ _ _ _ heq => by cases heq
  have hcontrol := watched_preserved
    (I := fun c => t < c.nextPtr ∧ (c.session t).closed = !(c.session t).socketOpen)
    (fun _ _ _ hguard hop hc => ending_of_operation hc.1 hc.2 hguard hop) hwatch hs ⟨existing, h⟩
  exact hcontrol.2

theorem step_ended (existing : t < σ.nextPtr) (hs : step env σ a = some σ')
    (closed : (σ.session t).closed = true) :
    (σ'.session t).closed = true ∧ (σ'.session t).socketOpen = (σ.session t).socketOpen := by
  have hoperation : ∀ op (c c' : Control), Step env c op c' →
      t < c.nextPtr ∧ (c.session t).closed = true ∧ (c.session t).socketOpen = (σ.session t).socketOpen →
      t < c'.nextPtr ∧ (c'.session t).closed = true ∧ (c'.session t).socketOpen =
      (σ.session t).socketOpen := by
    intro op c c' hop hc
    obtain ⟨hclosed, hsocket⟩ := (hop.touch hc.1).ended hc.2.1
    exact ⟨Nat.lt_of_lt_of_le hc.1 hop.nextPtr_le, hclosed, hsocket.trans hc.2.2⟩
  exact (control_preserved hoperation hs ⟨existing, closed, rfl⟩).2

end Step

/-- An open session counts the full posts, and the flag without the socket says that the limit was
reached. -/
structure Overflowing (cfg : Config) (posts : List Bool) (o : Session) : Prop where
  opened : o.closed = false → o.socketOpen = true ∧ o.writeQueueOverflowCount = fullInARow posts ∧
    fullInARow posts < max 1 cfg.writeQueueOverflowLimit
  ended : o.closed = true → (o.socketOpen = true ↔ max 1 cfg.writeQueueOverflowLimit ≤ fullInARow posts)

section Run
variable {env : Env} {shardCount : Nat} {acts more : List Act} {σ σ' : World} {t : SessionPtr} {a : Act}
  {posts : List Bool}

theorem Overflowing.step (h : Overflowing env.config posts (σ.session t)) (existing : t < σ.nextPtr)
    (hs : step env σ a = some σ') :
    Overflowing env.config (posts ++ fullPost env.config (σ.session t) (σ'.session t))
      (σ'.session t) := by
  cases hclosed : (σ.session t).closed with
  | true =>
    obtain ⟨hclosed', hsocket⟩ := step_ended existing hs hclosed
    have hnone : fullPost env.config (σ.session t) (σ'.session t) = [] := if_neg (by simp [hclosed])
    rw [hnone, List.append_nil]
    refine ⟨fun hopen => ?_, fun _ => ?_⟩
    · rw [hclosed'] at hopen
      cases hopen
    · rw [hsocket]
      exact h.ended hclosed
  | false =>
    obtain ⟨hsocket, hcount, hbelow⟩ := h.opened hclosed
    have hquiet : (σ'.session t).posted.length = (σ.session t).posted.length →
        (σ'.session t).writeQueueOverflowCount = (σ.session t).writeQueueOverflowCount →
        Overflowing env.config (posts ++ fullPost env.config (σ.session t) (σ'.session t))
          (σ'.session t) := by
      intro hposted hsame
      have htogether := quiet_ending existing hs hposted (by rw [hclosed, hsocket]; rfl)
      have hnone : fullPost env.config (σ.session t) (σ'.session t) = [] := if_neg (by simp [hposted])
      rw [hnone, List.append_nil]
      refine ⟨fun hopen => ⟨?_, hsame.trans hcount, hbelow⟩, fun hended => ?_⟩
      · rw [hopen] at htogether
        simpa using htogether
      · rw [hended] at htogether
        have hshut : (σ'.session t).socketOpen = false := by simpa using htogether
        rw [hshut]
        exact iff_of_false Bool.false_ne_true (Nat.not_le_of_lt hbelow)
    cases step_writeMove hs existing with
    | keep writer => exact hquiet (by rw [writer]) (by rw [writer])
    | done k w ec _ _ completed =>
      refine hquiet ?_ ?_
      · rw [completed, onWrite_posted]
        rfl
      · rw [completed, onWrite_overflow]
        rfl
    | post text _ posted socket =>
      obtain ⟨hwriter, _, hflag⟩ := writePath_eq_iff.mp posted
      have hposted : (σ'.session t).posted.length ≠ (σ.session t).posted.length := by
        rw [hwriter, postWrite_posted, List.length_append]
        exact Nat.succ_ne_self _
      rw [fullPost, if_pos ⟨hclosed, hposted⟩]
      have hcount' := congrArg SessionWriter.writeQueueOverflowCount hwriter
      have hsocket' : (σ'.session t).socketOpen = true := socket.trans hsocket
      rcases postWrite_overflow env.config text hclosed with ⟨hroom, hnew, hopen⟩ | ⟨hfull, hnew, hopen⟩
      · rw [decide_eq_false (Nat.not_le_of_lt hroom)]
        refine ⟨fun _ => ⟨hsocket', ?_, ?_⟩, fun hended => ?_⟩
        · rw [fullInARow_concat]
          exact hcount'.trans hnew
        · rw [fullInARow_concat]
          exact Nat.lt_of_lt_of_le Nat.zero_lt_one (Nat.le_max_left _ _)
        · rw [hflag, hopen] at hended
          cases hended
      · rw [decide_eq_true hfull]
        have hlimit := hflag.trans hopen
        refine ⟨fun hgoes => ⟨hsocket', ?_, ?_⟩, fun hended => ?_⟩
        · rw [fullInARow_concat, if_pos rfl, ← hcount]
          exact hcount'.trans hnew
        · rw [hgoes] at hlimit
          have hbelow' := of_decide_eq_false hlimit.symm
          rw [fullInARow_concat, if_pos rfl, ← hcount]
          omega
        · rw [hended] at hlimit
          have hreached := of_decide_eq_true hlimit.symm
          rw [fullInARow_concat, if_pos rfl, ← hcount]
          refine iff_of_true hsocket' ?_
          omega

/-- `close_session` ends a session below the limit together with its socket. -/
theorem Overflowing.shut {cfg : Config} {o : Session} (h : Overflowing cfg posts o)
    (below : fullInARow posts < max 1 cfg.writeQueueOverflowLimit) : Overflowing cfg posts o.shut := by
  rcases o.toSessionControl.shut_cases with ⟨_, heq⟩ | ⟨_, heq⟩
  · have hclosed : o.shut.closed = o.closed := congrArg (fun c => c.closed) heq
    have hsocket : o.shut.socketOpen = o.socketOpen := congrArg (fun c => c.socketOpen) heq
    refine ⟨fun hopen => ?_, fun hended => ?_⟩
    · rw [hsocket]
      exact h.opened (hclosed ▸ hopen)
    · rw [hsocket]
      exact h.ended (hclosed ▸ hended)
  · have hclosed : o.shut.closed = true := congrArg (fun c => c.closed) heq
    have hsocket : o.shut.socketOpen = false := congrArg (fun c => c.socketOpen) heq
    refine ⟨fun hopen => ?_, fun _ => ?_⟩
    · rw [hclosed] at hopen
      cases hopen
    · rw [hsocket]
      exact iff_of_false Bool.false_ne_true (Nat.not_le_of_lt below)

theorem overflowing_accept (cfg : Config) (σ : World) (now : Int) :
    Overflowing cfg [] ((σ.accept now).session σ.nextPtr) := by
  have hbelow : fullInARow [] < max 1 cfg.writeQueueOverflowLimit :=
    Nat.lt_of_lt_of_le Nat.zero_lt_one (Nat.le_max_left _ _)
  have hnew : Overflowing cfg [] (Function.update σ.session σ.nextPtr (.new σ.sessionCounter now)
      σ.nextPtr) := by
    rw [Function.update_self]
    exact ⟨fun _ => ⟨rfl, rfl, hbelow⟩, fun hended => by cases hended⟩
  rw [World.accept]
  rcases addSession_cases _ σ.nextPtr with heq | ⟨r, _, heq⟩
  · rw [heq]
    exact hnew
  · rw [heq, World.closeSession_session, World.modify_session]
    split
    · rename_i hr
      exact hr ▸ hnew.shut hbelow
    · exact hnew

/-- Nothing is posted to a session before it is accepted. -/
theorem step_unposted (known : Known σ.control) (absent : σ.nextPtr ≤ t) (hs : step env σ a = some σ')
    (unposted : (σ.session t).posted = []) : (σ'.session t).posted = [] := by
  rcases step_cases hs with ⟨now, rfl, rfl⟩ | ⟨collected, _, rfl⟩ | ⟨s, e, rfl, live, happened⟩
  · rw [accept_view (fun o => o.posted) (fun _ => rfl)]
    split
    · rfl
    · exact unposted
  · exact unposted
  · have hne : t ≠ s := Nat.ne_of_gt (Nat.lt_of_lt_of_le (known.live s live) absent)
    have hremote := (event_seen happened hne).1
    generalize σ'.session t = o' at hremote
    cases hremote with
    | same => exact unposted
    | shut => exact unposted
    | notice text => exact unposted

theorem overflowing_of_run (run : exec (step env) (World.init shardCount) acts = some σ) :
    (t < σ.nextPtr → Overflowing env.config (fullPosts env t (World.init shardCount) acts)
      (σ.session t)) ∧
    (σ.nextPtr ≤ t → fullPosts env t (World.init shardCount) acts = [] ∧ (σ.session t).posted = []) := by
  refine history_invariant (H := fun acts σ =>
    (t < σ.nextPtr → Overflowing env.config (fullPosts env t (World.init shardCount) acts)
      (σ.session t)) ∧
    (σ.nextPtr ≤ t → fullPosts env t (World.init shardCount) acts = [] ∧ (σ.session t).posted = []))
      ?_ ?_ run
  · exact ⟨fun h => absurd h (Nat.not_lt_zero t), fun _ => ⟨rfl, rfl⟩⟩
  · intro acts σ a σ' run ⟨hoverflowing, hnone⟩ hs
    rw [fullPosts, observed_concat run hs]
    by_cases hexisting : t < σ.nextPtr
    · refine ⟨fun _ => (hoverflowing hexisting).step hexisting hs, fun habsent => ?_⟩
      exact absurd (Nat.lt_of_lt_of_le hexisting (nextPtr_le_of_step hs)) (Nat.not_lt_of_le habsent)
    · have habsent := Nat.le_of_not_lt hexisting
      obtain ⟨hposts, hposted⟩ := hnone habsent
      have hposted' := step_unposted (known_of_run run) habsent hs hposted
      have hlast : fullPost env.config (σ.session t) (σ'.session t) = [] :=
        if_neg (by simp [hposted, hposted'])
      rw [hlast, List.append_nil]
      change fullPosts env t (World.init shardCount) acts = [] at hposts
      refine ⟨fun hcreated => ?_, fun _ => ⟨hposts, hposted'⟩⟩
      obtain ⟨now, _, rfl, rfl⟩ := created_of_step hs habsent hcreated
      change Overflowing env.config (fullPosts env σ.nextPtr (World.init shardCount) acts) _
      rw [hposts]
      exact overflowing_accept env.config σ now

theorem exec_ended (existing : t < σ.nextPtr) (closed : (σ.session t).closed = true)
    (run : exec (step env) σ more = some σ') : t < σ'.nextPtr ∧
      (σ'.session t).closed = true ∧ (σ'.session t).socketOpen = (σ.session t).socketOpen := by
  refine invariant (I := fun τ => t < τ.nextPtr ∧ (τ.session t).closed = true ∧
    (τ.session t).socketOpen = (σ.session t).socketOpen) ?_ ⟨existing, closed, rfl⟩ run
  intro τ a τ' h hs
  obtain ⟨hclosed, hsocket⟩ := step_ended h.1 hs h.2.1
  exact ⟨Nat.lt_of_lt_of_le h.1 (nextPtr_le_of_step hs), hclosed, hsocket.trans h.2.2⟩

end Run

/-- A session is flagged as closed with its socket open exactly when the last posts before the flag, as
many in a row as the limit, have found its queue full; a limit of 0 acts as 1. No later step closes the
socket, and up to 2 ^ 32 connections the session stays alive and registered. -/
theorem overflow_leaves_socket_open (env : Env) (shardCount : Nat) (positive : 1 ≤ shardCount)
    (small : shardCount ≤ 2 ^ 31) (acts : List Act) (σ : World)
    (run : exec (step env) (World.init shardCount) acts = some σ) (t : SessionPtr)
    (existing : t < σ.nextPtr) :
    ((σ.session t).closed = true ∧ (σ.session t).socketOpen = true ↔
      List.replicate (max 1 env.config.writeQueueOverflowLimit) true <:+
        fullPosts env t (World.init shardCount) acts) ∧
    ((σ.session t).closed = true → (σ.session t).socketOpen = true →
      ∀ more σ', exec (step env) σ more = some σ' →
        (σ'.session t).closed = true ∧ (σ'.session t).socketOpen = true ∧
        (σ'.nextPtr ≤ 2 ^ 32 → σ'.live t = true ∧
          σ'.manager.findSession (σ'.session t).sessionId = some t)) := by
  have hoverflowing := (overflowing_of_run run).1 existing
  refine ⟨?_, fun closed socket more σ' run' => ?_⟩
  · rw [replicate_suffix_iff]
    constructor
    · exact fun ⟨closed, socket⟩ => (hoverflowing.ended closed).mp socket
    · intro hreached
      cases hclosed : (σ.session t).closed with
      | false => exact absurd hreached (Nat.not_le_of_lt (hoverflowing.opened hclosed).2.2)
      | true => exact ⟨rfl, (hoverflowing.ended hclosed).mpr hreached⟩
  · obtain ⟨hexisting, hclosed, hsocket⟩ := exec_ended existing closed run'
    have hrun : exec (step env) (World.init shardCount) (acts ++ more) = some σ' :=
      exec_append_eq_some.mpr ⟨σ, run, run'⟩
    refine ⟨hclosed, hsocket.trans socket, fun issued => ?_⟩
    have hfound : σ'.manager.findSession (σ'.session t).sessionId = some t :=
      (findSession_iff hrun issued).mpr ⟨hexisting, rfl, hsocket.trans socket⟩
    exact ⟨(noDangling_of_run positive small hrun).registered _ t hfound, hfound⟩

/-- The queue holds one message and the limit is two: the third post sets the flag. -/
theorem overflow_leaves_socket_open_three :
    let env := { Env.ofTable [] [] with
        config := { maxWriteQueueSize := 1, writeQueueOverflowLimit := 2 } }
    let acts := connects 0 ++ [.on 0 (.postWrite [1]), .on 0 .strand, .on 0 (.postWrite [2]),
      .on 0 .strand, .on 0 (.postWrite [3]), .on 0 .strand]
    ∃ σ σ', exec (step env) (World.init 4) acts = some σ ∧
      [true, true] <:+ fullPosts env 0 (World.init 4) acts ∧
      exec (step env) σ [.on 0 (.readError true)] = some σ' ∧ σ'.live 0 = true ∧
      σ'.manager.findSession (σ'.session 0).sessionId = some 0 := by
  intro env acts
  have hrun : (exec (step env) (World.init 4) acts).map (fun σ => (σ.nextPtr, (σ.session 0).closed,
      (σ.session 0).socketOpen)) = some (1, true, true) := by decide +kernel
  have hrun' : ((exec (step env) (World.init 4) acts).bind fun σ =>
      exec (step env) σ [.on 0 (.readError true)]).map (fun σ' => σ'.nextPtr) = some 1 := by
      decide +kernel
  obtain ⟨σ, run, hview⟩ := Option.map_eq_some_iff.mp hrun
  obtain ⟨hnext, hclosed, hsocket⟩ := by simpa only [Prod.mk.injEq] using hview
  rw [run, Option.bind_some] at hrun'
  obtain ⟨σ', run', hnext'⟩ := Option.map_eq_some_iff.mp hrun'
  have h := overflow_leaves_socket_open env 4 (by decide) (by decide) acts σ run 0
    (hnext ▸ Nat.zero_lt_one)
  refine ⟨σ, σ', run, h.1.mp ⟨hclosed, hsocket⟩, run', ?_⟩
  exact (h.2 hclosed hsocket _ σ' run').2.2 (hnext' ▸ by decide)

end DBMiddleWare
