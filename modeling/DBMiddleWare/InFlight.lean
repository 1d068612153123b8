import DBMiddleWare.WriteQueue

/-!
# The message in flight

A successful completion pops the front of the queue, taking it to be the message just
written. That is so as long as the overflow branch never pops a message whose write
has been started; on a full queue with a slow peer it does.
-/

namespace DBMiddleWare.WriteQueue

open Execution StartedFront
set_option autoImplicit false

/-- A post into a full queue drops a message that has not been started, and stays below
the overflow limit (at the limit the new message is lost as well). -/
def ShedsUnstarted (cfg : Config) (o : Session) : Act → Prop
  | .post _ => cfg.maxWriteQueueSize ≤ o.writeQueue.length →
      o.writeQueueOverflowCount + 1 < cfg.writeQueueOverflowLimit ∧
      ∃ m rest, o.writeQueue = m :: rest ∧ m ∉ o.started
  | _ => True

structure InFlight (w : SessionWriter) : Prop where
  single : w.asyncWrites.length ≤ 1
  front : ∀ v ∈ w.asyncWrites, w.writeQueue.head? = some v.msg ∧ v.msg ∈ w.started ∧
    v.generation = w.generation
  ordered : Ordered w.writeQueue w.started w.posted
  numbered : Numbered w.posted
  accounted : Accounted w.writeQueue w.started w.posted w.sent w.dropped

section Invariant
variable {cfg : Config} {o : Session}

theorem InFlight.idle_of_unstarted {w : SessionWriter} (h : InFlight w) {m : Message}
    {rest : List Message} (hq : w.writeQueue = m :: rest) (hm : m ∉ w.started) :
    w.asyncWrites = [] := by
  refine List.eq_nil_iff_forall_not_mem.mpr fun v hv => ?_
  obtain ⟨hhead, hstarted, _⟩ := h.front v hv
  rw [hq, List.head?_cons, Option.some.injEq] at hhead
  exact hm (hhead ▸ hstarted)

theorem InFlight.idle_of_empty {w : SessionWriter} (h : InFlight w) (hq : w.writeQueue = []) :
    w.asyncWrites = [] := by
  refine List.eq_nil_iff_forall_not_mem.mpr fun v hv => ?_
  have hhead := (h.front v hv).1
  simp [hq] at hhead

theorem inFlight_doWriteQueue (h : InFlight o.toSessionWriter) (idle : o.asyncWrites = [])
    (new : ∀ m ∈ o.writeQueue.head?, m ∉ o.started) : InFlight o.doWriteQueue.toSessionWriter := by
  rcases doWriteQueue_cases o with he | ⟨_, he⟩ | ⟨m, rest, hq, he⟩
  · rwa [he]
  · rw [he]
    exact ⟨h.single, h.front, h.ordered, h.numbered, h.accounted⟩
  · rw [he]
    have hm : m ∉ o.started := new m (by rw [hq]; exact rfl)
    have hord := h.ordered
    have hacc := h.accounted
    rw [hq] at hord hacc
    constructor
    · simp [Session.asyncWrite, idle]
    · intro v hv
      simp only [Session.asyncWrite, idle, List.nil_append, List.mem_singleton] at hv
      subst hv
      exact ⟨by simp [Session.asyncWrite, hq], by simp [Session.asyncWrite], rfl⟩
    · change Ordered o.writeQueue (o.started ++ [m]) o.posted
      rw [hq]
      exact hord.start hm
    · exact h.numbered
    · change Accounted o.writeQueue (o.started ++ [m]) o.posted o.sent o.dropped
      rw [hq]
      exact hacc.start h.ordered.nodup

theorem head?_append_of_eq_some {m : Message} {queue : List Message} (h : queue.head? = some m)
    (more : List Message) : (queue ++ more).head? = some m := by
  rw [List.head?_append, h]
  rfl

theorem inFlight_queued (h : InFlight o.toSessionWriter) (text : Bytes)
    (sheds : ShedsUnstarted cfg o (.post text)) : InFlight (queued cfg text o).toSessionWriter := by
  have hfresh := newMessage_not_mem h.numbered text
  have hnum := h.numbered.post text
  unfold queued
  rcases enqueueWrite_cases cfg (o.newMessage text)
    { o with posted := o.posted ++ [o.newMessage text] } with
    ⟨_, he⟩ | ⟨hfull, hlimit, _⟩ | ⟨hfull, _, he⟩
  · rw [he]
    refine ⟨h.single, fun v hv => ?_, h.ordered.push hfresh, hnum, h.accounted.push⟩
    obtain ⟨hhead, hrest⟩ := h.front v hv
    exact ⟨head?_append_of_eq_some hhead _, hrest⟩
  · have hbelow := (sheds hfull).1
    change cfg.writeQueueOverflowLimit ≤ o.writeQueueOverflowCount + 1 at hlimit
    omega
  · obtain ⟨_, m, rest, hq, hm⟩ := sheds hfull
    have hidle := h.idle_of_unstarted hq hm
    have hord := h.ordered
    have hacc := h.accounted
    rw [hq] at hord hacc
    rw [he]
    refine ⟨h.single, fun v hv => ?_, ?_, hnum, ?_⟩
    · change v ∈ o.asyncWrites at hv
      simp [hidle] at hv
    · simpa [Session.push, Session.dropFront, Session.pop, hq] using hord.tail.push hfresh
    · simpa [Session.push, Session.dropFront, Session.pop, hq] using (hacc.drop hm).push

theorem inFlight_postWrite (h : InFlight o.toSessionWriter) (text : Bytes)
    (sheds : ShedsUnstarted cfg o (.post text)) : InFlight (o.postWrite cfg text).toSessionWriter := by
  have hqueued := inFlight_queued h text sheds
  rcases postWrite_cases cfg text o with ⟨hq, he⟩ | ⟨_, he⟩
  · rw [he]
    have room : 0 < cfg.maxWriteQueueSize := by
      by_contra hnone
      obtain ⟨_, m, rest, hq', _⟩ := sheds (Nat.le_trans (Nat.le_of_not_lt hnone) (Nat.zero_le _))
      simp [hq] at hq'
    obtain ⟨hqueue, hasync, hstarted⟩ := queued_of_idle room hq text
    have hinv : InFlight { queued cfg text o with writeInProgress := true }.toSessionWriter :=
      ⟨hqueued.single, hqueued.front, hqueued.ordered, hqueued.numbered, hqueued.accounted⟩
    apply inFlight_doWriteQueue hinv (hasync.trans (h.idle_of_empty hq))
    intro m hm
    change m ∈ (queued cfg text o).writeQueue.head? at hm
    change m ∉ (queued cfg text o).started
    rw [hqueue, List.head?_cons, Option.mem_some_iff] at hm
    rw [hstarted, ← hm]
    exact fun hs => newMessage_not_mem h.numbered text (h.ordered.started_sublist.subset hs)
  · rwa [he]

theorem InFlight.queue_eq (h : InFlight o.toSessionWriter) {k : Nat} {v : PendingWrite}
    (hk : o.asyncWrites[k]? = some v) : ∃ rest, o.writeQueue = v.msg :: rest := by
  have hhead := (h.front v (List.mem_of_getElem? hk)).1
  match hq : o.writeQueue with
  | [] => simp [hq] at hhead
  | m :: rest =>
    rw [hq, List.head?_cons, Option.some.injEq] at hhead
    exact ⟨rest, by rw [hhead]⟩

theorem inFlight_onWrite (h : InFlight o.toSessionWriter) {k : Nat} {v : PendingWrite}
    (hk : o.asyncWrites[k]? = some v) (ec : Bool) :
    InFlight (onWrite v ec (o.takeWrite k)).toSessionWriter := by
  obtain ⟨hw, hnone⟩ := takeWrite_of_single h.single hk
  obtain ⟨rest, hq⟩ := h.queue_eq hk
  have hord := h.ordered
  have hacc := h.accounted
  rw [hq] at hord hacc
  have htaken : InFlight (o.takeWrite k).toSessionWriter :=
    ⟨by rw [hnone]; exact Nat.zero_le 1, fun x hx => by simp [hnone] at hx, h.ordered, h.numbered,
      h.accounted⟩
  unfold onWrite
  split
  · exact htaken
  · split
    · rwa [shut_toSessionWriter]
    · have hpop : InFlight { o.takeWrite k with sent := o.sent ++ [v.msg] }.pop.toSessionWriter := by
        refine ⟨htaken.single, fun x hx => ?_, ?_, h.numbered, ?_⟩
        · change x ∈ (o.takeWrite k).asyncWrites at hx
          simp [hnone] at hx
        · change Ordered o.writeQueue.tail o.started o.posted
          rw [hq, List.tail_cons]
          exact hord.tail
        · change Accounted o.writeQueue.tail o.started o.posted (o.sent ++ [v.msg]) o.dropped
          rw [hq, List.tail_cons]
          exact hacc.finish
      refine inFlight_doWriteQueue hpop hnone fun x hx => ?_
      change x ∈ o.writeQueue.tail.head? at hx
      rw [hq, List.tail_cons] at hx
      exact hord.tail_not_started x (List.mem_of_mem_head? hx)

theorem inFlight_step {o' : Session} {a : Act} (h : InFlight o.toSessionWriter)
    (sheds : ShedsUnstarted cfg o a) (hstep : step cfg o a = some o') :
    InFlight o'.toSessionWriter := by
  cases a with
  | post text => exact Option.some.inj hstep ▸ inFlight_postWrite h text sheds
  | complete k ec =>
    obtain ⟨v, hk, rfl⟩ := Option.map_eq_some_iff.mp hstep
    exact inFlight_onWrite h hk ec
  | close =>
    rw [← Option.some.inj hstep, shut_toSessionWriter]
    exact h
  | setState state => exact Option.some.inj hstep ▸ h

end Invariant

theorem inFlight_fresh : InFlight {} :=
  ⟨Nat.zero_le 1, fun v hv => by simp at hv, .nil, by intro m hm; simp at hm, .nil⟩

@[simp] theorem doWriteQueue_sent (o : Session) : o.doWriteQueue.sent = o.sent := by
  rcases doWriteQueue_cases o with he | ⟨_, he⟩ | ⟨_, _, _, he⟩
  all_goals exact (congrArg (fun o : Session => o.sent) he).trans rfl

theorem InFlight.complete {cfg : Config} {o o' : Session} (h : InFlight o.toSessionWriter) {k : Nat}
    {v : PendingWrite} (hk : o.asyncWrites[k]? = some v)
    (hstep : step cfg o (.complete k false) = some o') :
    o.writeQueue = v.msg :: o'.writeQueue ∧ o'.sent = o.sent ++ [v.msg] := by
  obtain ⟨rest, hq⟩ := h.queue_eq hk
  have hgen := (h.front v (List.mem_of_getElem? hk)).2.2
  have ho' : onWrite v false (o.takeWrite k) = o' := by
    simpa [step, hk] using hstep
  have hdone : onWrite v false (o.takeWrite k) = (o.takeWrite k).writeDone v := by
    simp [onWrite, Session.takeWrite, hgen]
  rw [← ho', hdone, Session.writeDone]
  simp [Session.pop, Session.takeWrite, hq]

/-- The front is the message in flight, and every post is accounted for, in every run
whose overflow drops hit unstarted messages below the limit. -/
theorem completion_removes_transmitted (cfg : Config) (o₀ o : Session)
    (fresh : o₀.toSessionWriter = {}) (acts : List Act)
    (sheds : Along (step cfg) (ShedsUnstarted cfg) o₀ acts)
    (run : exec (step cfg) o₀ acts = some o) :
    (∀ v ∈ o.asyncWrites, o.writeQueue.head? = some v.msg) ∧
    (∀ k v o', o.asyncWrites[k]? = some v → step cfg o (.complete k false) = some o' →
      o.writeQueue = v.msg :: o'.writeQueue ∧ o'.sent = o.sent ++ [v.msg]) ∧
    o.posted.Nodup ∧ o.posted.Perm (o.sent ++ o.writeQueue ++ o.dropped) ∧
    ∀ m ∈ o.dropped, m ∉ o.started := by
  have hinv : InFlight o.toSessionWriter :=
    invariant_along (I := fun o => InFlight o.toSessionWriter)
      (fun _ _ _ h hg hs => inFlight_step h hg hs) (fresh ▸ inFlight_fresh) sheds run
  exact ⟨fun v hv => (hinv.front v hv).1, fun k v o' hk hs => hinv.complete hk hs,
    hinv.ordered.nodup, hinv.accounted.perm, hinv.accounted.unstarted⟩

/-- Two posts and a completion, with room in the queue. -/
theorem completion_removes_transmitted_two_posts :
    ∃ o, exec (step {}) (Session.new 0 0) [.post [65], .post [66], .complete 0 false] = some o ∧
      (∀ v ∈ o.asyncWrites, o.writeQueue.head? = some v.msg) ∧
      (∀ k v o', o.asyncWrites[k]? = some v → step {} o (.complete k false) = some o' →
        o.writeQueue = v.msg :: o'.writeQueue ∧ o'.sent = o.sent ++ [v.msg]) ∧
      o.posted.Nodup ∧ o.posted.Perm (o.sent ++ o.writeQueue ++ o.dropped) ∧
      ∀ m ∈ o.dropped, m ∉ o.started := by
  obtain ⟨o, run⟩ := Option.isSome_iff_exists.mp
    (show (exec (step {}) (Session.new 0 0) [.post [65], .post [66], .complete 0 false]).isSome by
      decide)
  refine ⟨o, run, completion_removes_transmitted {} (Session.new 0 0) o rfl _ ?_ run⟩
  have room (n : Nat) (h : n < 100) : ¬ (100 ≤ n) := by omega
  refine ⟨fun hfull => absurd hfull (room 0 (by decide)),
    fun o₁ h₁ => ⟨fun hfull => ?_, fun o₂ h₂ => ?_⟩⟩
  · rw [← Option.some.inj h₁] at hfull
    exact absurd hfull (room 1 (by decide))
  · exact ⟨trivial, fun _ _ => trivial⟩

/-- A peer that does not read, the shipped settings: the 101st post drops message 0 while
it is being written, and its completion then removes message 1, which was never sent. -/
theorem completion_removes_untransmitted :
    (exec (step {}) (Session.new 0 0) (List.replicate 101 (.post [65]))).map
      (fun o => (o.asyncWrites.map fun v => v.msg.number, o.writeQueue.head?.map Message.number)) =
        some ([0], some 1) ∧
    (exec (step {}) (Session.new 0 0) (List.replicate 101 (.post [65]) ++ [.complete 0 false])).map
      (fun o => (o.posted.contains ⟨1, [65]⟩, o.sent.contains ⟨1, [65]⟩,
        o.writeQueue.contains ⟨1, [65]⟩, o.dropped.contains ⟨1, [65]⟩)) =
        some (true, false, false, false) := by
  constructor <;> decide +kernel

end DBMiddleWare.WriteQueue
