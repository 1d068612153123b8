import DBMiddleWare.Library.Execution
import DBMiddleWare.Library.StartedFront
import DBMiddleWare.Session

/-!
# The write queue of one session

Posts, write completions and closing as they interleave on the strand. The queue is
popped by the completion handler and by the overflow branch of `enqueue_write`; only
the first is meant for the message in flight.
-/

namespace DBMiddleWare.WriteQueue

open Execution StartedFront
set_option autoImplicit false

/-- One operation on the strand. `setState` stands for the state changes of the
login, which the write path reads. -/
inductive Act where
  | post (text : Bytes)
  | complete (k : Nat) (ec : Bool)
  | close
  | setState (state : SessionState)
  deriving Repr, DecidableEq

/-- The completion handler of `do_write_queue`; `ec` is whether the write failed. -/
def onWrite (w : PendingWrite) (ec : Bool) (o : Session) : Session :=
  if w.generation ≠ o.generation then o
  else if ec then o.shut
  else o.writeDone w

def step (cfg : Config) (o : Session) : Act → Option Session
  | .post text => some (o.postWrite cfg text)
  | .complete k ec => o.asyncWrites[k]?.map fun w => onWrite w ec (o.takeWrite k)
  | .close => some o.shut
  | .setState state => some { o with state := state }

@[simp] theorem shut_toSessionWriter (o : Session) : o.shut.toSessionWriter = o.toSessionWriter :=
  rfl

theorem doWriteQueue_cases (o : Session) :
    o.doWriteQueue = o ∨
    (o.writeQueue = [] ∧ o.doWriteQueue = { o with writeInProgress := false }) ∨
    ∃ m rest, o.writeQueue = m :: rest ∧ o.doWriteQueue = o.asyncWrite m := by
  unfold Session.doWriteQueue
  split
  · exact Or.inl rfl
  · split
    · exact Or.inr (Or.inl ⟨by assumption, rfl⟩)
    · exact Or.inr (Or.inr ⟨_, _, by assumption, rfl⟩)

theorem enqueueWrite_cases (cfg : Config) (msg : Message) (o : Session) :
    (o.writeQueue.length < cfg.maxWriteQueueSize ∧
      o.enqueueWrite cfg msg = { o with writeQueueOverflowCount := 0 }.push msg) ∨
    (cfg.maxWriteQueueSize ≤ o.writeQueue.length ∧
      cfg.writeQueueOverflowLimit ≤ o.writeQueueOverflowCount + 1 ∧
      o.enqueueWrite cfg msg = { o.dropFront with closed := true }) ∨
    (cfg.maxWriteQueueSize ≤ o.writeQueue.length ∧
      o.writeQueueOverflowCount + 1 < cfg.writeQueueOverflowLimit ∧
      o.enqueueWrite cfg msg = o.dropFront.push msg) := by
  by_cases hfull : cfg.maxWriteQueueSize ≤ o.writeQueue.length
  · by_cases hlimit : cfg.writeQueueOverflowLimit ≤ o.dropFront.writeQueueOverflowCount
    · exact Or.inr (Or.inl ⟨hfull, hlimit, by
        simp only [Session.enqueueWrite, if_pos hfull, if_pos hlimit]⟩)
    · refine Or.inr (Or.inr ⟨hfull, Nat.lt_of_not_le hlimit, ?_⟩)
      simp only [Session.enqueueWrite, if_pos hfull, if_neg hlimit]
  · exact Or.inl ⟨by omega, by simp only [Session.enqueueWrite, if_neg hfull]⟩

def queued (cfg : Config) (text : Bytes) (o : Session) : Session :=
  { o with posted := o.posted ++ [o.newMessage text] }.enqueueWrite cfg (o.newMessage text)

theorem postWrite_cases (cfg : Config) (text : Bytes) (o : Session) :
    (o.writeQueue = [] ∧
      o.postWrite cfg text = { queued cfg text o with writeInProgress := true }.doWriteQueue) ∨
    (o.writeQueue ≠ [] ∧ o.postWrite cfg text = queued cfg text o) := by
  cases hq : o.writeQueue with
  | nil => exact Or.inl ⟨rfl, by simp [Session.postWrite, queued, hq]⟩
  | cons m rest => exact Or.inr ⟨by simp, by simp [Session.postWrite, queued, hq]⟩

theorem doWriteQueue_frame (o : Session) :
    o.doWriteQueue.toSessionControl = o.toSessionControl ∧
    o.doWriteQueue.toSessionReader = o.toSessionReader ∧
    o.doWriteQueue.lastAliveTime = o.lastAliveTime := by
  rcases doWriteQueue_cases o with he | ⟨_, he⟩ | ⟨_, _, _, he⟩ <;> rw [he] <;> exact ⟨rfl, rfl, rfl⟩

/-- A post meets the overflow limit: the session is flagged closed, and nothing else is done. -/
def AtLimit (cfg : Config) (o : Session) : Prop :=
  cfg.maxWriteQueueSize ≤ o.writeQueue.length ∧
    cfg.writeQueueOverflowLimit ≤ o.writeQueueOverflowCount + 1

instance (cfg : Config) (o : Session) : Decidable (AtLimit cfg o) := by
  unfold AtLimit
  infer_instance

theorem queued_frame (cfg : Config) (text : Bytes) (o : Session) :
    ((¬ AtLimit cfg o ∧ (queued cfg text o).toSessionControl = o.toSessionControl) ∨
      (AtLimit cfg o ∧
        (queued cfg text o).toSessionControl = { o.toSessionControl with closed := true })) ∧
    (queued cfg text o).toSessionReader = o.toSessionReader ∧
    (queued cfg text o).lastAliveTime = o.lastAliveTime := by
  unfold queued
  rcases enqueueWrite_cases cfg (o.newMessage text)
    { o with posted := o.posted ++ [o.newMessage text] } with
    ⟨hroom, he⟩ | ⟨hfull, hlimit, he⟩ | ⟨_, hbelow, he⟩
  · rw [he]
    exact ⟨Or.inl ⟨fun h => Nat.not_le_of_lt hroom h.1, rfl⟩, rfl, rfl⟩
  · rw [he]
    exact ⟨Or.inr ⟨⟨hfull, hlimit⟩, rfl⟩, rfl, rfl⟩
  · rw [he]
    exact ⟨Or.inl ⟨fun h => Nat.not_le_of_lt hbelow h.2, rfl⟩, rfl, rfl⟩

theorem postWrite_frame (cfg : Config) (text : Bytes) (o : Session) :
    ((¬ AtLimit cfg o ∧ (o.postWrite cfg text).toSessionControl = o.toSessionControl) ∨
      (AtLimit cfg o ∧
        (o.postWrite cfg text).toSessionControl = { o.toSessionControl with closed := true })) ∧
    (o.postWrite cfg text).toSessionReader = o.toSessionReader ∧
    (o.postWrite cfg text).lastAliveTime = o.lastAliveTime := by
  have hqueued := queued_frame cfg text o
  rcases postWrite_cases cfg text o with ⟨_, he⟩ | ⟨_, he⟩
  · obtain ⟨hcontrol, hreader, htime⟩ :=
      doWriteQueue_frame { queued cfg text o with writeInProgress := true }
    rw [he, hcontrol, hreader, htime]
    exact hqueued
  · rwa [he]

/-- A view of the control part other than the flag. -/
theorem postWrite_view {α : Type} (view : SessionControl → α)
    (hview : ∀ c : SessionControl, view { c with closed := true } = view c) (cfg : Config)
    (text : Bytes) (o : Session) :
    view (o.postWrite cfg text).toSessionControl = view o.toSessionControl := by
  rcases (postWrite_frame cfg text o).1 with ⟨_, h⟩ | ⟨_, h⟩
  · rw [h]
  · rw [h]
    exact hview _

def Numbered (posted : List Message) : Prop := ∀ m ∈ posted, m.number < posted.length

theorem newMessage_not_mem {o : Session} (h : Numbered o.posted) (text : Bytes) :
    o.newMessage text ∉ o.posted :=
  fun hm => Nat.lt_irrefl _ (h _ hm)

theorem Numbered.post {o : Session} (h : Numbered o.posted) (text : Bytes) :
    Numbered (o.posted ++ [o.newMessage text]) := by
  intro m hm
  rw [List.length_append, List.length_singleton]
  rcases List.mem_append.mp hm with hm | hm
  · exact Nat.lt_succ_of_lt (h m hm)
  · rw [List.mem_singleton.mp hm]
    exact Nat.lt_succ_self _

/-- What every interleaving keeps, for a queue of two places at least. -/
structure WriterInv (cfg : Config) (w : SessionWriter) : Prop where
  single : w.asyncWrites.length ≤ 1
  busy : w.asyncWrites ≠ [] → w.writeQueue ≠ []
  noPopOnEmpty : w.popOnEmpty = false
  bounded : w.writeQueue.length ≤ cfg.maxWriteQueueSize
  ordered : Ordered w.writeQueue w.started w.posted
  numbered : Numbered w.posted

section Invariant
variable {cfg : Config} {o : Session}

theorem inv_doWriteQueue (h : WriterInv cfg o.toSessionWriter) (idle : o.asyncWrites = [])
    (new : ∀ m ∈ o.writeQueue.head?, m ∉ o.started) : WriterInv cfg o.doWriteQueue.toSessionWriter := by
  rcases doWriteQueue_cases o with he | ⟨_, he⟩ | ⟨m, rest, hq, he⟩
  · rwa [he]
  · rw [he]
    exact ⟨h.single, h.busy, h.noPopOnEmpty, h.bounded, h.ordered, h.numbered⟩
  · rw [he]
    have hm : m ∉ o.started := new m (by rw [hq]; exact rfl)
    have hord := h.ordered
    rw [hq] at hord
    constructor
    · simp [Session.asyncWrite, idle]
    · simp [Session.asyncWrite, hq]
    · exact h.noPopOnEmpty
    · exact h.bounded
    · change Ordered o.writeQueue (o.started ++ [m]) o.posted
      rw [hq]
      exact hord.start hm
    · exact h.numbered

theorem inv_queued (hmax : 2 ≤ cfg.maxWriteQueueSize) (h : WriterInv cfg o.toSessionWriter)
    (text : Bytes) : WriterInv cfg (queued cfg text o).toSessionWriter := by
  have hfresh := newMessage_not_mem h.numbered text
  have hnum := h.numbered.post text
  unfold queued
  rcases enqueueWrite_cases cfg (o.newMessage text)
    { o with posted := o.posted ++ [o.newMessage text] } with
    ⟨hroom, he⟩ | ⟨hfull, _, he⟩ | ⟨hfull, _, he⟩
  · rw [he]
    refine ⟨h.single, fun _ => by simp [Session.push], h.noPopOnEmpty, ?_, h.ordered.push hfresh, hnum⟩
    simpa [Session.push, Nat.succ_le_iff] using hroom
  all_goals
    -- the queue is full, so something stays behind the dropped front
    change cfg.maxWriteQueueSize ≤ o.writeQueue.length at hfull
    have hb := h.bounded
    obtain ⟨m, x, rest, hq⟩ : ∃ m x rest, o.writeQueue = m :: x :: rest := by
      match hq : o.writeQueue with
      | [] | [_] => simp [hq] at hfull; omega
      | m :: x :: rest => exact ⟨m, x, rest, rfl⟩
    have hord := h.ordered
    rw [hq] at hord hb
    rw [he]
  · refine ⟨h.single, fun _ => by simp [Session.dropFront, Session.pop, hq], ?_, ?_, ?_, hnum⟩
    · simp [Session.dropFront, Session.pop, hq, h.noPopOnEmpty]
    · simp [Session.dropFront, Session.pop, hq] at hb ⊢
      omega
    · simpa [Session.dropFront, Session.pop, hq] using hord.tail.lose hfresh
  · refine ⟨h.single, fun _ => by simp [Session.push], ?_, ?_, ?_, hnum⟩
    · simp [Session.push, Session.dropFront, Session.pop, hq, h.noPopOnEmpty]
    · simp [Session.push, Session.dropFront, Session.pop, hq] at hb ⊢
      omega
    · simpa [Session.push, Session.dropFront, Session.pop, hq] using hord.tail.push hfresh

theorem queued_of_idle (room : 0 < cfg.maxWriteQueueSize) (hq : o.writeQueue = []) (text : Bytes) :
    (queued cfg text o).writeQueue = [o.newMessage text] ∧
    (queued cfg text o).asyncWrites = o.asyncWrites ∧ (queued cfg text o).started = o.started := by
  unfold queued
  rcases enqueueWrite_cases cfg (o.newMessage text)
    { o with posted := o.posted ++ [o.newMessage text] } with ⟨_, he⟩ | ⟨hfull, _⟩ | ⟨hfull, _⟩
  · rw [he]
    simp [Session.push, hq]
  all_goals
    simp [hq] at hfull
    omega

theorem inv_postWrite (hmax : 2 ≤ cfg.maxWriteQueueSize) (h : WriterInv cfg o.toSessionWriter)
    (text : Bytes) : WriterInv cfg (o.postWrite cfg text).toSessionWriter := by
  have hqueued := inv_queued hmax h text
  rcases postWrite_cases cfg text o with ⟨hq, he⟩ | ⟨_, he⟩
  · rw [he]
    obtain ⟨hqueue, hasync, hstarted⟩ := queued_of_idle (Nat.lt_of_lt_of_le Nat.zero_lt_two hmax) hq text
    have hidle : o.asyncWrites = [] := by
      by_contra hbusy
      exact h.busy hbusy hq
    have hinv : WriterInv cfg { queued cfg text o with writeInProgress := true }.toSessionWriter :=
      ⟨hqueued.single, hqueued.busy, hqueued.noPopOnEmpty, hqueued.bounded, hqueued.ordered,
        hqueued.numbered⟩
    apply inv_doWriteQueue hinv (hasync.trans hidle)
    intro m hm
    change m ∈ (queued cfg text o).writeQueue.head? at hm
    change m ∉ (queued cfg text o).started
    rw [hqueue, List.head?_cons, Option.mem_some_iff] at hm
    rw [hstarted, ← hm]
    exact fun hs => newMessage_not_mem h.numbered text (h.ordered.started_sublist.subset hs)
  · rwa [he]

theorem takeWrite_of_single (h : o.asyncWrites.length ≤ 1) {k : Nat} {w : PendingWrite}
    (hk : o.asyncWrites[k]? = some w) : o.asyncWrites = [w] ∧ (o.takeWrite k).asyncWrites = [] := by
  match hw : o.asyncWrites with
  | [] => simp [hw] at hk
  | [v] =>
    rw [hw] at hk
    obtain ⟨hk0, hv⟩ := List.getElem?_eq_some_iff.mp hk
    have hk0 : k = 0 := Nat.lt_one_iff.mp hk0
    subst hk0
    exact ⟨congrArg (fun x => [x]) hv, by simp [Session.takeWrite, hw]⟩
  | v :: v' :: rest => simp [hw] at h

theorem inv_onWrite (h : WriterInv cfg o.toSessionWriter) {k : Nat} {w : PendingWrite}
    (hk : o.asyncWrites[k]? = some w) (ec : Bool) :
    WriterInv cfg (onWrite w ec (o.takeWrite k)).toSessionWriter := by
  obtain ⟨hw, hnone⟩ := takeWrite_of_single h.single hk
  have htaken : WriterInv cfg (o.takeWrite k).toSessionWriter :=
    ⟨by rw [hnone]; exact Nat.zero_le 1, fun hne => absurd hnone hne, h.noPopOnEmpty, h.bounded,
      h.ordered, h.numbered⟩
  have hne : o.writeQueue ≠ [] := h.busy (by simp [hw])
  obtain ⟨m, rest, hq⟩ := List.exists_cons_of_ne_nil hne
  have hord := h.ordered
  have hb := h.bounded
  rw [hq] at hord hb
  unfold onWrite
  split
  · exact htaken
  · split
    · rwa [shut_toSessionWriter]
    · have hpop : WriterInv cfg
          { o.takeWrite k with sent := o.sent ++ [w.msg] }.pop.toSessionWriter := by
        refine ⟨htaken.single, fun hbusy => absurd hnone hbusy, ?_, ?_, ?_, h.numbered⟩
        · simp [Session.pop, Session.takeWrite, hq, h.noPopOnEmpty]
        · change o.writeQueue.tail.length ≤ _
          rw [hq, List.tail_cons]
          exact (Nat.le_succ rest.length).trans hb
        · change Ordered o.writeQueue.tail o.started o.posted
          rw [hq, List.tail_cons]
          exact hord.tail
      refine inv_doWriteQueue hpop hnone fun x hx => ?_
      change x ∈ o.writeQueue.tail.head? at hx
      rw [hq, List.tail_cons] at hx
      exact hord.tail_not_started x (List.mem_of_mem_head? hx)

theorem inv_step (hmax : 2 ≤ cfg.maxWriteQueueSize) {o' : Session} {a : Act}
    (h : WriterInv cfg o.toSessionWriter) (hstep : step cfg o a = some o') :
    WriterInv cfg o'.toSessionWriter := by
  cases a with
  | post text => exact Option.some.inj hstep ▸ inv_postWrite hmax h text
  | complete k ec =>
    obtain ⟨w, hk, rfl⟩ := Option.map_eq_some_iff.mp hstep
    exact inv_onWrite h hk ec
  | close =>
    rw [← Option.some.inj hstep, shut_toSessionWriter]
    exact h
  | setState state => exact Option.some.inj hstep ▸ h

end Invariant

theorem inv_fresh (cfg : Config) : WriterInv cfg {} :=
  ⟨Nat.zero_le 1, fun h => absurd rfl h, rfl, Nat.zero_le _, .nil, by intro m hm; simp at hm⟩

def Act.text? : Act → Option Bytes
  | .post text => some text
  | _ => none

@[simp] theorem doWriteQueue_writeQueue (o : Session) : o.doWriteQueue.writeQueue = o.writeQueue := by
  rcases doWriteQueue_cases o with he | ⟨_, he⟩ | ⟨_, _, _, he⟩
  all_goals exact (congrArg (fun o : Session => o.writeQueue) he).trans rfl

@[simp] theorem doWriteQueue_posted (o : Session) : o.doWriteQueue.posted = o.posted := by
  rcases doWriteQueue_cases o with he | ⟨_, he⟩ | ⟨_, _, _, he⟩
  all_goals exact (congrArg (fun o : Session => o.posted) he).trans rfl

@[simp] theorem postWrite_posted (cfg : Config) (text : Bytes) (o : Session) :
    (o.postWrite cfg text).posted = o.posted ++ [o.newMessage text] := by
  have hqueued : (queued cfg text o).posted = o.posted ++ [o.newMessage text] := by
    unfold queued
    rcases enqueueWrite_cases cfg (o.newMessage text)
      { o with posted := o.posted ++ [o.newMessage text] } with ⟨_, he⟩ | ⟨_, _, he⟩ | ⟨_, _, he⟩
    all_goals exact (congrArg (fun o : Session => o.posted) he).trans rfl
  rcases postWrite_cases cfg text o with ⟨_, he⟩ | ⟨_, he⟩
  · rw [he, doWriteQueue_posted]
    exact hqueued
  · rw [he, hqueued]

theorem onWrite_posted (w : PendingWrite) (ec : Bool) (o : Session) :
    (onWrite w ec o).posted = o.posted := by
  unfold onWrite
  split
  · rfl
  · split
    · exact congrArg SessionWriter.posted (shut_toSessionWriter o)
    · exact doWriteQueue_posted _

theorem step_posted {cfg : Config} {o o' : Session} {a : Act} (hstep : step cfg o a = some o') :
    o'.posted.map Message.text = o.posted.map Message.text ++ a.text?.toList := by
  cases a with
  | post text =>
    rw [← Option.some.inj hstep, postWrite_posted]
    simp [Act.text?, Session.newMessage]
  | complete k ec =>
    obtain ⟨w, _, rfl⟩ := Option.map_eq_some_iff.mp hstep
    rw [onWrite_posted]
    simp [Act.text?, Session.takeWrite]
  | close =>
    rw [← Option.some.inj hstep, shut_toSessionWriter]
    simp [Act.text?]
  | setState state =>
    rw [← Option.some.inj hstep]
    simp [Act.text?]

theorem run_posted {cfg : Config} {o₀ o : Session} {acts : List Act}
    (run : exec (step cfg) o₀ acts = some o) :
    o.posted.map Message.text = o₀.posted.map Message.text ++ acts.filterMap Act.text? := by
  induction acts generalizing o₀ with
  | nil => simp [← Option.some.inj run]
  | cons a acts ih =>
    obtain ⟨m, hm, run⟩ := exec_cons_eq_some.mp run
    rw [ih run, step_posted hm, List.append_assoc, List.filterMap_cons]
    cases a.text? <;> rfl

/-- One ordered writer: whatever the interleaving, at most one write is outstanding and
messages are started in posting order, none twice. -/
theorem writer_single_ordered (cfg : Config) (hmax : 2 ≤ cfg.maxWriteQueueSize)
    (o₀ o : Session) (fresh : o₀.toSessionWriter = {}) (acts : List Act)
    (run : exec (step cfg) o₀ acts = some o) :
    o.asyncWrites.length ≤ 1 ∧
    (o.asyncWrites ≠ [] → o.writeQueue ≠ []) ∧
    o.popOnEmpty = false ∧
    o.writeQueue.length ≤ cfg.maxWriteQueueSize ∧
    o.posted.map Message.text = acts.filterMap Act.text? ∧
    o.started.Sublist o.posted ∧ o.started.Nodup := by
  have hinv : WriterInv cfg o.toSessionWriter :=
    invariant (I := fun o => WriterInv cfg o.toSessionWriter)
      (fun _ _ _ h hs => inv_step hmax h hs) (fresh ▸ inv_fresh cfg) run
  exact ⟨hinv.single, hinv.busy, hinv.noPopOnEmpty, hinv.bounded,
    by rw [run_posted run, fresh]; rfl, hinv.ordered.started_sublist, hinv.ordered.started_nodup⟩

/-- Two posts, the first written, with the shipped settings. -/
theorem writer_single_ordered_two_posts :
    ∃ o, exec (step {}) (Session.new 0 0) [.post [65], .post [66], .complete 0 false] = some o ∧
      o.asyncWrites.length ≤ 1 ∧ (o.asyncWrites ≠ [] → o.writeQueue ≠ []) ∧
      o.popOnEmpty = false ∧ o.writeQueue.length ≤ 100 ∧ o.posted.map Message.text = [[65], [66]] ∧
      o.started.Sublist o.posted ∧ o.started.Nodup := by
  obtain ⟨o, run⟩ := Option.isSome_iff_exists.mp
    (show (exec (step {}) (Session.new 0 0) [.post [65], .post [66], .complete 0 false]).isSome by
      decide)
  exact ⟨o, run, writer_single_ordered {} (by decide) (Session.new 0 0) o rfl _ run⟩

end DBMiddleWare.WriteQueue
