import DBMiddleWare.TaskQueue

/-!
# One reader for each session

Whoever holds the read flag has the only read of the session: on its way to the strand,
in the queue, or outstanding. The flag is free only while the read handler runs, or when
the session is closed.
-/

namespace DBMiddleWare.TaskStrand

open Execution
set_option autoImplicit false

/-- The reads that are outstanding, queued, or dispatched and not queued yet. -/
def reads (x : TaskStrand) : Nat :=
  x.session.asyncReads + x.session.taskQueue.count .read + x.dispatched.count .read

/-- These, and the calls of `do_read` between the exchange of the flag and the dispatch. -/
def slot (x : TaskStrand) : Nat := x.reads + x.calling + if x.handler = .post then 1 else 0

/-- What a step can do to the read flag and to the reads. -/
inductive SlotMove (x x' : TaskStrand) : Prop where
  | keep (slot : x'.slot = x.slot) (pending : x'.session.readPending = x.session.readPending)
  | lose (slot : x'.slot ≤ x.slot) (pending : x'.session.readPending = x.session.readPending)
      (closed : x'.session.closed = true)
  | take (free : x.session.readPending = false) (slot : x'.slot = x.slot + 1)
      (pending : x'.session.readPending = true)
  | release (slot : x'.slot + 1 = x.slot) (pending : x'.session.readPending = false)

/-- What a step can do to the control part of the session. -/
inductive ControlMove (o : SessionControl) : SessionControl → Prop where
  | same : ControlMove o o
  | shut : ControlMove o o.shut
  | flag : ControlMove o { o with closed := true }
  | ready : ControlMove o { o with state := .ready }

/-- The session has been closed when its state or its socket says so. -/
structure Ends (o : SessionControl) : Prop where
  state : o.state = .closed → o.closed = true
  socket : o.socketOpen = false → o.closed = true

section Moves
variable {x x' : TaskStrand}

theorem Ends.move {o o' : SessionControl} (h : Ends o) (move : ControlMove o o') : Ends o' := by
  cases move with
  | same => exact h
  | shut => exact ⟨fun _ => o.shut_closed, fun _ => o.shut_closed⟩
  | flag => exact ⟨fun _ => rfl, fun _ => rfl⟩
  | ready => exact ⟨nofun, h.socket⟩

theorem ControlMove.closed {o o' : SessionControl} (move : ControlMove o o') (h : o.closed = true) :
    o'.closed = true := by
  cases move with
  | same => exact h
  | shut => exact o.shut_closed
  | flag => rfl
  | ready => exact h

theorem Posted.control {fn : Task} (hx : Posted x fn x') :
    ControlMove x.session.toSessionControl x'.session.toSessionControl := by
  cases hx with
  | refused => exact .shut
  | queued busy => exact .same
  | started first rest free split => exact .same

theorem Ran.control (hx : Ran x x') : x'.session.toSessionControl = x.session.toSessionControl := by
  cases hx with
  | stopped empty => rfl
  | started first rest split => rfl

theorem Posted.handler {fn : Task} (hx : Posted x fn x') : x'.handler = x.handler := by
  cases hx <;> rfl

theorem Ran.handler (hx : Ran x x') : x'.handler = x.handler := by
  cases hx <;> rfl

theorem slot_of_reads {n : Nat} (handler : x'.handler = x.handler) (calling : x'.calling = x.calling)
    (reads : x'.reads = x.reads + n) : x'.slot = x.slot + n := by
  simp only [slot, handler, calling, reads]
  omega

theorem reads_started {queue rest : List Task} {first : Task} (split : queue = first :: rest) :
    queue.count .read = rest.count .read + [first].count .read := by
  rw [split, List.count_cons, List.count_singleton]

theorem Posted.move {y : TaskStrand} {fn : Task} (hx : Posted y fn x')
    (slot : y.slot + [fn].count .read = x.slot)
    (pending : y.session.readPending = x.session.readPending) : SlotMove x x' := by
  cases hx with
  | refused =>
    refine .lose ?_ pending y.session.toSessionControl.shut_closed
    have hslot : (y.modify Session.shut).slot = y.slot := rfl
    omega
  | queued busy =>
    refine .keep ?_ pending
    rw [← slot]
    apply slot_of_reads
    · rfl
    · rfl
    · simp only [reads, modify, List.count_append]
      omega
  | started first rest free split =>
    refine .keep ?_ pending
    rw [← slot]
    apply slot_of_reads
    · rfl
    · rfl
    · have hcount := reads_started split
      rw [List.count_append] at hcount
      simp only [reads, modify]
      omega

theorem Ran.slot (hx : Ran x x') : x'.slot = x.slot := by
  cases hx with
  | stopped empty => rfl
  | started first rest split =>
    refine slot_of_reads (n := 0) ?_ ?_ ?_
    · rfl
    · rfl
    · have hcount := reads_started split
      simp only [reads, modify]
      omega

theorem Ran.pending (hx : Ran x x') : x'.session.readPending = x.session.readPending := by
  cases hx with
  | stopped empty => rfl
  | started first rest split => rfl

theorem Posted.pending {fn : Task} (hx : Posted x fn x') :
    x'.session.readPending = x.session.readPending := by
  cases hx with
  | refused => rfl
  | queued busy => rfl
  | started first rest free split => rfl

theorem slot_of_handler (handler : x.handler ≠ .post) (handler' : x'.handler ≠ .post)
    (calling : x'.calling = x.calling) (reads : x'.reads = x.reads) : x'.slot = x.slot := by
  simp only [slot, if_neg handler, if_neg handler', calling, reads]

theorem advance_move {host : ByteOrder.Endian} (hx : Advanced x host x') : SlotMove x x' := by
  cases hx with
  | taken packet mgr _ _ => exact .keep rfl rfl
  | invalid mgr at_ _ _ =>
    exact .keep (slot_of_handler (by simp [at_]) (show ReadHandler.idle ≠ .post by simp) rfl rfl) rfl
  | drained mgr at_ _ => exact .keep (slot_of_handler (by simp [at_]) (by simp) rfl rfl) rfl
  | closed at_ _ => exact .keep (slot_of_handler (by simp [at_]) (by simp) rfl rfl) rfl
  | doRead at_ => exact .keep (slot_of_handler (by simp [at_]) (by simp) rfl rfl) rfl
  | duplicate at_ _ => exact .keep (slot_of_handler (by simp [at_]) (by simp) rfl rfl) rfl
  | acquire at_ free =>
    refine .take free ?_ rfl
    simp only [slot, at_, reads, modify]
    rfl
  | post at_ posted =>
    refine posted.move ?_ rfl
    simp only [slot, at_, reads]
    rfl
  | next at_ ran =>
    refine .keep ?_ ran.pending
    rw [ran.slot]
    exact slot_of_handler (by simp [at_]) (show ReadHandler.idle ≠ .post by simp) rfl rfl

theorem complete_slot {handler : ReadHandler} (free : x.handler = .idle)
    (outstanding : x.session.asyncReads ≠ 0) (running : handler ≠ .post) :
    (x.complete handler).slot + 1 = x.slot := by
  have hpost : x.handler ≠ .post := by
    rw [free]
    simp
  have hpost' : (x.complete handler).handler ≠ .post := running
  simp only [slot, if_neg hpost, if_neg hpost', reads]
  simp only [complete, modify]
  omega

theorem acquire_move : SlotMove x x.acquire := by
  unfold TaskStrand.acquire
  dsimp only
  split
  · exact .keep rfl rfl
  · rename_i hfree
    refine .take (Bool.eq_false_iff.mpr hfree) ?_ rfl
    rw [slot.eq_def x]
    change x.reads + (x.calling + 1) + (if x.handler = .post then 1 else 0) = _
    omega

theorem step_move {cfg : Config} {host : ByteOrder.Endian} {a : Act}
    (hx : TaskStrand.step cfg host x a = some x') : SlotMove x x' := by
  cases step_cases hx with
  | post id =>
    refine .keep ?_ rfl
    simp only [slot, reads, List.count_append]
    rfl
  | postInline id posted => exact posted.move rfl rfl
  | strand fn rest queue posted =>
    refine posted.move ?_ rfl
    apply Eq.symm
    apply slot_of_reads
    · rfl
    · rfl
    · have hcount := reads_started queue
      simp only [reads]
      omega
  | callDone id _ ran => exact .keep ran.slot ran.pending
  | refused => exact .keep rfl rfl
  | check => exact .keep rfl rfl
  | acquire => exact acquire_move
  | dispatch calling =>
    refine .keep ?_ rfl
    simp only [slot, reads, List.count_append, List.count_singleton_self]
    omega
  | dispatchInline calling posted =>
    refine posted.move ?_ rfl
    simp only [slot, reads, List.count_singleton_self]
    omega
  | readData data free outstanding =>
    have hslot : (x.complete .drain).slot + 1 = x.slot := complete_slot free outstanding (by simp)
    exact .release hslot rfl
  | aborted free outstanding => exact .release (complete_slot free outstanding (by simp)) rfl
  | failed free outstanding =>
    have hslot : (x.complete .next).slot + 1 = x.slot := complete_slot free outstanding (by simp)
    exact .release hslot rfl
  | advance advanced => exact advance_move advanced
  | throw busy before =>
    refine .lose ?_ rfl x.session.toSessionControl.shut_closed
    simp only [slot, reads]
    simp [modify, Session.shut]
  | close => exact .keep rfl rfl
  | flag => exact .keep rfl rfl
  | ready => exact .keep rfl rfl

theorem advance_control {host : ByteOrder.Endian} (hx : Advanced x host x') :
    ControlMove x.session.toSessionControl x'.session.toSessionControl := by
  cases hx with
  | invalid mgr _ _ _ => exact .shut
  | post _ posted => exact posted.control
  | next _ ran =>
    rw [ran.control]
    exact .same
  | _ => exact .same

theorem step_control {cfg : Config} {host : ByteOrder.Endian} {a : Act}
    (hx : TaskStrand.step cfg host x a = some x') :
    ControlMove x.session.toSessionControl x'.session.toSessionControl := by
  cases step_cases hx with
  | postInline id posted => exact posted.control
  | strand fn rest _ posted => exact posted.control
  | callDone id _ ran =>
    rw [ran.control]
    exact .same
  | acquire =>
    unfold TaskStrand.acquire
    dsimp only
    split
    · exact .same
    · exact .same
  | dispatchInline _ posted => exact posted.control
  | failed _ _ => exact .shut
  | advance advanced => exact advance_control advanced
  | throw _ _ => exact .shut
  | close => exact .shut
  | flag => exact .flag
  | ready => exact .ready
  | _ => exact .same

/-- The flag stands for the one read of the session, and is given back with it unless the
session is closed. -/
structure OneReader (x : TaskStrand) : Prop where
  ends : Ends x.session.toSessionControl
  single : x.slot ≤ x.session.readPending.toNat
  exact_ : x.session.closed = false → x.slot = x.session.readPending.toNat

/-- While no handler is between its release of the flag and its call of `do_read`, the flag of
an open session is taken. -/
def Held (x : TaskStrand) : Prop :=
  x.session.closed = false → x.handler = .idle ∨ x.handler = .next → x.session.readPending = true

theorem not_closed_of_move (move : ControlMove x.session.toSessionControl x'.session.toSessionControl)
    (h : x'.session.closed = false) : x.session.closed = false := by
  rw [← Bool.not_eq_true] at h ⊢
  exact fun hclosed => h (move.closed hclosed)

theorem OneReader.move (h : OneReader x) (move : SlotMove x x')
    (control : ControlMove x.session.toSessionControl x'.session.toSessionControl) : OneReader x' := by
  have hsingle := h.single
  have hopen := fun hclosed => h.exact_ (not_closed_of_move control hclosed)
  cases move with
  | keep slot pending =>
    refine ⟨h.ends.move control, ?_, fun hclosed => ?_⟩
    · rw [slot, pending]
      exact hsingle
    · rw [slot, pending]
      exact hopen hclosed
  | lose slot pending closed =>
    refine ⟨h.ends.move control, ?_, fun hclosed => ?_⟩
    · rw [pending]
      exact slot.trans hsingle
    · rw [closed] at hclosed
      cases hclosed
  | take free slot pending =>
    rw [free, Bool.toNat_false] at hsingle
    refine ⟨h.ends.move control, ?_, fun _ => ?_⟩
    · rw [slot, pending, Bool.toNat_true]
      omega
    · rw [slot, pending, Bool.toNat_true]
      omega
  | release slot pending =>
    have hle := Bool.toNat_le x.session.readPending
    refine ⟨h.ends.move control, ?_, fun _ => ?_⟩
    · rw [pending, Bool.toNat_false]
      omega
    · rw [pending, Bool.toNat_false]
      omega

theorem OneReader.step {cfg : Config} {host : ByteOrder.Endian} {a : Act} (h : OneReader x)
    (hx : TaskStrand.step cfg host x a = some x') : OneReader x' :=
  h.move (step_move hx) (step_control hx)

theorem Held.of_same (h : Held x)
    (control : ControlMove x.session.toSessionControl x'.session.toSessionControl)
    (handler : x'.handler = x.handler) (pending : x'.session.readPending = x.session.readPending) :
    Held x' := by
  intro hclosed hat
  rw [handler] at hat
  rw [pending]
  exact h (not_closed_of_move control hclosed) hat

theorem held_of_closed (closed : x.session.closed = true) : Held x := by
  intro hclosed
  rw [closed] at hclosed
  cases hclosed

theorem held_of_running (idle : x.handler ≠ .idle) (next : x.handler ≠ .next) : Held x :=
  fun _ hat => absurd hat (not_or.mpr ⟨idle, next⟩)

theorem held_acquire : Held x.acquire := by
  unfold TaskStrand.acquire
  dsimp only
  split
  · rename_i hpending
    exact fun _ _ => hpending
  · exact fun _ _ => rfl

/-- An aborted read is reported only when the socket of the session has been closed. -/
def AbortedAfterClose (x : TaskStrand) (a : Act) : Prop :=
  a = .readError true → x.session.socketOpen = false

theorem Held.advance {host : ByteOrder.Endian} (h : Held x) (reader : OneReader x)
    (hx : Advanced x host x') : Held x' := by
  cases hx with
  | taken packet mgr at_ _ => exact held_of_running (by simp [modify, at_]) (by simp [modify, at_])
  | invalid mgr _ _ _ => exact held_of_closed x.session.toSessionControl.shut_closed
  | drained mgr _ _ => exact held_of_running (by simp) (by simp)
  | closed _ state => exact held_of_closed (reader.ends.state state)
  | doRead _ => exact held_of_running (by simp) (by simp)
  | duplicate _ pending => exact fun _ _ => pending
  | acquire _ _ => exact held_of_running (by simp) (by simp)
  | post at_ posted =>
    -- the handler holds the flag that it has taken
    have hpending : x.session.readPending = true := by
      have hsingle := reader.single
      rw [slot, if_pos at_] at hsingle
      have hle := Bool.toNat_le x.session.readPending
      exact Bool.toNat_eq_one.mp (by omega)
    intro _ _
    rw [posted.pending]
    exact hpending
  | next at_ ran =>
    intro hclosed _
    rw [ran.pending]
    rw [ran.control] at hclosed
    exact h hclosed (Or.inr at_)

theorem Held.step {cfg : Config} {host : ByteOrder.Endian} {a : Act} (h : Held x) (reader : OneReader x)
    (aborted : AbortedAfterClose x a) (hx : TaskStrand.step cfg host x a = some x') : Held x' := by
  have hcontrol := step_control hx
  cases step_cases hx with
  | post id => exact h
  | postInline id posted => exact h.of_same hcontrol posted.handler posted.pending
  | strand fn rest _ posted => exact h.of_same hcontrol posted.handler posted.pending
  | callDone id _ ran => exact h.of_same hcontrol ran.handler ran.pending
  | refused => exact h
  | check => exact h
  | acquire => exact held_acquire
  | dispatch _ => exact h
  | dispatchInline _ posted => exact h.of_same hcontrol posted.handler posted.pending
  | readData data _ _ =>
    exact held_of_running (show ReadHandler.drain ≠ .idle by simp)
      (show ReadHandler.drain ≠ .next by simp)
  | aborted _ _ => exact held_of_closed (reader.ends.socket (aborted rfl))
  | failed _ _ => exact held_of_closed x.session.toSessionControl.shut_closed
  | advance advanced => exact h.advance reader advanced
  | throw _ _ => exact held_of_closed x.session.toSessionControl.shut_closed
  | close => exact held_of_closed x.session.toSessionControl.shut_closed
  | flag => exact held_of_closed rfl
  | ready => exact h

theorem oneReader_new (sessionId : Int32) (now : Int) : OneReader (.new sessionId now) :=
  ⟨⟨nofun, nofun⟩, Nat.le_refl 0, fun _ => rfl⟩

theorem oneReader_of_run {cfg : Config} {host : ByteOrder.Endian} {sessionId : Int32} {now : Int}
    {acts : List Act} (run : exec (TaskStrand.step cfg host) (.new sessionId now) acts = some x) :
    OneReader x :=
  invariant (fun _ _ _ h hx => h.step hx) (oneReader_new sessionId now) run

/-- The first exchange of the flag takes it, or finds that another call has. -/
theorem held_of_run {cfg : Config} {host : ByteOrder.Endian} {sessionId : Int32} {now : Int}
    {acts : List Act} (aborted : Along (TaskStrand.step cfg host) AbortedAfterClose
        (.new sessionId now) acts)
    (started : Act.acquire ∈ acts)
    (run : exec (TaskStrand.step cfg host) (.new sessionId now) acts = some x) : Held x := by
  obtain ⟨before, after, rfl⟩ := List.append_of_mem started
  obtain ⟨y, hbefore, hafter⟩ := exec_append_eq_some.mp run
  obtain ⟨z, hz, hrest⟩ := exec_cons_eq_some.mp hafter
  have hreader : OneReader z := (oneReader_of_run hbefore).step hz
  have hheld : Held z := by
    simp only [TaskStrand.step, Option.ite_none_left_eq_some, Option.some.injEq] at hz
    exact hz.2 ▸ held_acquire
  have haborted := (along_append.mp aborted).2 y hbefore
  refine (invariant_along (I := fun x => OneReader x ∧ Held x) ?_ ⟨hreader, hheld⟩
    (haborted.2 z hz) hrest).2
  intro u a v hu hguard hv
  exact ⟨hu.1.step hv, hu.2.step hu.1 hguard hv⟩

end Moves

instance (x : TaskStrand) (a : Act) : Decidable (AbortedAfterClose x a) :=
  inferInstanceAs (Decidable (_ → _))

/-- A session never has two reads. Once `start` has exchanged the flag, an open session without a
running handler has exactly one, or a call of `do_read` is about to dispatch it. -/
theorem one_reader (cfg : Config) (host : ByteOrder.Endian) (sessionId : Int32) (now : Int)
    (acts : List Act) (x : TaskStrand) (run : exec (step cfg host) (.new sessionId now) acts = some x) :
    x.reads ≤ 1 ∧
      (Along (step cfg host) AbortedAfterClose (.new sessionId now) acts → .acquire ∈ acts →
        x.session.closed = false → x.handler = .idle → x.reads + x.calling = 1) := by
  have hreader := oneReader_of_run run
  constructor
  · have hsingle := hreader.single
    have hle := Bool.toNat_le x.session.readPending
    rw [slot] at hsingle
    omega
  · intro aborted started hclosed hidle
    have hpending := held_of_run aborted started run hclosed (Or.inl hidle)
    have hexact := hreader.exact_ hclosed
    rw [slot, hidle, hpending] at hexact
    exact hexact

theorem one_reader_first_read :
    ∃ x, exec (step {} .little) (.new 0 0) [.check, .acquire, .dispatch, .strand] = some x ∧
      x.reads + x.calling = 1 := by
  obtain ⟨x, run, hclosed, hidle⟩ :
      ∃ x, exec (step {} .little) (.new 0 0) [.check, .acquire, .dispatch, .strand] = some x ∧
        x.session.closed = false ∧ x.handler = .idle := ⟨_, rfl, rfl, rfl⟩
  refine ⟨x, run, (one_reader _ _ _ _ _ x run).2 ?_ ?_ hclosed hidle⟩
  · decide +kernel
  · decide

/-- Another thread takes the flag between its release and the handler's own call of `do_read`;
until that thread dispatches its task the open session has no read. -/
theorem late_dispatch_leaves_no_read :
    (exec (step {} .little) (.new 0 0) [.check, .acquire, .dispatch, .strand, .readData [0],
      .check, .advance, .advance, .acquire, .advance, .advance]).map
        (fun x => (x.session.closed, x.handler, x.reads)) = some (false, .idle, 0) ∧
    Along (step {} .little) AbortedAfterClose (.new 0 0)
      [.check, .acquire, .dispatch, .strand, .readData [0],
      .check, .advance, .advance, .acquire, .advance, .advance] := by
  constructor
  · decide +kernel
  · decide +kernel

end DBMiddleWare.TaskStrand
