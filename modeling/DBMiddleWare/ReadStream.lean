import DBMiddleWare.Reader

/-!
# What a session reads of its stream

The bytes of all reads of a session, one after the other, are one stream in the wire
format. Between two reads the session has taken exactly the frames of that stream, however
it was cut into reads and whatever happened in the server meanwhile; at a length that the
format does not allow it stops reading.
-/

namespace DBMiddleWare

open Execution
set_option autoImplicit false

def Act.delivered (t : SessionPtr) : Act → Bytes
  | .on s (.readData data) => if s = t then data else []
  | _ => []

/-- The bytes that the reads of a session have delivered. -/
def delivered (t : SessionPtr) (acts : List Act) : Bytes := acts.flatMap (Act.delivered t)

/-- How far the session has come in its stream. -/
inductive Streamed (bytes : Bytes) (o : Session) : Prop where
  | underway (parse : wire.parse bytes =
        (o.received ++ (wire.parse o.msgBufMgr.buffer).1, (wire.parse o.msgBufMgr.buffer).2))
      (taken : o.phase.stage ≠ .working → wire.look o.msgBufMgr.buffer = .more)
  /-- after an invalid length -/
  | ended (parse : wire.parse bytes = (o.received, none)) (waits : o.phase.stage = .waiting)
      (reads : o.reads = 0) (closed : o.closed = true)

section Step
variable {env : Env} {σ σ' : World} {t : SessionPtr} {a : Act} {bytes : Bytes} {o o' : Session}

theorem delivered_of_other (other : ∀ data, a ≠ .on t (.readData data)) : a.delivered t = [] := by
  unfold Act.delivered
  split
  · rename_i s data
    refine if_neg fun hs => other data ?_
    rw [hs]
  · rfl

theorem delivered_append (acts more : List Act) :
    delivered t (acts ++ more) = delivered t acts ++ delivered t more :=
  List.flatMap_append

theorem delivered_concat (acts : List Act) :
    delivered t (acts ++ [a]) = delivered t acts ++ a.delivered t := by
  rw [delivered, List.flatMap_append, List.flatMap_singleton, delivered]

theorem intake_eq_iff {mgr : MessageBufferManager} {received : List Bytes} {time : Int} :
    o.intake = (mgr, received, time) ↔ o.msgBufMgr = mgr ∧ o.received = received ∧
    o.lastAliveTime = time := by
  simp only [Session.intake, Prod.mk.injEq]

theorem stage_ne_working {phase : Phase} (h : phase.inLoop = false) : phase.stage ≠ .working := by
  intro hworking
  rw [inLoop_iff.mpr hworking] at h
  cases h

/-- Apart from its reads a session only takes frames from its buffer. -/
theorem Streamed.quiet (h : Streamed bytes o) (one : OneRead o) (loop : LoopMove env t a o o')
    (read : ReadMove env t a o o') (other : ∀ data, a ≠ .on t (.readData data)) : Streamed bytes o' := by
  cases h with
  | underway parse taken =>
    cases loop with
    | keep _ intake stays =>
      obtain ⟨hmgr, hreceived, _⟩ := intake_eq_iff.mp intake
      rw [← hmgr, ← hreceived] at parse
      refine .underway parse fun hstage => ?_
      rw [hmgr]
      apply taken
      intro hworking
      exact hstage (inLoop_iff.mp (stays.trans (inLoop_iff.mpr hworking)))
    | read data act => exact absurd act (other data)
    | take packet mgr act at_ extract loop =>
      obtain ⟨hphase, hmgr, hreceived, _⟩ := loop_eq_iff.mp loop
      obtain ⟨hlook, _⟩ := MessageBufferManager.extractMessage_some extract
      rw [wire.parse_item hlook] at parse
      refine .underway ?_ fun hstage => ?_
      · rw [parse, hmgr, hreceived, List.append_assoc]
        rfl
      · rw [hphase] at hstage
        exact absurd (inLoop_iff.mp (Route.phase_inLoop env _)) hstage
    | leave mgr act at_ extract intake left =>
      obtain ⟨hmgr, hreceived, _⟩ := intake_eq_iff.mp intake
      cases hlook : wire.look o.msgBufMgr.buffer with
      | more =>
        have hsame : mgr.buffer = o.msgBufMgr.buffer := by
          rw [MessageBufferManager.extractMessage_of_more hlook] at extract
          rw [← (Prod.mk.inj extract).2]
        rw [← hsame, ← hmgr, ← hreceived] at parse
        refine .underway parse fun _ => ?_
        rw [hmgr, hsame, hlook]
      | item packet rest =>
        rw [MessageBufferManager.extractMessage_of_item hlook] at extract
        cases extract
      | bad =>
        have hidle := one.working (by rw [at_]; decide)
        rw [wire.parse_bad hlook, List.append_nil, ← hreceived] at parse
        cases read with
        | keep kept stage =>
          rw [at_] at stage
          exact absurd stage (stage_ne_working left)
        | ask asked before after valid =>
          have hvalid := valid act
          rw [MessageBufferManager.extractMessage_of_bad hlook] at hvalid
          cases hvalid
        | get data act' => exact absurd act' (other data)
        | fail aborted act' =>
          rw [act] at act'
          cases act'
        | quit kept _ invalid closed idle =>
          exact .ended parse (congrArg Phase.stage idle) (Nat.le_zero.mp (hidle.1 ▸ kept.reads)) closed
  | ended parse waits reads closed =>
    have hnot : o.phase ≠ .drain := by
      intro hdrain
      rw [hdrain] at waits
      cases waits
    cases loop with
    | keep _ intake stays =>
      obtain ⟨_, hreceived, _⟩ := intake_eq_iff.mp intake
      rw [← hreceived] at parse
      cases read with
      | keep kept stage =>
        exact .ended parse (stage.trans waits) (Nat.le_zero.mp (reads ▸ kept.reads)) (kept.closed closed)
      | ask asked before => exact absurd waits before
      | get data act => exact absurd act (other data)
      | fail aborted act fewer => omega
      | quit kept at_ => exact absurd at_ hnot
    | read data act => exact absurd act (other data)
    | take packet mgr act at_ => exact absurd at_ hnot
    | leave mgr act at_ => exact absurd at_ hnot

theorem reads_of_readData {data : Bytes} (hs : step env σ (.on t (.readData data)) = some σ') :
    (σ.session t).reads ≠ 0 := by
  simp only [step, World.event, Option.ite_none_right_eq_some] at hs
  unfold Session.reads
  omega

/-- A read comes while no handler works, and finds a buffer without a complete frame. -/
theorem Streamed.read (h : Streamed bytes (σ.session t)) (data : Bytes)
    (hs : step env σ (.on t (.readData data)) = some σ') : Streamed (bytes ++ data) (σ'.session t) := by
  have hreads := reads_of_readData hs
  simp only [step, World.event, Option.ite_none_right_eq_some, Option.some.injEq] at hs
  obtain ⟨_, ⟨free, _⟩, rfl⟩ := hs
  rw [World.readData, World.modify_session_self]
  cases h with
  | underway parse taken =>
    have hlook := taken (stage_ne_working (inLoop_of_strandFree free))
    rw [wire.parse_more hlook, List.append_nil] at parse
    refine .underway ?_ fun hstage => absurd rfl hstage
    have hrest : (wire.parse bytes).2 = some (σ.session t).msgBufMgr.buffer := by rw [parse]
    rw [wire.parse_append_some data hrest, parse]
    rfl
  | ended parse waits reads closed => exact absurd reads hreads

theorem Streamed.received_front (h : Streamed bytes o) : o.received <+: (wire.parse bytes).1 := by
  cases h with
  | underway parse _ =>
    rw [parse]
    exact List.prefix_append _ _
  | ended parse _ _ _ =>
    rw [parse]

end Step

section Run
variable {env : Env} {shardCount : Nat} {acts : List Act} {σ : World} {t : SessionPtr}

theorem delivered_eq_nil (none : ∀ e, .on t e ∉ acts) : delivered t acts = [] := by
  rw [delivered, List.flatMap_eq_nil_iff]
  intro a ha
  apply delivered_of_other
  rintro data rfl
  exact none _ ha

theorem streamed_of_run (run : exec (step env) (World.init shardCount) acts = some σ)
    (existing : t < σ.nextPtr) :
    Streamed (delivered t acts) (σ.session t) := by
  refine session_history (H := fun acts o => Streamed (delivered t acts) o) ?_ ?_ run existing
  · intro acts σ now _ ht hnone
    have hloop := accept_loop σ now t
    rw [if_pos ht] at hloop
    obtain ⟨_, hmgr, hreceived, _⟩ := loop_eq_iff.mp hloop
    have hnothing : delivered t (acts ++ [.accept now]) = [] := by
      rw [delivered_concat, delivered_eq_nil hnone]
      rfl
    have hlook : wire.look [] = .more := rfl
    refine .underway ?_ fun _ => ?_
    · rw [hnothing, hmgr, hreceived, wire.parse_more hlook]
      rfl
    · rw [hmgr]
      exact hlook
  · intro acts σ a σ' run hexisting h hs
    rw [delivered_concat]
    by_cases hread : ∃ data, a = .on t (.readData data)
    · obtain ⟨data, rfl⟩ := hread
      rw [Act.delivered, if_pos rfl]
      exact h.read data hs
    · have hother : ∀ data, a ≠ .on t (.readData data) := fun data ha => hread ⟨data, ha⟩
      rw [delivered_of_other hother, List.append_nil]
      exact h.quiet (oneRead_of_run run hexisting) (step_move hs hexisting)
        (step_readMove hs hexisting) hother

theorem received_of_rest (run : exec (step env) (World.init shardCount) acts = some σ)
    (existing : t < σ.nextPtr) (rests : (σ.session t).phase.inLoop = false) :
    (σ.session t).received = (wire.parse (delivered t acts)).1 := by
  cases streamed_of_run run existing with
  | underway parse taken => rw [parse, wire.parse_more (taken (stage_ne_working rests)), List.append_nil]
  | ended parse _ _ _ => rw [parse]

/-- A session that waits without a read will never read again. -/
theorem delivered_of_ended {σ' : World} {more : List Act} (existing : t < σ.nextPtr)
    (waits : (σ.session t).phase.stage = .waiting) (reads : (σ.session t).reads = 0)
    (run : exec (step env) σ more = some σ') : delivered t more = [] := by
  refine (history_invariant (H := fun more σ' => t < σ'.nextPtr ∧ (σ'.session t).phase.stage = .waiting ∧
    (σ'.session t).reads = 0 ∧ delivered t more = []) ⟨existing, waits, reads, rfl⟩ ?_ run).2.2.2
  intro more σ a σ' _ ⟨hexisting, hwaits, hreads, hnone⟩ hs
  have hother : ∀ data, a ≠ .on t (.readData data) := by
    rintro data rfl
    exact reads_of_readData hs hreads
  refine ⟨Nat.lt_of_lt_of_le hexisting (nextPtr_le_of_step hs), ?_⟩
  rw [delivered_concat, hnone, delivered_of_other hother]
  cases step_readMove hs hexisting with
  | keep kept stage => exact ⟨stage.trans hwaits, Nat.le_zero.mp (hreads ▸ kept.reads), rfl⟩
  | ask asked before => exact absurd hwaits before
  | get data act => exact absurd act (hother data)
  | fail aborted act fewer => omega
  | quit kept at_ =>
    rw [at_] at hwaits
    cases hwaits

/-- The packets that a session has taken are frames of the bytes read so far, in order. When its handler
is not at work they are all of them and the buffer holds the rest, or the stream has come to an invalid
length, and the session is closed and reads no more. -/
theorem session_reads_its_stream (env : Env) (shardCount : Nat) (acts : List Act) (σ : World)
    (run : exec (step env) (World.init shardCount) acts = some σ) (t : SessionPtr)
    (existing : t < σ.nextPtr) :
    (σ.session t).received <+: (wire.parse (delivered t acts)).1 ∧
    ((σ.session t).phase.inLoop = false → (σ.session t).received = (wire.parse (delivered t acts)).1 ∧
      match (wire.parse (delivered t acts)).2 with
      | some rest => (σ.session t).msgBufMgr.buffer = rest
      | none => (σ.session t).closed = true ∧
          ∀ more σ', exec (step env) σ more = some σ' → delivered t more = []) := by
  have hstreamed := streamed_of_run run existing
  refine ⟨hstreamed.received_front, fun hout => ⟨received_of_rest run existing hout, ?_⟩⟩
  cases hstreamed with
  | underway parse taken =>
    rw [parse, wire.parse_more (taken (stage_ne_working hout))]
  | ended parse waits reads closed =>
    rw [parse]
    exact ⟨closed, fun more σ' => delivered_of_ended existing waits reads⟩

/-- A login arrives in two pieces, and the second one ends with the header of an empty frame. -/
theorem session_reads_its_stream_cut :
    let frame := MessageBufferManager.frame .little (loginText "a").1
    let acts := connects 0 ++ [.on 0 (.readData (frame.take 7)), .on 0 .advance, .on 0 .advance,
      .on 0 (.readData (frame.drop 7 ++ [0, 0, 0, 0]))] ++ List.replicate 7 (.on 0 .advance)
    ∃ σ, exec (step (.ofTable [] [loginText "a"])) (World.init 4) acts = some σ ∧
      (σ.session 0).acked = ["a"] ∧ (σ.session 0).received = (wire.parse (delivered 0 acts)).1 := by
  intro frame acts
  have hrun : (exec (step (.ofTable [] [loginText "a"])) (World.init 4) acts).map
      (fun σ => (σ.nextPtr, (σ.session 0).acked, (σ.session 0).phase)) = some (1, ["a"], .idle) := by
    decide +kernel
  obtain ⟨σ, run, hview⟩ := Option.map_eq_some_iff.mp hrun
  simp only [Prod.mk.injEq] at hview
  obtain ⟨hnext, hacked, hphase⟩ := hview
  have hstream := session_reads_its_stream _ 4 acts σ run 0 (by rw [hnext]; decide)
  exact ⟨σ, run, hacked, (hstream.2 (by rw [hphase]; rfl)).1⟩

end Run

end DBMiddleWare
