import DBMiddleWare.Speech

/-!
# What the client of a session reads

Of the frames that a session has started, those of the completed writes have arrived at its
client and the last one perhaps in part. Whatever has arrived decodes to texts that the
session has posted, in the order of its posts.
-/

namespace DBMiddleWare

open Execution
set_option autoImplicit false

namespace WriteQueue

/-- What has been started has been sent, but for one message that is on its way or has failed. As long
as nothing has been dropped, what has been posted has been sent or waits. -/
structure Transmits (current : List Message) (w : SessionWriter) : Prop where
  started : w.started = w.sent ++ current
  single : current.length ≤ 1
  pending : w.asyncWrites ≠ [] → w.asyncWrites.map PendingWrite.msg = current
  busy : current ≠ [] → w.writeQueue ≠ []
  front : w.dropped = [] → current <+: w.writeQueue
  conserved : w.dropped = [] → w.posted = w.sent ++ w.writeQueue

section Transmits
variable {cfg : Config} {o o' : Session} {current : List Message}

theorem transmits_doWriteQueue (h : Transmits [] o.toSessionWriter) (idle : o.asyncWrites = []) :
    ∃ current, Transmits current o.doWriteQueue.toSessionWriter := by
  rcases doWriteQueue_cases o with he | ⟨_, he⟩ | ⟨m, rest, hq, he⟩
  · rw [he]
    exact ⟨[], h⟩
  · rw [he]
    exact ⟨[], h.started, h.single, h.pending, h.busy, h.front, h.conserved⟩
  · rw [he]
    refine ⟨[m], ?_, Nat.le_refl 1, fun _ => ?_, fun _ => ?_, fun _ => ?_, h.conserved⟩
    · change o.started ++ [m] = o.sent ++ [m]
      rw [h.started, List.append_nil]
    · change (o.asyncWrites ++ [PendingWrite.mk m o.generation]).map PendingWrite.msg = [m]
      rw [idle]
      rfl
    · change o.writeQueue ≠ []
      simp [hq]
    · change [m] <+: o.writeQueue
      rw [hq]
      exact List.prefix_append [m] rest

/-- A full queue has a message behind its front, so it does not run empty. -/
theorem transmits_queued (hmax : 2 ≤ cfg.maxWriteQueueSize) (h : Transmits current o.toSessionWriter)
    (text : Bytes) : Transmits current (queued cfg text o).toSessionWriter := by
  unfold queued
  rcases enqueueWrite_cases cfg (o.newMessage text)
    { o with posted := o.posted ++ [o.newMessage text] } with ⟨_, he⟩ | ⟨hfull, _, he⟩ | ⟨hfull, _, he⟩
  · rw [he]
    refine ⟨h.started, h.single, h.pending, fun _ => ?_, fun hnone => ?_, fun hnone => ?_⟩
    · simp [Session.push]
    · exact (h.front hnone).trans (List.prefix_append _ _)
    · change o.posted ++ [_] = o.sent ++ (o.writeQueue ++ [_])
      rw [h.conserved hnone, List.append_assoc]
  all_goals
    change cfg.maxWriteQueueSize ≤ o.writeQueue.length at hfull
    obtain ⟨m, queue, hqueue⟩ : ∃ m queue, o.writeQueue = m :: queue :=
      List.exists_cons_of_length_pos (by omega)
    obtain ⟨x, rest, hrest⟩ : ∃ x rest, queue = x :: rest :=
      List.exists_cons_of_length_pos (by rw [hqueue, List.length_cons] at hfull; omega)
    have hq : o.writeQueue = m :: x :: rest := by rw [hqueue, hrest]
    have hlost : ∀ {P : Prop}, o.dropped ++ o.writeQueue.head?.toList = [] → P := by
      intro P hnone
      rw [hq] at hnone
      simp at hnone
    rw [he]
  · exact ⟨h.started, h.single, h.pending, fun _ => by simp [Session.dropFront, Session.pop, hq],
      hlost, hlost⟩
  · exact ⟨h.started, h.single, h.pending, fun _ => by simp [Session.push], hlost, hlost⟩

theorem transmits_postWrite (hmax : 2 ≤ cfg.maxWriteQueueSize) (inv : WriterInv cfg o.toSessionWriter)
    (h : Transmits current o.toSessionWriter) (text : Bytes) :
    ∃ current, Transmits current (o.postWrite cfg text).toSessionWriter := by
  have hqueued := transmits_queued hmax h text
  rcases postWrite_cases cfg text o with ⟨hq, he⟩ | ⟨_, he⟩
  · have hnone : current = [] := by
      by_contra hbusy
      exact h.busy hbusy hq
    have hidle : o.asyncWrites = [] := by
      by_contra hbusy
      exact inv.busy hbusy hq
    obtain ⟨_, hasync, _⟩ := queued_of_idle (Nat.lt_of_lt_of_le Nat.zero_lt_two hmax) hq text
    rw [he]
    subst hnone
    exact transmits_doWriteQueue (o := { queued cfg text o with writeInProgress := true })
      ⟨hqueued.started, hqueued.single, hqueued.pending, hqueued.busy, hqueued.front, hqueued.conserved⟩
      (hasync.trans hidle)
  · exact ⟨current, he ▸ hqueued⟩

theorem transmits_onWrite (inv : WriterInv cfg o.toSessionWriter)
    (h : Transmits current o.toSessionWriter) {k : Nat} {w : PendingWrite}
    (hk : o.asyncWrites[k]? = some w) (ec : Bool) :
    ∃ current, Transmits current (onWrite w ec (o.takeWrite k)).toSessionWriter := by
  obtain ⟨hw, hnone⟩ := takeWrite_of_single inv.single hk
  have hcurrent : current = [w.msg] := by
    rw [← h.pending (by simp [hw]), hw]
    rfl
  have htaken : Transmits current (o.takeWrite k).toSessionWriter :=
    ⟨h.started, h.single, fun hbusy => absurd hnone hbusy, h.busy, h.front, h.conserved⟩
  unfold onWrite
  split
  · exact ⟨current, htaken⟩
  · split
    · exact ⟨current, htaken⟩
    · refine transmits_doWriteQueue (o := { o.takeWrite k with sent := o.sent ++ [w.msg] }.pop) ?_ hnone
      subst hcurrent
      refine ⟨?_, Nat.zero_le 1, fun hbusy => absurd hnone hbusy, fun hne => absurd rfl hne,
        fun _ => List.nil_prefix, fun hdropped => ?_⟩
      · change o.started = (o.sent ++ [w.msg]) ++ []
        rw [h.started, List.append_nil]
      · obtain ⟨rest, hrest⟩ := h.front hdropped
        change o.posted = (o.sent ++ [w.msg]) ++ o.writeQueue.tail
        rw [h.conserved hdropped, ← hrest, List.append_assoc]
        rfl

theorem transmits_step (hmax : 2 ≤ cfg.maxWriteQueueSize) {a : Act}
    (inv : WriterInv cfg o.toSessionWriter) (h : Transmits current o.toSessionWriter)
    (hstep : step cfg o a = some o') :
    ∃ current, Transmits current o'.toSessionWriter := by
  cases a with
  | post text => exact Option.some.inj hstep ▸ transmits_postWrite hmax inv h text
  | complete k ec =>
    obtain ⟨w, hk, rfl⟩ := Option.map_eq_some_iff.mp hstep
    exact transmits_onWrite inv h hk ec
  | close =>
    rw [← Option.some.inj hstep, shut_toSessionWriter]
    exact ⟨current, h⟩
  | setState state => exact Option.some.inj hstep ▸ ⟨current, h⟩

end Transmits

theorem transmits_fresh : Transmits [] {} :=
  ⟨rfl, Nat.zero_le 1, fun h => absurd rfl h, fun h => absurd rfl h, fun _ => List.nil_prefix,
    fun _ => rfl⟩

end WriteQueue

open WriteQueue

/-- The frames of messages, one after the other, as `do_write_queue` builds them. -/
def frames (env : Env) (msgs : List Message) : Bytes :=
  msgs.flatMap fun m => MessageBufferManager.frame env.host m.text

/-- What has arrived at the client: the frames of the completed writes, and perhaps a part of the frame
that was started after them. The buffers of `async_write` are taken to hold their bytes until it has
completed. The code does not see to that: the length stands on the stack of `do_write_queue`, and the
overflow of the queue frees the text of a write under way. -/
def Arrived (env : Env) (o : Session) (bytes : Bytes) : Prop :=
  frames env o.sent <+: bytes ∧ bytes <+: frames env o.started

section Run
variable {env : Env} {shardCount : Nat} {acts : List Act} {σ : World} {t : SessionPtr} {bytes : Bytes}

theorem frames_eq_encodeAll (env : Env) (msgs : List Message) :
    frames env msgs = wire.encodeAll (msgs.map Message.text) := by
  rw [← flatMap_frame env.host, List.flatMap_map]
  rfl

theorem transmits_of_run (room : 2 ≤ env.config.maxWriteQueueSize)
    (run : exec (step env) (World.init shardCount) acts = some σ) (t : SessionPtr) :
    ∃ current, Transmits current (σ.session t).toSessionWriter := by
  obtain ⟨wacts, p, wrun, hp⟩ := writersReachable_of_run run t
  rw [(writePath_eq_iff.mp hp).1]
  refine (invariant (I := fun o : Session => WriterInv env.config o.toSessionWriter ∧
    ∃ current, Transmits current o.toSessionWriter) ?_ ⟨inv_fresh env.config, [], transmits_fresh⟩
      wrun).2
  rintro o a o' ⟨hinv, current, h⟩ hs
  exact ⟨inv_step room hinv hs, transmits_step room hinv h hs⟩

theorem valid_of_answer {text : Bytes} (h : text ∈ answerTexts) : Wire.validLength text.length := by
  have hall : ∀ text ∈ answerTexts, Wire.validLength text.length := by decide
  exact hall text h

theorem valid_of_posted (run : exec (step env) (World.init shardCount) acts = some σ)
    (existing : t < σ.nextPtr)
    (outside : ∀ text, .on t (.postWrite text) ∈ acts → Wire.validLength text.length) {m : Message}
    (hm : m ∈ (σ.session t).posted) : Wire.validLength m.text.length := by
  rcases (speaks_of_run run existing).posted m hm with hanswer | hnotice | hout
  · exact valid_of_answer hanswer
  · rw [hnotice]
    decide
  · exact outside _ hout

/-- The frames of an arrival are those of messages that have been started. -/
theorem parse_arrived (room : 2 ≤ env.config.maxWriteQueueSize)
    (run : exec (step env) (World.init shardCount) acts = some σ) (existing : t < σ.nextPtr)
    (outside : ∀ text, .on t (.postWrite text) ∈ acts → Wire.validLength text.length)
    (arrived : Arrived env (σ.session t) bytes) :
    ∃ texts rest, wire.parse bytes = (texts, some rest) ∧ (σ.session t).sent.map Message.text <+: texts ∧
      texts <+: (σ.session t).started.map Message.text := by
  obtain ⟨current, h⟩ := transmits_of_run room run t
  have hsublist := (writerInv_of_run room run t).ordered.started_sublist
  have hvalid : ∀ text ∈ (σ.session t).started.map Message.text, wire.valid text := by
    intro text htext
    obtain ⟨m, hm, rfl⟩ := List.mem_map.mp htext
    exact valid_of_posted run existing outside (hsublist.subset hm)
  have hwhole : (σ.session t).sent.map Message.text <+: (σ.session t).started.map Message.text := by
    rw [h.started, List.map_append]
    exact List.prefix_append _ _
  obtain ⟨hleast, hmost⟩ := arrived
  rw [frames_eq_encodeAll] at hleast hmost
  exact wire.parse_between rfl hvalid hleast hmost hwhole

theorem started_prefix_posted (room : 2 ≤ env.config.maxWriteQueueSize)
    (run : exec (step env) (World.init shardCount) acts = some σ) (kept : (σ.session t).dropped = []) :
    (σ.session t).started <+: (σ.session t).posted := by
  obtain ⟨current, h⟩ := transmits_of_run room run t
  rw [h.conserved kept, h.started]
  exact (List.prefix_append_right_inj _).mpr (h.front kept)

/-- In every run, whatever has arrived at the client of a session decodes without an error to texts
that the session has posted, in the order of its posts, and to all of them up to some point as long
as the queue has dropped none. -/
theorem client_decodes_posts (env : Env) (room : 2 ≤ env.config.maxWriteQueueSize) (shardCount : Nat)
    (acts : List Act) (σ : World) (run : exec (step env) (World.init shardCount) acts = some σ)
    (t : SessionPtr) (existing : t < σ.nextPtr)
    (outside : ∀ text, .on t (.postWrite text) ∈ acts → Wire.validLength text.length)
    (bytes : Bytes) (arrived : Arrived env (σ.session t) bytes) :
    ∃ texts rest, wire.parse bytes = (texts, some rest) ∧
      (σ.session t).sent.map Message.text <+: texts ∧
      texts.Sublist ((σ.session t).posted.map Message.text) ∧
      ((σ.session t).dropped = [] → texts <+: (σ.session t).posted.map Message.text) := by
  obtain ⟨texts, rest, hparse, hsent, hstarted⟩ := parse_arrived room run existing outside arrived
  have hsublist := (writerInv_of_run room run t).ordered.started_sublist
  refine ⟨texts, rest, hparse, hsent, hstarted.sublist.trans (hsublist.map _), fun kept => ?_⟩
  exact hstarted.trans ((started_prefix_posted room run kept).map _)

/-- The acknowledgement of a login arrives with the first bytes of the answer to the next packet. -/
theorem client_decodes_posts_login :
    let env := Env.ofTable [] [loginText "a"]
    let acts := connects 0 ++ sends 0 [(loginText "a").1, (loginText "a").1] 11 ++
      [.on 0 (.writeDone 0 false)]
    let bytes := frames env [⟨0, loginOk⟩] ++ [0, 0]
    ∃ σ texts rest, exec (step env) (World.init 4) acts = some σ ∧
      wire.parse bytes = (texts, some rest) ∧
      [loginOk] <+: texts ∧ texts <+: [loginOk, nicknameInUse] := by
  intro env acts bytes
  have hrun : (exec (step env) (World.init 4) acts).map (fun σ => (σ.nextPtr, (σ.session 0).sent,
      (σ.session 0).started, (σ.session 0).posted, (σ.session 0).dropped)) =
      some (1, [⟨0, loginOk⟩], [⟨0, loginOk⟩, ⟨1, nicknameInUse⟩],
        [⟨0, loginOk⟩, ⟨1, nicknameInUse⟩], []) := by
    decide +kernel
  obtain ⟨σ, run, hview⟩ := Option.map_eq_some_iff.mp hrun
  simp only [Prod.mk.injEq] at hview
  obtain ⟨hnext, hsent, hstarted, hposted, hdropped⟩ := hview
  have harrived : Arrived env (σ.session 0) bytes := by
    unfold Arrived
    rw [hsent, hstarted]
    decide +kernel
  obtain ⟨texts, rest, hparse, hwhole, _, hprefix⟩ := client_decodes_posts env (by decide) 4 acts σ run 0
    (by rw [hnext]; decide) (by simp [acts, connects, sends]) bytes harrived
  have hall := hprefix hdropped
  rw [hsent] at hwhole
  rw [hposted] at hall
  exact ⟨σ, texts, rest, run, hparse, hwhole, hall⟩

end Run

end DBMiddleWare
