import DBMiddleWare.ReadLoop

/-!
# The drain loop ends and the buffer is bounded

Every message that `extract_message` returns shortens the buffer by five bytes at least,
and what it leaves when it returns none is shorter than one frame. A peer that never
completes a frame cannot make the buffer grow beyond one frame and one read.
-/

namespace DBMiddleWare

open ByteOrder Execution MessageBufferManager
set_option autoImplicit false

/-- The bytes are the beginning of a frame: less than a header, or a header with a valid length
and less than that many bytes. -/
def Incomplete (host : Endian) (b : Bytes) : Prop :=
  b.length < 4 ∨ (1 ≤ (header host b).toNat ∧ (header host b).toNat ≤ 4096 ∧
    b.length < 4 + (header host b).toNat)

section Extract
variable {host : Endian} {b b' : MessageBufferManager} {m : Bytes}

theorem Incomplete.length_le {b : Bytes} (h : Incomplete host b) : b.length ≤ 4099 := by
  rcases h with h | ⟨_, h, h'⟩
  · omega
  · omega

theorem extract_some_length (h : extractMessage host b = (some m, b')) :
    b'.buffer.length + 5 ≤ b.buffer.length := by
  obtain ⟨hvalid, hbuffer⟩ := Wire.of_look (extractMessage_some h).1
  have hpos : 1 ≤ m.length := hvalid.1
  rw [hbuffer, Wire.encode]
  simp only [List.length_append, network_length]
  omega

theorem extract_none_incomplete (h : extractMessage host b = (none, b')) :
    Incomplete host b'.buffer ∧ b'.buffer.length ≤ b.buffer.length := by
  unfold extractMessage at h
  dsimp only at h
  split at h
  · rename_i hshort
    rw [← (Prod.mk.inj h).2]
    exact ⟨Or.inl hshort, Nat.le_refl _⟩
  · split at h
    · rw [← (Prod.mk.inj h).2]
      exact ⟨Or.inl (by decide), Nat.zero_le _⟩
    · rename_i hheader
      rw [not_or, ← UInt32.toNat_inj, UInt32.lt_iff_toNat_lt] at hheader
      have hvalid : Wire.validLength (header host b.buffer).toNat := by
        obtain ⟨hzero, hmax⟩ := hheader
        change ¬ _ = 0 at hzero
        change ¬ 4096 < _ at hmax
        exact ⟨by omega, by omega⟩
      split at h
      · rename_i hbody
        rw [four_add_toNat _ hvalid] at hbody
        rw [← (Prod.mk.inj h).2]
        exact ⟨Or.inr ⟨hvalid.1, hvalid.2, hbody⟩, Nat.le_refl _⟩
      · cases (Prod.mk.inj h).1

end Extract

section Loop
variable {τ ε : Type}

/-- The drain loop of `do_read`: `dispatch` may change what it wants outside the buffer and may
throw, `caught` is the catch block. The last component counts the calls of `extract_message`. -/
def drainWith (host : Endian) (dispatch : τ → Bytes → τ × Option ε) (caught : τ → ε → τ)
    (b : MessageBufferManager) (x : τ) : τ × MessageBufferManager × Nat :=
  match _h : extractMessage host b with
  | (none, b') => (x, b', 1)
  | (some m, b') =>
    let x := match dispatch x m with
      | (x, none) => x
      | (x, some e) => caught x e
    let (x, b', calls) := drainWith host dispatch caught b' x
    (x, b', calls + 1)
termination_by b.buffer.length
decreasing_by exact extractMessage_shrinks _h

/-- Whatever the handlers do, the loop takes the messages of `drain` and one more call to end. -/
theorem drainWith_eq (host : Endian) (dispatch : τ → Bytes → τ × Option ε) (caught : τ → ε → τ)
    (b : MessageBufferManager) (x : τ) :
    (drainWith host dispatch caught b x).2 = ((drain host b).2, (drain host b).1.length + 1) := by
  induction b using drain.induct host generalizing x with
  | case1 b m b' h ih =>
    rw [drainWith, drain_some h]
    split
    · simp_all
    · rename_i m' b'' heq
      obtain ⟨rfl, rfl⟩ : _ ∧ _ := by simpa [h] using heq
      simp only [ih, List.length_cons]
  | case2 b b' h =>
    rw [drainWith, drain_none h]
    split
    · simp_all
    · simp_all

theorem drain_length (host : Endian) (b : MessageBufferManager) :
    5 * (drain host b).1.length + (drain host b).2.buffer.length ≤ b.buffer.length := by
  induction b using drain.induct host with
  | case1 b m b' h ih =>
    have hlength := extract_some_length h
    rw [drain_some h]
    dsimp only [List.length_cons]
    omega
  | case2 b b' h =>
    rw [drain_none h]
    exact Nat.le_trans (Nat.le_of_eq (Nat.zero_add _)) (extract_none_incomplete h).2

theorem drain_incomplete (host : Endian) (b : MessageBufferManager) :
    Incomplete host (drain host b).2.buffer := by
  induction b using drain.induct host with
  | case1 b m b' h ih =>
    rw [drain_some h]
    exact ih
  | case2 b b' h =>
    rw [drain_none h]
    exact (extract_none_incomplete h).1

end Loop

theorem Route.phase_inLoop (env : Env) (r : Route) : (r.phase env).inLoop = true := by
  rcases r.phase_answering env with rfl | hanswering
  · rfl
  · by_contra hout
    have hrest := (inLoop_eq_false_iff.mp (Bool.eq_false_iff.mpr hout)).2
    rw [hanswering] at hrest
    cases hrest

structure BufferBounded (env : Env) (o : Session) : Prop where
  filled : o.msgBufMgr.buffer.length ≤ 6147
  outside : o.phase.inLoop = false → Incomplete env.host o.msgBufMgr.buffer

/-- The calls of `extract_message` that the handler of a session makes in a run. -/
def extractCalls (env : Env) (t : SessionPtr) : World → List Act → Nat
  | _, [] => 0
  | σ, a :: acts =>
    (if a = .on t .advance ∧ (σ.session t).phase = .drain then 1 else 0) +
      match step env σ a with
      | none => 0
      | some τ => extractCalls env t τ acts

/-- What is left to take from the buffer, counted in bytes: five more for the call that ends the
loop. -/
def Session.potential (o : Session) : Nat :=
  (if o.phase.inLoop then 5 else 0) + o.msgBufMgr.buffer.length

section Step
variable {env : Env} {σ σ' : World} {t : SessionPtr} {a : Act} {o o' : Session}

theorem BufferBounded.move (h : BufferBounded env o) (move : LoopMove env t a o o')
    (size : ∀ data, a = .on t (.readData data) → data.length ≤ 2048) : BufferBounded env o' := by
  cases move with
  | keep _ intake stays =>
    obtain ⟨hbuffer, _⟩ := Prod.mk.inj intake
    constructor
    · rw [hbuffer]
      exact h.filled
    · rw [hbuffer, stays]
      exact h.outside
  | read data act free loop =>
    obtain ⟨hphase, hbuffer, _⟩ := loop_eq_iff.mp loop
    have hsize := size data act
    have hrest := (h.outside (inLoop_of_strandFree free)).length_le
    constructor
    · rw [hbuffer, append, List.length_append]
      omega
    · intro hout
      rw [hphase] at hout
      cases hout
  | take packet mgr act at_ extract loop =>
    obtain ⟨hphase, hbuffer, _⟩ := loop_eq_iff.mp loop
    have hlength := extract_some_length extract
    constructor
    · rw [hbuffer]
      have := h.filled
      omega
    · intro hout
      rw [hphase, Route.phase_inLoop] at hout
      cases hout
  | leave mgr act at_ extract intake left =>
    obtain ⟨hbuffer, _⟩ := Prod.mk.inj intake
    obtain ⟨hincomplete, hlength⟩ := extract_none_incomplete extract
    rw [← hbuffer] at hincomplete hlength
    exact ⟨Nat.le_trans hlength h.filled, fun _ => hincomplete⟩

theorem readData_size {data : Bytes} (h : step env σ (.on t (.readData data)) = some σ') :
    data.length ≤ 2048 := by
  simp only [step, World.event, Option.ite_none_right_eq_some] at h
  exact h.2.1.2.2

theorem bufferBounded_of_run {shardCount : Nat} {acts : List Act}
    (run : exec (step env) (World.init shardCount) acts = some σ) (t : SessionPtr) :
    BufferBounded env (σ.session t) := by
  have hinit : BufferBounded env ((World.init shardCount).session t) :=
    ⟨Nat.zero_le _, fun _ => Or.inl (Nat.zero_lt_succ 3)⟩
  refine invariant (I := fun σ : World => BufferBounded env (σ.session t))
    (fun σ a σ' h hs => ?_) hinit run
  rcases step_cases_move hs t with ⟨now, _, _, hnew⟩ | hmove
  · obtain ⟨_, hbuffer, _⟩ := loop_eq_iff.mp hnew
    constructor
    · rw [hbuffer]
      exact Nat.zero_le _
    · rw [hbuffer]
      exact fun _ => Or.inl (Nat.zero_lt_succ 3)
  · exact h.move hmove fun data hdata => readData_size (hdata ▸ hs)

/-- Without a new read, every call of `extract_message` uses up five bytes of what is left. -/
theorem LoopMove.potential_le (move : LoopMove env t a o o')
    (noread : ∀ data, a ≠ .on t (.readData data)) :
    5 * (if a = .on t .advance ∧ o.phase = .drain then 1 else 0) + o'.potential ≤ o.potential ∧
    5 * o'.received.length + o'.msgBufMgr.buffer.length ≤
      5 * o.received.length + o.msgBufMgr.buffer.length := by
  cases move with
  | keep other intake stays =>
    obtain ⟨hbuffer, hreceived, _⟩ : _ ∧ _ ∧ _ := by simpa [Session.intake] using intake
    have hquiet : ¬ (a = .on t .advance ∧ o.phase = .drain) := fun h => other h.1 h.2
    rw [if_neg hquiet, Session.potential, Session.potential, hbuffer, hreceived, stays]
    exact ⟨by omega, Nat.le_refl _⟩
  | read data act _ _ => exact absurd act (noread data)
  | take packet mgr act at_ extract loop =>
    obtain ⟨hphase, hbuffer, hreceived, _⟩ := loop_eq_iff.mp loop
    have hlength := extract_some_length extract
    rw [if_pos ⟨act, at_⟩, Session.potential, Session.potential, hbuffer, hreceived, hphase, at_,
      Route.phase_inLoop, List.length_append, List.length_singleton]
    simp only [Phase.inLoop]
    omega
  | leave mgr act at_ extract intake left =>
    obtain ⟨hbuffer, hreceived, _⟩ : _ ∧ _ ∧ _ := by simpa [Session.intake] using intake
    have hlength := (extract_none_incomplete extract).2
    rw [if_pos ⟨act, at_⟩, Session.potential, Session.potential, hbuffer, hreceived, left, at_]
    simp only [Phase.inLoop, Bool.false_eq_true, if_true, if_false]
    omega

theorem extractCalls_le {more : List Act} (existing : t < σ.nextPtr)
    (run : exec (step env) σ more = some σ') (noread : ∀ data, .on t (.readData data) ∉ more) :
    5 * extractCalls env t σ more + (σ'.session t).potential ≤ (σ.session t).potential ∧
    5 * (σ'.session t).received.length + (σ'.session t).msgBufMgr.buffer.length ≤
      5 * (σ.session t).received.length + (σ.session t).msgBufMgr.buffer.length := by
  induction more generalizing σ with
  | nil =>
    rw [exec_nil, Option.some.injEq] at run
    rw [← run]
    exact ⟨Nat.le_of_eq (Nat.zero_add _), Nat.le_refl _⟩
  | cons a more ih =>
    obtain ⟨τ, hτ, hrest⟩ := exec_cons_eq_some.mp run
    have hexisting : t < τ.nextPtr := Nat.lt_of_lt_of_le existing (nextPtr_le_of_step hτ)
    obtain ⟨hcalls, htaken⟩ :=
      ih hexisting hrest fun data hmem => noread data (List.mem_cons_of_mem a hmem)
    obtain ⟨hcall, htake⟩ := (step_move hτ existing).potential_le fun data heq =>
      noread data (heq ▸ List.mem_cons_self)
    rw [extractCalls, hτ]
    dsimp only
    omega

end Step

/-- Every call of `extract_message` that returns a message removes five bytes at least. Around any
handler the drain loop ends after one call for each fifth byte and one more, and leaves the beginning
of a frame. In the server, whatever its handlers and threads do, a buffer holds at most 6147 bytes,
outside the loop the beginning of a frame, and a read is followed by so many calls at most. -/
theorem drain_loop_bounded :
    (∀ (host : Endian) (b b' : MessageBufferManager) (m : Bytes),
      extractMessage host b = (some m, b') → b'.buffer.length + 5 ≤ b.buffer.length) ∧
    (∀ (τ ε : Type) (host : Endian) (dispatch : τ → Bytes → τ × Option ε) (caught : τ → ε → τ)
      (b : MessageBufferManager) (x : τ),
      5 * ((drainWith host dispatch caught b x).2.2 - 1) ≤ b.buffer.length ∧
      Incomplete host (drainWith host dispatch caught b x).2.1.buffer ∧
      (drainWith host dispatch caught b x).2.1.buffer.length ≤ 4099) ∧
    ∀ (env : Env) (shardCount : Nat) (acts : List Act) (σ : World),
      exec (step env) (World.init shardCount) acts = some σ → ∀ t : SessionPtr,
        (σ.session t).msgBufMgr.buffer.length ≤ 6147 ∧
        ((σ.session t).phase.inLoop = false → Incomplete env.host (σ.session t).msgBufMgr.buffer ∧
          (σ.session t).msgBufMgr.buffer.length ≤ 4099) ∧
        ∀ (data : Bytes) (σ₁ : World) (more : List Act) (σ₂ : World),
          step env σ (.on t (.readData data)) = some σ₁ → exec (step env) σ₁ more = some σ₂ →
          (∀ data', .on t (.readData data') ∉ more) →
            5 * (extractCalls env t σ₁ more - 1) ≤ (σ₁.session t).msgBufMgr.buffer.length ∧
            5 * ((σ₂.session t).received.length - (σ₁.session t).received.length) ≤
              (σ₁.session t).msgBufMgr.buffer.length := by
  refine ⟨fun _ _ _ _ => extract_some_length, fun τ ε host dispatch caught b x => ?_,
    fun env shardCount acts σ run t => ?_⟩
  · have hrest := drain_incomplete host b
    have hlength := drain_length host b
    rw [drainWith_eq]
    exact ⟨by dsimp only; omega, hrest, hrest.length_le⟩
  · have hbounded := bufferBounded_of_run run t
    refine ⟨hbounded.filled, fun hout => ⟨hbounded.outside hout, (hbounded.outside hout).length_le⟩,
      fun data σ₁ more σ₂ hread hmore noread => ?_⟩
    have hlive : σ.live t = true := by
      simp only [step, Option.ite_none_right_eq_some] at hread
      exact hread.1
    have hexisting : t < σ₁.nextPtr :=
      Nat.lt_of_lt_of_le ((known_of_run run).live t hlive) (nextPtr_le_of_step hread)
    obtain ⟨hcalls, htaken⟩ := extractCalls_le hexisting hmore noread
    have hpotential : (σ₁.session t).potential ≤ 5 + (σ₁.session t).msgBufMgr.buffer.length := by
      unfold Session.potential
      split
      · exact Nat.le_refl _
      · omega
    exact ⟨by omega, by omega⟩

/-- A client announces nine bytes and sends one. -/
theorem drain_loop_bounded_half_frame :
    ∃ σ σ₁ σ₂, exec (step (Env.ofTable [] [])) (World.init 4) (connects 0) = some σ ∧
      step (Env.ofTable [] []) σ (.on 0 (.readData [0, 0, 0, 9, 1])) = some σ₁ ∧
      exec (step (Env.ofTable [] [])) σ₁ [.on 0 .advance] = some σ₂ ∧
      (σ₂.session 0).msgBufMgr.buffer.length ≤ 4099 ∧
      5 * (extractCalls (Env.ofTable [] []) 0 σ₁ [.on 0 .advance] - 1) ≤
        (σ₁.session 0).msgBufMgr.buffer.length := by
  obtain ⟨σ, run⟩ : ∃ σ, exec (step (Env.ofTable [] [])) (World.init 4) (connects 0) = some σ := ⟨_, rfl⟩
  obtain ⟨σ₁, σ₂, hread, hmore, hleft⟩ : ∃ σ₁ σ₂,
      step (Env.ofTable [] []) σ (.on 0 (.readData [0, 0, 0, 9, 1])) = some σ₁ ∧
      exec (step (Env.ofTable [] [])) σ₁ [.on 0 .advance] = some σ₂ ∧ (σ₂.session 0).phase.inLoop =
      false := by
    cases run
    exact ⟨_, _, rfl, rfl, rfl⟩
  have hall := drain_loop_bounded.2.2 (Env.ofTable [] []) 4
  have run₂ : exec (step (Env.ofTable [] [])) (World.init 4)
      (connects 0 ++ .on 0 (.readData [0, 0, 0, 9, 1]) :: [.on 0 .advance]) = some σ₂ :=
    exec_append_eq_some.mpr ⟨σ, run, exec_cons_eq_some.mpr ⟨σ₁, hread, hmore⟩⟩
  refine ⟨σ, σ₁, σ₂, run, hread, hmore, ((hall _ σ₂ run₂ 0).2.1 hleft).2, ?_⟩
  exact ((hall _ σ run 0).2.2 _ σ₁ _ σ₂ hread hmore (by simp)).1

end DBMiddleWare
