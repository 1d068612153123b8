import DBMiddleWare.MessageBufferManager

/-!
# The receive path on a byte stream

The drain loop of `do_read` over the chunks that successive reads deliver computes
the reference parser of the wire format on the concatenated stream, however it is
cut; and the decoder inverts the frames of `do_write_queue`.
-/

namespace DBMiddleWare

open ByteOrder IncrementalDecoder MessageBufferManager
set_option autoImplicit false

theorem extractMessage_shrinks {host : Endian} {b b' : MessageBufferManager} {m : Bytes}
    (h : extractMessage host b = (some m, b')) : b'.buffer.length < b.buffer.length :=
  wire.shrinks (extractMessage_some h).1

/-- `while (auto opt_msg = get_msg_buffer().extract_message())`: the messages taken and
the buffer at the first `nullopt`. -/
def drain (host : Endian) (b : MessageBufferManager) : List Bytes × MessageBufferManager :=
  match _h : extractMessage host b with
  | (some m, b') => (m :: (drain host b').1, (drain host b').2)
  | (none, b') => ([], b')
termination_by b.buffer.length
decreasing_by all_goals exact extractMessage_shrinks _h

theorem drain_some {host : Endian} {b b' : MessageBufferManager} {m : Bytes}
    (h : extractMessage host b = (some m, b')) :
    drain host b = (m :: (drain host b').1, (drain host b').2) := by
  rw [drain]
  split <;> simp_all

theorem drain_none {host : Endian} {b b' : MessageBufferManager}
    (h : extractMessage host b = (none, b')) : drain host b = ([], b') := by
  rw [drain]
  split <;> simp_all

/-- The buffer the drain loop leaves for a given leftover of the reference parser. -/
def leftover : Option Bytes → MessageBufferManager
  | some rest => ⟨rest, false⟩
  | none => ⟨[], true⟩

theorem drain_eq_parse (host : Endian) (b : MessageBufferManager) :
    drain host b = ((wire.parse b.buffer).1, leftover (wire.parse b.buffer).2) := by
  obtain ⟨buf, flag⟩ := b
  induction buf using wire.items_induction generalizing flag with
  | more buf h =>
    rw [wire.parse_more h]
    exact drain_none (extractMessage_of_more h)
  | bad buf h =>
    rw [wire.parse_bad h]
    exact drain_none (extractMessage_of_bad h)
  | item buf m rest h ih =>
    rw [wire.parse_item h, drain_some (extractMessage_of_item h), ih false]

/-- The messages of a stream, the buffer at the end, and whether the read loop stopped
because of an invalid length. -/
structure Received where
  messages : List Bytes
  buffer : MessageBufferManager
  stopped : Bool

/-- Successive read completions of `do_read`: append the chunk, drain, and stop the
read loop when the last `extract_message` cleared the buffer. -/
def receive (host : Endian) : MessageBufferManager → List Bytes → Received
  | b, [] => ⟨[], b, false⟩
  | b, chunk :: chunks =>
    let drained := drain host (b.append chunk)
    if drained.2.lastClearByInvalidLength then ⟨drained.1, drained.2, true⟩
    else
      let later := receive host drained.2 chunks
      ⟨drained.1 ++ later.messages, later.buffer, later.stopped⟩

theorem receive_eq_feed (host : Endian) (b : MessageBufferManager) (chunks : List Bytes) :
    (receive host b chunks).messages = (wire.feed b.buffer chunks).1 ∧
    (receive host b chunks).stopped = (wire.feed b.buffer chunks).2.isNone ∧
    ((receive host b chunks).stopped = false →
      (wire.feed b.buffer chunks).2 = some (receive host b chunks).buffer.buffer) := by
  induction chunks generalizing b with
  | nil => exact ⟨rfl, rfl, fun _ => rfl⟩
  | cons chunk chunks ih =>
    have hd := drain_eq_parse host (b.append chunk)
    rw [receive, Decoder.feed, hd]
    change _ ∧ _ ∧ _
    cases h : (wire.parse (b.append chunk).buffer).2 with
    | none =>
      simp only [append] at h
      simp [leftover, append, h]
    | some rest =>
      obtain ⟨hm, hs, hb⟩ := ih ⟨rest, false⟩
      simp only [append] at h hm hs hb
      simp only [leftover, append, h, Bool.false_eq_true, if_false]
      exact ⟨by rw [hm], hs, hb⟩

theorem frame_eq_encode (host : Endian) (m : Bytes) : frame host m = wire.encode m :=
  congrArg (· ++ m) (store_htonl host (UInt32.ofNat m.length))

theorem flatMap_frame (host : Endian) (ms : List Bytes) :
    ms.flatMap (frame host) = wire.encodeAll ms :=
  congrArg (ms.flatMap ·) (funext (frame_eq_encode host))

/-- The decoder does not see how the stream was cut. -/
theorem receive_eq_reference (host : Endian) (chunks : List Bytes) :
    (receive host {} chunks).messages = (wire.parse chunks.flatten).1 ∧
    ((receive host {} chunks).stopped = true ↔ (wire.parse chunks.flatten).2 = none) ∧
    ((receive host {} chunks).stopped = false →
      (receive host {} chunks).messages.flatMap (frame host) ++
        (receive host {} chunks).buffer.buffer = chunks.flatten) := by
  obtain ⟨hm, hs, hb⟩ := receive_eq_feed host {} chunks
  have hfeed : wire.feed [] chunks = wire.parse chunks.flatten := wire.feed_eq_parse rfl chunks
  simp only [hfeed] at hm hs hb
  refine ⟨hm, by rw [hs, Option.isNone_iff_eq_none], fun h => ?_⟩
  rw [hm, flatMap_frame]
  exact wire.encodeAll_parse (hb h)

/-- Encoder and decoder agree, also between hosts of different byte order. -/
theorem frames_round_trip (sender host : Endian) :
    (∀ ms : List Bytes, (∀ m ∈ ms, 1 ≤ m.length ∧ m.length ≤ 4096) →
      drain host (append {} (ms.flatMap (frame sender))) = (ms, {})) ∧
    (∀ b m b', extractMessage host b = (some m, b') →
      b.buffer = frame sender m ++ b'.buffer) ∧
    (∀ m : Bytes, m.length < 2 ^ 32 → ¬ (1 ≤ m.length ∧ m.length ≤ 4096) →
      (extractMessage host (append {} (frame sender m))).1 = none ∧
      (extractMessage host (append {} (frame sender m))).2.lastClearByInvalidLength = true) := by
  refine ⟨fun ms hms => ?_, fun b m b' h => ?_, fun m hlt hm => ?_⟩
  · have hparse := wire.parse_encodeAll ms [] hms
    have hnil : wire.parse [] = ([], some []) := wire.parse_more rfl
    rw [hnil, List.append_nil, List.append_nil] at hparse
    rw [drain_eq_parse, flatMap_frame]
    change ((wire.parse (wire.encodeAll ms)).1, leftover (wire.parse (wire.encodeAll ms)).2) = _
    rw [hparse]
    rfl
  · rw [frame_eq_encode]
    exact (wire.of_look (extractMessage_some h).1).2
  · have hbad : wire.look (append {} (frame sender m)).buffer = .bad := by
      rw [frame_eq_encode]
      exact Wire.look_encode_bad hlt hm
    rw [extractMessage_of_bad hbad]
    exact ⟨rfl, rfl⟩

end DBMiddleWare
