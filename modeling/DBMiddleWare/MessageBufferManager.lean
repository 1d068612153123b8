import DBMiddleWare.Library.ByteOrder
import DBMiddleWare.Library.IncrementalDecoder

/-!
# Message framing

`extractMessage` and the frame that `doWriteQueue` builds, over the byte order of
the host, and the wire format they are meant to implement: a 4-byte big-endian
length in 1..4096 followed by that many bytes.
-/

namespace DBMiddleWare

open ByteOrder IncrementalDecoder
set_option autoImplicit false

/-- A `std::string` as raw bytes. -/
abbrev Bytes := List UInt8

structure MessageBufferManager where
  buffer : Bytes := []
  lastClearByInvalidLength : Bool := false
  deriving Repr, DecidableEq

namespace MessageBufferManager

def maxPacketSize : UInt32 := 4096

def append (b : MessageBufferManager) (data : Bytes) : MessageBufferManager :=
  { b with buffer := b.buffer ++ data }

/-- `memcpy(&len, buffer.data(), 4); len = ntohl(len)`, reached with 4 bytes at least. -/
def header (host : Endian) : Bytes → UInt32
  | b0 :: b1 :: b2 :: b3 :: _ => ntohl host (load host b0 b1 b2 b3)
  | _ => 0

def extractMessage (host : Endian) (b : MessageBufferManager) :
    Option Bytes × MessageBufferManager :=
  let b := { b with lastClearByInvalidLength := false }
  if b.buffer.length < 4 then (none, b)
  else
    let len := header host b.buffer
    if len = 0 ∨ maxPacketSize < len then
      (none, { buffer := [], lastClearByInvalidLength := true })
    -- the sum is computed in uint32_t
    else if b.buffer.length < (4 + len).toNat then (none, b)
    else (some ((b.buffer.drop 4).take len.toNat),
      { b with buffer := b.buffer.drop (4 + len).toNat })

/-- The bytes of the two buffers `doWriteQueue` gives to `asyncWrite`. -/
def frame (host : Endian) (msg : Bytes) : Bytes :=
  let len := UInt32.ofNat msg.length
  store host (htonl host len) ++ msg

end MessageBufferManager

namespace Wire

def validLength (n : Nat) : Prop := 1 ≤ n ∧ n ≤ 4096

instance (n : Nat) : Decidable (validLength n) := by unfold validLength; infer_instance

/-- One frame at the front of a stream. -/
def look : Bytes → Look UInt8 Bytes
  | b0 :: b1 :: b2 :: b3 :: body =>
    let n := digits b0 b1 b2 b3
    if validLength n then
      if n ≤ body.length then .item (body.take n) (body.drop n) else .more
    else .bad
  | _ => .more

def encode (m : Bytes) : Bytes := network (UInt32.ofNat m.length) ++ m

theorem look_header (b0 b1 b2 b3 : UInt8) (body : Bytes) :
    (¬ validLength (digits b0 b1 b2 b3) ∧ look (b0 :: b1 :: b2 :: b3 :: body) = .bad) ∨
    (validLength (digits b0 b1 b2 b3) ∧ body.length < digits b0 b1 b2 b3 ∧
      look (b0 :: b1 :: b2 :: b3 :: body) = .more) ∨
    (validLength (digits b0 b1 b2 b3) ∧ digits b0 b1 b2 b3 ≤ body.length ∧
      look (b0 :: b1 :: b2 :: b3 :: body) =
        .item (body.take (digits b0 b1 b2 b3)) (body.drop (digits b0 b1 b2 b3))) := by
  by_cases hn : validLength (digits b0 b1 b2 b3)
  · by_cases hl : digits b0 b1 b2 b3 ≤ body.length
    · exact Or.inr (Or.inr ⟨hn, hl, by simp only [look, if_pos hn, if_pos hl]⟩)
    · exact Or.inr (Or.inl ⟨hn, by omega, by simp only [look, if_pos hn, if_neg hl]⟩)
  · exact Or.inl ⟨hn, by simp only [look, if_neg hn]⟩

theorem exists_header_of_look {b : Bytes} (h : look b ≠ .more) :
    ∃ b0 b1 b2 b3 body, b = b0 :: b1 :: b2 :: b3 :: body := by
  match b with
  | [] | [_] | [_, _] | [_, _, _] => exact absurd rfl h
  | b0 :: b1 :: b2 :: b3 :: body => exact ⟨b0, b1, b2, b3, body, rfl⟩

theorem encode_eq {m : Bytes} {b0 b1 b2 b3 : UInt8}
    (h : network (UInt32.ofNat m.length) = [b0, b1, b2, b3]) :
    encode m = b0 :: b1 :: b2 :: b3 :: m := congrArg (· ++ m) h

theorem of_look {b m rest : Bytes} (h : look b = .item m rest) :
    validLength m.length ∧ b = encode m ++ rest := by
  obtain ⟨b0, b1, b2, b3, body, rfl⟩ := exists_header_of_look (b := b) (by simp [h])
  rcases look_header b0 b1 b2 b3 body with ⟨_, hb⟩ | ⟨_, _, hb⟩ | ⟨hn, hl, hb⟩
  · simp [hb] at h
  · simp [hb] at h
  · rw [hb] at h
    injection h with hm hrest
    have hlen : m.length = digits b0 b1 b2 b3 := by
      rw [← hm, List.length_take]
      omega
    have hnet : network (UInt32.ofNat m.length) = [b0, b1, b2, b3] := by
      rw [network_eq_iff, hlen, toNat_ofNat_digits]
    have hbody : m ++ rest = body := by rw [← hm, ← hrest, List.take_append_drop]
    refine ⟨hlen ▸ hn, ?_⟩
    rw [encode_eq hnet, List.cons_append, List.cons_append, List.cons_append, List.cons_append, hbody]

theorem exists_header_encode {m : Bytes} (hlt : m.length < 2 ^ 32) :
    ∃ b0 b1 b2 b3, encode m = b0 :: b1 :: b2 :: b3 :: m ∧ digits b0 b1 b2 b3 = m.length := by
  obtain ⟨b0, b1, b2, b3, hnet⟩ : ∃ b0 b1 b2 b3,
      network (UInt32.ofNat m.length) = [b0, b1, b2, b3] := ⟨_, _, _, _, rfl⟩
  refine ⟨b0, b1, b2, b3, encode_eq hnet, ?_⟩
  rw [(network_eq_iff _ b0 b1 b2 b3).mp hnet, UInt32.toNat_ofNat', Nat.mod_eq_of_lt hlt]

theorem look_encode {m : Bytes} (rest : Bytes) (hm : validLength m.length) :
    look (encode m ++ rest) = .item m rest := by
  have hlt : m.length < 2 ^ 32 := lt_of_le_of_lt hm.2 (by decide)
  obtain ⟨b0, b1, b2, b3, henc, hdig⟩ := exists_header_encode hlt
  rw [henc]
  rcases look_header b0 b1 b2 b3 (m ++ rest) with ⟨hn, _⟩ | ⟨_, hl, _⟩ | ⟨_, _, hb⟩
  · exact absurd (hdig ▸ hm) hn
  · rw [hdig, List.length_append] at hl
    omega
  · rw [hdig] at hb
    simpa using hb

theorem look_encode_bad {m : Bytes} (hlt : m.length < 2 ^ 32) (hm : ¬ validLength m.length) :
    look (encode m) = .bad := by
  obtain ⟨b0, b1, b2, b3, henc, hdig⟩ := exists_header_encode hlt
  rw [henc, look, if_neg (hdig ▸ hm)]

theorem look_append_item {b m rest : Bytes} (c : Bytes) (h : look b = .item m rest) :
    look (b ++ c) = .item m (rest ++ c) := by
  obtain ⟨hm, hb⟩ := of_look h
  rw [hb, List.append_assoc]
  exact look_encode (rest ++ c) hm

theorem look_append_bad {b : Bytes} (c : Bytes) (h : look b = .bad) : look (b ++ c) = .bad := by
  obtain ⟨b0, b1, b2, b3, body, rfl⟩ := exists_header_of_look (b := b) (by simp [h])
  rcases look_header b0 b1 b2 b3 body with ⟨hn, _⟩ | ⟨_, _, hb⟩ | ⟨_, _, hb⟩
  · simp only [List.cons_append, look, if_neg hn]
  · simp [hb] at h
  · simp [hb] at h

end Wire

/-- The reference parser of the wire format and the encoder it inverts. -/
def wire : Codec UInt8 Bytes where
  look := Wire.look
  shrinks := by
    intro b m rest h
    obtain ⟨hm, hb⟩ := Wire.of_look h
    rw [hb, Wire.encode]
    simp only [List.length_append, network_length]
    omega
  item_append := Wire.look_append_item
  bad_append := Wire.look_append_bad
  encode := Wire.encode
  valid := fun m => Wire.validLength m.length
  look_encode := Wire.look_encode
  of_look := Wire.of_look

namespace MessageBufferManager

theorem header_toNat (host : Endian) (b0 b1 b2 b3 : UInt8) (body : Bytes) :
    (header host (b0 :: b1 :: b2 :: b3 :: body)).toNat = digits b0 b1 b2 b3 :=
  ntohl_load host b0 b1 b2 b3

/-- The length check of the source, on the big-endian value of the header. -/
theorem header_invalid_iff (host : Endian) (b0 b1 b2 b3 : UInt8) (body : Bytes) :
    (header host (b0 :: b1 :: b2 :: b3 :: body) = 0 ∨
      maxPacketSize < header host (b0 :: b1 :: b2 :: b3 :: body)) ↔
    ¬ Wire.validLength (digits b0 b1 b2 b3) := by
  rw [← UInt32.toNat_inj, UInt32.lt_iff_toNat_lt, header_toNat]
  change (digits b0 b1 b2 b3 = 0 ∨ 4096 < digits b0 b1 b2 b3) ↔ ¬ (1 ≤ _ ∧ _ ≤ 4096)
  omega

/-- `4 + len` does not wrap for a length that passed the check. -/
theorem four_add_toNat (len : UInt32) (h : Wire.validLength len.toNat) :
    (4 + len).toNat = 4 + len.toNat := by
  have h4 : (4 : UInt32).toNat = 4 := rfl
  have hle := h.2
  rw [UInt32.toNat_add, h4]
  omega

def extracted (b : MessageBufferManager) : Option Bytes × MessageBufferManager :=
  match wire.look b.buffer with
  | .more => (none, ⟨b.buffer, false⟩)
  | .bad => (none, ⟨[], true⟩)
  | .item m rest => (some m, ⟨rest, false⟩)

theorem extractMessage_eq (host : Endian) (b : MessageBufferManager) :
    extractMessage host b = extracted b := by
  obtain ⟨buf, flag⟩ := b
  match buf with
  | [] | [_] | [_, _] | [_, _, _] => rfl
  | b0 :: b1 :: b2 :: b3 :: body =>
    have hinv := header_invalid_iff host b0 b1 b2 b3 body
    have hval := header_toNat host b0 b1 b2 b3 body
    have hlen : ¬ (b0 :: b1 :: b2 :: b3 :: body).length < 4 := by
      simp only [List.length_cons]
      omega
    unfold extractMessage extracted
    simp only [if_neg hlen]
    change _ = match Wire.look (b0 :: b1 :: b2 :: b3 :: body) with
      | .more => _ | .bad => _ | .item m rest => _
    rcases Wire.look_header b0 b1 b2 b3 body with ⟨hn, hb⟩ | ⟨hn, hl, hb⟩ | ⟨hn, hl, hb⟩
    · rw [if_pos (hinv.mpr hn), hb]
    · rw [if_neg fun h => hinv.mp h hn, four_add_toNat _ (hval ▸ hn), hval, hb, if_pos]
      simp only [List.length_cons]
      omega
    · rw [if_neg fun h => hinv.mp h hn, four_add_toNat _ (hval ▸ hn), hval, hb, if_neg]
      · simp [Nat.add_comm 4]
      · simp only [List.length_cons]
        omega

theorem extractMessage_of_more {host : Endian} {b : MessageBufferManager}
    (h : wire.look b.buffer = .more) : extractMessage host b = (none, ⟨b.buffer, false⟩) := by
  simp only [extractMessage_eq, extracted, h]

theorem extractMessage_of_bad {host : Endian} {b : MessageBufferManager}
    (h : wire.look b.buffer = .bad) : extractMessage host b = (none, ⟨[], true⟩) := by
  simp only [extractMessage_eq, extracted, h]

theorem extractMessage_of_item {host : Endian} {b : MessageBufferManager} {m rest : Bytes}
    (h : wire.look b.buffer = .item m rest) : extractMessage host b = (some m, ⟨rest, false⟩) := by
  simp only [extractMessage_eq, extracted, h]

theorem extractMessage_some {host : Endian} {b b' : MessageBufferManager} {m : Bytes}
    (h : extractMessage host b = (some m, b')) :
    wire.look b.buffer = .item m b'.buffer ∧ b'.lastClearByInvalidLength = false := by
  cases hl : wire.look b.buffer with
  | more => simp [extractMessage_of_more hl] at h
  | bad => simp [extractMessage_of_bad hl] at h
  | item m' rest =>
    simp only [extractMessage_of_item hl, Prod.mk.injEq, Option.some.injEq] at h
    obtain ⟨rfl, rfl⟩ := h
    exact ⟨rfl, rfl⟩

end MessageBufferManager

end DBMiddleWare
