import Mathlib.Data.List.Basic
import Mathlib.Data.List.Flatten

/-!
# Decoding a stream that arrives in pieces

A decoder looks at the front of a buffer and finds a complete item, too little
input, or something malformed. Its only law is that more input never changes what
was already decided. That is enough to make the result of decoding independent of
where the stream is cut. With an encoder on top the decoded items re-encode to
the input.
-/

namespace IncrementalDecoder

set_option autoImplicit false

universe u v
variable {α : Type u} {μ : Type v}

inductive Look (α : Type u) (μ : Type v) where
  | more
  | item (m : μ) (rest : List α)
  | bad

structure Decoder (α : Type u) (μ : Type v) where
  look : List α → Look α μ
  shrinks : ∀ {b m rest}, look b = .item m rest → rest.length < b.length
  item_append : ∀ {b m rest} (c : List α), look b = .item m rest → look (b ++ c) = .item m (rest ++ c)
  bad_append : ∀ {b} (c : List α), look b = .bad → look (b ++ c) = .bad

namespace Decoder

variable (d : Decoder α μ)

/-- All complete items of a stream, and what is left after them; nothing is left
once something malformed has been met. -/
def parse (b : List α) : List μ × Option (List α) :=
  match _h : d.look b with
  | .more => ([], some b)
  | .item m rest => (m :: (parse rest).1, (parse rest).2)
  | .bad => ([], none)
termination_by b.length
decreasing_by all_goals exact d.shrinks _h

theorem parse_more {b : List α} (h : d.look b = .more) : d.parse b = ([], some b) := by
  rw [parse]
  split <;> simp_all

theorem parse_bad {b : List α} (h : d.look b = .bad) : d.parse b = ([], none) := by
  rw [parse]
  split <;> simp_all

theorem parse_item {b rest : List α} {m : μ} (h : d.look b = .item m rest) :
    d.parse b = (m :: (d.parse rest).1, (d.parse rest).2) := by
  rw [parse]
  split <;> simp_all

theorem items_induction {P : List α → Prop} (more : ∀ b, d.look b = .more → P b)
    (bad : ∀ b, d.look b = .bad → P b) (item : ∀ b m rest, d.look b = .item m rest → P rest → P b)
    (b : List α) : P b := by
  induction hn : b.length using Nat.strongRecOn generalizing b with
  | ind n ih =>
    cases h : d.look b with
    | more => exact more b h
    | bad => exact bad b h
    | item m rest => exact item b m rest h (ih rest.length (hn ▸ d.shrinks h) rest rfl)

/-- What is left after parsing is the beginning of an item at most. -/
theorem look_rest {b rest : List α} (h : (d.parse b).2 = some rest) : d.look rest = .more := by
  induction b using d.items_induction with
  | more b hb =>
    rw [d.parse_more hb] at h
    exact Option.some.inj h ▸ hb
  | bad b hb => simp [d.parse_bad hb] at h
  | item b m tail hb ih =>
    rw [d.parse_item hb] at h
    exact ih h

/-- Malformed input hides whatever follows it. -/
theorem parse_append_none {b : List α} (c : List α) (h : (d.parse b).2 = none) :
    d.parse (b ++ c) = d.parse b := by
  induction b using d.items_induction with
  | more b hb => simp [d.parse_more hb] at h
  | bad b hb => rw [d.parse_bad hb, d.parse_bad (d.bad_append c hb)]
  | item b m rest hb ih =>
    rw [d.parse_item hb] at h ⊢
    rw [d.parse_item (d.item_append c hb), ih h]

/-- Parsing resumes with what the first part left over. -/
theorem parse_append_some {b rest : List α} (c : List α) (h : (d.parse b).2 = some rest) :
    d.parse (b ++ c) = ((d.parse b).1 ++ (d.parse (rest ++ c)).1, (d.parse (rest ++ c)).2) := by
  induction b using d.items_induction with
  | more b hb =>
    rw [d.parse_more hb] at h ⊢
    rw [← Option.some.inj h]
    simp
  | bad b hb => simp [d.parse_bad hb] at h
  | item b m tail hb ih =>
    rw [d.parse_item hb] at h ⊢
    rw [d.parse_item (d.item_append c hb), ih h]
    simp

/-- What has been parsed stays parsed when more arrives. -/
theorem parse_front (b c : List α) : (d.parse b).1 <+: (d.parse (b ++ c)).1 := by
  cases h : (d.parse b).2 with
  | none =>
    simp only [d.parse_append_none c h, List.prefix_rfl]
  | some rest =>
    rw [d.parse_append_some c h]
    exact List.prefix_append ..

/-- Chunks are appended to the buffer one by one, each time all complete items are
taken; the run ends early at malformed input. -/
def feed : List α → List (List α) → List μ × Option (List α)
  | b, [] => ([], some b)
  | b, chunk :: chunks =>
    match (d.parse (b ++ chunk)).2 with
    | none => ((d.parse (b ++ chunk)).1, none)
    | some rest => ((d.parse (b ++ chunk)).1 ++ (feed rest chunks).1, (feed rest chunks).2)

/-- The way a stream is cut into chunks does not matter. -/
theorem feed_eq_parse {b : List α} (hb : d.look b = .more) (chunks : List (List α)) :
    d.feed b chunks = d.parse (b ++ chunks.flatten) := by
  induction chunks generalizing b with
  | nil => rw [feed, List.flatten_nil, List.append_nil, d.parse_more hb]
  | cons chunk chunks ih =>
    rw [feed, List.flatten_cons, ← List.append_assoc]
    cases h : (d.parse (b ++ chunk)).2 with
    | none =>
      rw [d.parse_append_none _ h]
      exact Prod.ext rfl h.symm
    | some rest =>
      rw [d.parse_append_some _ h]
      simp only [ih (d.look_rest h)]

end Decoder

/-- A decoder together with the encoder it inverts. -/
structure Codec (α : Type u) (μ : Type v) extends Decoder α μ where
  encode : μ → List α
  valid : μ → Prop
  look_encode : ∀ {m} (rest : List α), valid m → look (encode m ++ rest) = .item m rest
  of_look : ∀ {b m rest}, look b = .item m rest → valid m ∧ b = encode m ++ rest

namespace Codec

variable (d : Codec α μ)

def encodeAll (ms : List μ) : List α := ms.flatMap d.encode

@[simp] theorem encodeAll_nil : d.encodeAll [] = [] := rfl

@[simp] theorem encodeAll_cons (m : μ) (ms : List μ) :
    d.encodeAll (m :: ms) = d.encode m ++ d.encodeAll ms := List.flatMap_cons

theorem parse_encodeAll (ms : List μ) (rest : List α) (hms : ∀ m ∈ ms, d.valid m) :
    d.parse (d.encodeAll ms ++ rest) = (ms ++ (d.parse rest).1, (d.parse rest).2) := by
  induction ms with
  | nil => simp
  | cons m ms ih =>
    have hm := d.look_encode (d.encodeAll ms ++ rest) (hms m List.mem_cons_self)
    rw [encodeAll_cons, List.append_assoc, d.parse_item hm,
      ih fun x hx => hms x (List.mem_cons_of_mem m hx)]
    simp

/-- Without malformed input, the items and the leftover give back the stream. -/
theorem encodeAll_parse {b rest : List α} (h : (d.parse b).2 = some rest) :
    d.encodeAll (d.parse b).1 ++ rest = b := by
  induction b using d.items_induction with
  | more b hb =>
    rw [d.parse_more hb] at h ⊢
    simpa using (Option.some.inj h).symm
  | bad b hb => simp [d.parse_bad hb] at h
  | item b m tail hb ih =>
    rw [d.parse_item hb] at h ⊢
    rw [encodeAll_cons, List.append_assoc, ih h]
    exact (d.of_look hb).2.symm

/-- Whatever part of an encoded stream has arrived decodes to a part of the items: to those at least
that have arrived as a whole. -/
theorem parse_between (empty : d.look [] = .more) {sent started : List μ} {b : List α}
    (hstarted : ∀ m ∈ started, d.valid m) (least : d.encodeAll sent <+: b)
    (most : b <+: d.encodeAll started) (whole : sent <+: started) :
    ∃ ms rest, d.parse b = (ms, some rest) ∧ sent <+: ms ∧ ms <+: started := by
  have hall : d.parse (d.encodeAll started) = (started, some []) := by
    have h := d.parse_encodeAll started [] hstarted
    rwa [List.append_nil, d.parse_more empty, List.append_nil] at h
  obtain ⟨late, hlate⟩ := most
  cases hrest : (d.parse b).2 with
  | none =>
    have h := d.parse_append_none late hrest
    rw [hlate, hall] at h
    rw [← h] at hrest
    cases hrest
  | some rest =>
    refine ⟨(d.parse b).1, rest, Prod.ext rfl hrest, ?_, ?_⟩
    · obtain ⟨more, rfl⟩ := least
      rw [d.parse_encodeAll sent more fun m hm => hstarted m (whole.subset hm)]
      exact List.prefix_append _ _
    · have h := d.parse_append_some late hrest
      rw [hlate, hall] at h
      rw [(Prod.mk.inj h).1]
      exact List.prefix_append _ _

end Codec

end IncrementalDecoder
