import Mathlib.Data.UInt

/-!
# Byte order of a 32-bit word

A word is kept in memory in the order of the host, little or big endian. Storing
the network form of a word, or loading a network header, gives the same bytes on
both hosts: most significant first.
-/

namespace ByteOrder

set_option autoImplicit false

inductive Endian where
  | little
  | big
  deriving Repr, DecidableEq

/-- The value of four base-256 digits, most significant first. -/
def digits (b0 b1 b2 b3 : UInt8) : Nat :=
  2 ^ 24 * b0.toNat + 2 ^ 16 * b1.toNat + 2 ^ 8 * b2.toNat + b3.toNat

/-- The digit of `x` at weight `256 ^ k`. -/
def digit (x : UInt32) (k : Nat) : UInt8 := UInt8.ofNat (x.toNat / 256 ^ k)

/-- What `memcpy` into a 32-bit integer reads. -/
def load (host : Endian) (b0 b1 b2 b3 : UInt8) : UInt32 :=
  match host with
  | .little => UInt32.ofNat (digits b3 b2 b1 b0)
  | .big => UInt32.ofNat (digits b0 b1 b2 b3)

/-- What `memcpy` out of a 32-bit integer writes. -/
def store (host : Endian) (x : UInt32) : List UInt8 :=
  match host with
  | .little => [digit x 0, digit x 1, digit x 2, digit x 3]
  | .big => [digit x 3, digit x 2, digit x 1, digit x 0]

def bswap (x : UInt32) : UInt32 :=
  UInt32.ofNat (digits (digit x 0) (digit x 1) (digit x 2) (digit x 3))

def ntohl (host : Endian) (x : UInt32) : UInt32 :=
  match host with
  | .little => bswap x
  | .big => x

def htonl (host : Endian) (x : UInt32) : UInt32 := ntohl host x

/-- The four bytes of `x` as they travel on the network. -/
def network (x : UInt32) : List UInt8 := [digit x 3, digit x 2, digit x 1, digit x 0]

@[simp] theorem network_length (x : UInt32) : (network x).length = 4 := rfl

theorem digits_lt (b0 b1 b2 b3 : UInt8) : digits b0 b1 b2 b3 < 2 ^ 32 := by
  have h0 := b0.toNat_lt
  have h1 := b1.toNat_lt
  have h2 := b2.toNat_lt
  have h3 := b3.toNat_lt
  unfold digits
  omega

theorem toNat_ofNat_digits (b0 b1 b2 b3 : UInt8) :
    (UInt32.ofNat (digits b0 b1 b2 b3)).toNat = digits b0 b1 b2 b3 := by
  rw [UInt32.toNat_ofNat']
  exact Nat.mod_eq_of_lt (digits_lt b0 b1 b2 b3)

theorem digit_toNat (x : UInt32) (k : Nat) : (digit x k).toNat = x.toNat / 256 ^ k % 256 :=
  UInt8.toNat_ofNat'

theorem digits_digit (x : UInt32) :
    digits (digit x 3) (digit x 2) (digit x 1) (digit x 0) = x.toNat := by
  have hx := x.toNat_lt
  simp only [digits, digit_toNat]
  omega

theorem digit_digits (b0 b1 b2 b3 : UInt8) (x : UInt32) (hx : x.toNat = digits b0 b1 b2 b3) :
    digit x 3 = b0 ∧ digit x 2 = b1 ∧ digit x 1 = b2 ∧ digit x 0 = b3 := by
  have h0 := b0.toNat_lt
  have h1 := b1.toNat_lt
  have h2 := b2.toNat_lt
  have h3 := b3.toNat_lt
  unfold digits at hx
  refine ⟨?_, ?_, ?_, ?_⟩ <;>
  · apply UInt8.toNat_inj.mp
    rw [digit_toNat]
    omega

theorem bswap_toNat (x : UInt32) :
    (bswap x).toNat = digits (digit x 0) (digit x 1) (digit x 2) (digit x 3) :=
  toNat_ofNat_digits _ _ _ _

/-- Loading a network header and converting it gives its big-endian value on any host. -/
theorem ntohl_load (host : Endian) (b0 b1 b2 b3 : UInt8) :
    (ntohl host (load host b0 b1 b2 b3)).toNat = digits b0 b1 b2 b3 := by
  cases host with
  | big => exact toNat_ofNat_digits b0 b1 b2 b3
  | little =>
    obtain ⟨h0, h1, h2, h3⟩ := digit_digits b3 b2 b1 b0 (load .little b0 b1 b2 b3)
      (toNat_ofNat_digits b3 b2 b1 b0)
    change (bswap _).toNat = _
    rw [bswap_toNat, h0, h1, h2, h3]

/-- The network form of a word is stored most significant byte first on any host. -/
theorem store_htonl (host : Endian) (x : UInt32) : store host (htonl host x) = network x := by
  cases host with
  | big => rfl
  | little =>
    obtain ⟨h0, h1, h2, h3⟩ := digit_digits _ _ _ _ (bswap x) (bswap_toNat x)
    change [digit (bswap x) 0, digit (bswap x) 1, digit (bswap x) 2, digit (bswap x) 3] = _
    rw [h0, h1, h2, h3]
    rfl

/-- Four bytes are the network form of exactly one word. -/
theorem network_eq_iff (x : UInt32) (b0 b1 b2 b3 : UInt8) :
    network x = [b0, b1, b2, b3] ↔ digits b0 b1 b2 b3 = x.toNat := by
  constructor
  · intro h
    simp only [network, List.cons.injEq, and_true] at h
    obtain ⟨rfl, rfl, rfl, rfl⟩ := h
    exact digits_digit x
  · intro h
    obtain ⟨h0, h1, h2, h3⟩ := digit_digits b0 b1 b2 b3 x h.symm
    simp only [network, h0, h1, h2, h3]

end ByteOrder
