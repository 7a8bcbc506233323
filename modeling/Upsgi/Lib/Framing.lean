import Mathlib

/-! # Length-prefixed key/value frames

    A frame is a key and a value, each preceded by its length in two
    bytes, least significant byte first.  A packet is a concatenation of
    frames.  The lengths are written modulo `2 ^ 16`, as any writer that
    masks or casts to sixteen bits does, so a frame is only readable again
    when both lengths are below `2 ^ 16`.

    Nothing here depends on who writes or reads the packet.
-/

namespace Framing

/-- A byte string. -/
abbrev Bytes : Type := List UInt8

/-- A key and a value. -/
abbrev Pair : Type := Bytes × Bytes

/-! ### Sixteen-bit little-endian lengths -/

/-- The two bytes written for the length `n`. -/
def le16 (n : Nat) : Bytes :=
  [UInt8.ofNat n, UInt8.ofNat (n / 256)]

/-- The length read from two bytes. -/
def fromLe16 (a b : UInt8) : Nat :=
  a.toNat + 256 * b.toNat

@[simp] theorem le16_length (n : Nat) : (le16 n).length = 2 := rfl

/-- Reading a written length gives it back modulo `2 ^ 16`. -/
theorem fromLe16_ofNat (n : Nat) :
    fromLe16 (UInt8.ofNat n) (UInt8.ofNat (n / 256)) = n % 65536 := by
  unfold fromLe16
  have h1 : (UInt8.ofNat n).toNat = n % 256 := by simp
  have h2 : (UInt8.ofNat (n / 256)).toNat = n / 256 % 256 := by simp
  omega

theorem fromLe16_lt (a b : UInt8) : fromLe16 a b < 65536 := by
  unfold fromLe16
  have ha := a.toNat_lt
  have hb := b.toNat_lt
  omega

/-- Writing a length that was read gives back its two bytes. -/
theorem le16_fromLe16 (a b : UInt8) : le16 (fromLe16 a b) = [a, b] := by
  have ha := a.toNat_lt
  have hb := b.toNat_lt
  have hlow : UInt8.ofNat (fromLe16 a b) = a := by
    apply UInt8.toNat_inj.mp
    rw [UInt8.toNat_ofNat', fromLe16]
    omega
  have hhigh : UInt8.ofNat (fromLe16 a b / 256) = b := by
    apply UInt8.toNat_inj.mp
    rw [UInt8.toNat_ofNat', fromLe16]
    omega
  rw [le16, hlow, hhigh]

/-! ### Frames and packets -/

/-- One frame. -/
def frame (e : Pair) : Bytes :=
  le16 e.1.length ++ e.1 ++ (le16 e.2.length ++ e.2)

/-- A packet: the frames one after the other. -/
def packet (es : List Pair) : Bytes :=
  es.flatMap frame

/-- A pair whose two lengths survive the sixteen-bit length fields. -/
def Fits (e : Pair) : Prop :=
  e.1.length < 65536 ∧ e.2.length < 65536

instance (e : Pair) : Decidable (Fits e) :=
  inferInstanceAs (Decidable (_ ∧ _))

/-- The number of bytes a frame takes. -/
def frameSize (e : Pair) : Nat :=
  e.1.length + e.2.length + 4

@[simp] theorem frame_length (e : Pair) : (frame e).length = frameSize e := by
  simp only [frame, List.length_append, le16_length, frameSize]
  omega

@[simp] theorem packet_nil : packet [] = [] := rfl

@[simp] theorem packet_cons (e : Pair) (es : List Pair) :
    packet (e :: es) = frame e ++ packet es := by
  simp [packet]

@[simp] theorem packet_append (es fs : List Pair) :
    packet (es ++ fs) = packet es ++ packet fs := by
  simp [packet]

end Framing
