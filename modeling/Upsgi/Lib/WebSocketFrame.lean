import Upsgi.Lib.Framing

/-! # WebSocket frames

    Frames as they are on the wire: two bytes with the flags, the opcode and a short
    length, a longer length if there is one, the masking key, and the payload.  The
    length may be written in any form it fits into.
-/

namespace WebSocket

open Framing (Bytes)
open List

/-! ### Numbers in network order -/

/-- The last `k` base-256 digits of a number, most significant first. -/
def beBytes : Nat → Nat → Bytes
  | 0, _ => []
  | k + 1, n => UInt8.ofNat (n / 256 ^ k) :: beBytes k n

def fromBe (bs : Bytes) : Nat :=
  bs.foldl (fun v b => 256 * v + b.toNat) 0

@[simp] theorem beBytes_length (k n : Nat) : (beBytes k n).length = k := by
  induction k with
  | zero => rfl
  | succ k ih => rw [beBytes, length_cons, ih]

theorem foldl_beBytes (k n v : Nat) :
    (beBytes k n).foldl (fun v b => 256 * v + b.toNat) v = v * 256 ^ k + n % 256 ^ k := by
  induction k generalizing v with
  | zero => simp [beBytes, Nat.mod_one]
  | succ k ih =>
    have hdigit : (UInt8.ofNat (n / 256 ^ k)).toNat = n / 256 ^ k % 256 := rfl
    rw [beBytes, foldl_cons, ih, hdigit, Nat.pow_succ, Nat.mod_mul]
    ring

theorem fromBe_beBytes {k n : Nat} (h : n < 256 ^ k) : fromBe (beBytes k n) = n := by
  unfold fromBe
  rw [foldl_beBytes, Nat.zero_mul, Nat.zero_add, Nat.mod_eq_of_lt h]

/-! ### Masking -/

/-- The payload under a key of four bytes. -/
def applyMask (key data : Bytes) : Bytes :=
  data.mapIdx fun i b => b ^^^ key.getD (i % 4) 0

@[simp] theorem applyMask_length (key data : Bytes) : (applyMask key data).length = data.length := by
  unfold applyMask
  rw [length_mapIdx]

/-- Masking twice gives the payload back. -/
theorem applyMask_applyMask (key data : Bytes) : applyMask key (applyMask key data) = data := by
  unfold applyMask
  rw [mapIdx_mapIdx]
  refine ext_getElem (by simp) fun i h₁ h₂ => ?_
  rw [getElem_mapIdx]
  show (data[i] ^^^ key.getD (i % 4) 0) ^^^ key.getD (i % 4) 0 = data[i]
  rw [UInt8.xor_assoc, UInt8.xor_self, UInt8.xor_zero]

/-! ### Frames -/

/-- How the length of the payload is written. -/
inductive LengthForm where
  | short
  | word
  | long
  deriving DecidableEq, Repr

/-- A masking key. -/
abbrev MaskKey : Type := { key : Bytes // key.length = 4 }

structure Frame where
  fin : Bool
  opcode : Fin 16
  form : LengthForm
  mask : Option MaskKey
  payload : Bytes

/-- The bytes of the length behind the first two bytes. -/
def LengthForm.size : LengthForm → Nat
  | .short => 0
  | .word => 2
  | .long => 8

namespace Frame

variable (f : Frame)

/-- The seven bits of the length in the second byte. -/
def shortLength : Nat :=
  match f.form with
  | .short => f.payload.length
  | .word => 126
  | .long => 127

def firstByte : UInt8 :=
  UInt8.ofNat ((if f.fin then 128 else 0) + f.opcode)

def secondByte : UInt8 :=
  UInt8.ofNat ((if f.mask.isSome then 128 else 0) + f.shortLength)

def lengthBytes : Bytes :=
  beBytes f.form.size f.payload.length

def maskBytes : Bytes :=
  match f.mask with
  | none => []
  | some key => key.1

def body : Bytes :=
  match f.mask with
  | none => f.payload
  | some key => applyMask key.1 f.payload

/-- The frame on the wire. -/
def bytes : Bytes :=
  f.firstByte :: f.secondByte :: (f.lengthBytes ++ (f.maskBytes ++ f.body))

/-- The length fits into its form. -/
def Fits : Prop :=
  match f.form with
  | .short => f.payload.length < 126
  | .word => f.payload.length < 256 ^ 2
  | .long => f.payload.length < 256 ^ 8

/-- The length of everything in front of the payload. -/
def headSize : Nat :=
  2 + f.form.size + f.maskBytes.length

@[simp] theorem body_length : f.body.length = f.payload.length := by
  unfold body
  split
  · rfl
  · rw [applyMask_length]

theorem maskBytes_length : f.maskBytes.length = if f.mask.isSome then 4 else 0 := by
  unfold maskBytes
  cases f.mask with
  | none => rfl
  | some key => exact key.2

theorem bytes_length : f.bytes.length = f.headSize + f.payload.length := by
  unfold bytes headSize lengthBytes
  rw [length_cons, length_cons, length_append, length_append, beBytes_length, body_length]
  omega

variable {f}

theorem shortLength_lt (h : f.Fits) : f.shortLength < 128 := by
  unfold shortLength
  unfold Fits at h
  cases hform : f.form with
  | short =>
    rw [hform] at h
    exact Nat.lt_trans h (by decide)
  | word => exact (by decide : 126 < 128)
  | long => exact (by decide : 127 < 128)

/-- A length of fewer than seven bits is the length itself. -/
theorem shortLength_short (h : f.form = .short) : f.shortLength = f.payload.length := by
  unfold shortLength
  rw [h]

theorem fromBe_lengthBytes (hfits : f.Fits) (h : f.form ≠ .short) :
    fromBe f.lengthBytes = f.payload.length := by
  unfold Fits at hfits
  unfold lengthBytes
  cases hform : f.form with
  | short => exact absurd hform h
  | word | long =>
    rw [hform] at hfits
    exact fromBe_beBytes hfits

variable (f) in
/-- A frame in front of more bytes, cut behind the length and behind the key. -/
theorem bytes_append (tail : Bytes) :
    f.bytes ++ tail =
      (f.firstByte :: f.secondByte :: f.lengthBytes) ++ (f.maskBytes ++ (f.body ++ tail)) := by
  unfold bytes
  simp only [cons_append, append_assoc]

theorem length_slice (tail : Bytes) :
    ((f.bytes ++ tail).drop 2).take f.form.size = f.lengthBytes := by
  rw [bytes_append, cons_append, cons_append, drop_succ_cons, drop_succ_cons, drop_zero]
  exact take_left' (beBytes_length _ _)

theorem mask_slice (tail : Bytes) :
    ((f.bytes ++ tail).drop (2 + f.form.size)).take f.maskBytes.length = f.maskBytes := by
  have hlen : (f.firstByte :: f.secondByte :: f.lengthBytes).length = 2 + f.form.size := by
    unfold lengthBytes
    rw [length_cons, length_cons, beBytes_length]
    omega
  rw [bytes_append, drop_left' hlen]
  exact take_left' rfl

theorem body_slice (tail : Bytes) :
    ((f.bytes ++ tail).drop f.headSize).take f.payload.length = f.body := by
  have hlen : (f.firstByte :: f.secondByte :: f.lengthBytes ++ f.maskBytes).length = f.headSize := by
    unfold headSize lengthBytes
    rw [length_append, length_cons, length_cons, beBytes_length]
    omega
  rw [bytes_append, ← append_assoc, drop_left' hlen]
  exact take_left' f.body_length

/-- The payload of a frame, from its body and the key in front of it. -/
theorem unmask_body : (if f.mask.isSome then applyMask f.maskBytes f.body else f.body) = f.payload := by
  unfold maskBytes body
  cases f.mask with
  | none => rfl
  | some key => exact applyMask_applyMask key.1 f.payload

end Frame

/-! ### The bits of the first two bytes -/

theorem flag_shift (flag : Bool) (n : Fin 128) :
    UInt8.ofNat ((if flag then 128 else 0) + n) >>> 7 = if flag then 1 else 0 := by
  revert flag n
  decide

theorem flag_low (flag : Bool) (n : Fin 128) :
    UInt8.ofNat ((if flag then 128 else 0) + n) &&& 0x7f = UInt8.ofNat n := by
  revert flag n
  decide

theorem opcode_low (flag : Bool) (n : Fin 16) :
    UInt8.ofNat ((if flag then 128 else 0) + n) &&& 0xf = UInt8.ofNat n := by
  revert flag n
  decide

end WebSocket
