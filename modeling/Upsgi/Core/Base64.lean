import Upsgi.Core.Strings

/-! # Base64

    `upsgi_base64_encode` and `upsgi_base64_decode` (`core/utils.c`).  The encoder writes four
    characters for three bytes and fills the last group with `=`.  The decoder looks for the
    first `=`, refuses what is not in its table before it, and reads groups of four again.

    What a call stores in `d_len` is the length of the bytes it returns; the memory for them is
    taken to be there.
-/

namespace Upsgi

open Framing (Bytes)

/-! ### The two functions -/

/-- The value of each character, 77 for one that is not used. -/
def b64_table64 : List UInt8 :=
  List.replicate 43 77 ++ [62, 77, 77, 77, 63] ++ [52, 53, 54, 55, 56, 57, 58, 59, 60, 61] ++
    List.replicate 7 77 ++ (List.range 26).map UInt8.ofNat ++ List.replicate 6 77 ++
    (List.range 26).map (fun n => UInt8.ofNat (26 + n)) ++ List.replicate 133 77

def b64_table64_2 : Bytes :=
  lit "ABCDEFGHIJKLMNOPQRSTUVWXYZabcdefghijklmnopqrstuvwxyz0123456789+/"

def b64Value (c : UInt8) : UInt8 :=
  b64_table64.getD c.toNat 77

def b64Char (v : UInt8) : UInt8 :=
  b64_table64_2.getD v.toNat 0

/-- Two bits of `a` and four of `b`. -/
def secondSextet (a b : UInt8) : UInt8 :=
  ((a <<< 4) &&& (0x30 : UInt8)) ||| (b >>> 4)

/-- Four bits of `b` and two of `c`. -/
def thirdSextet (b c : UInt8) : UInt8 :=
  ((b <<< 2) &&& (0x3C : UInt8)) ||| (c >>> 6)

def upsgi_base64_encode : Bytes → Bytes
  | a :: b :: c :: src =>
      b64Char (a >>> 2) :: b64Char (secondSextet a b) :: b64Char (thirdSextet b c) ::
        b64Char (c &&& 0x3F) :: upsgi_base64_encode src
  | [a, b] =>
      [b64Char (a >>> 2), b64Char (secondSextet a b), b64Char ((b <<< 2) &&& (0x3C : UInt8)), 61]
  | [a] => [b64Char (a >>> 2), b64Char ((a <<< 4) &&& (0x30 : UInt8)), 61, 61]
  | [] => []

/-- The number of characters before the first `=`, unless one of them is invalid. -/
def b64Size : Bytes → Option Nat
  | [] => some 0
  | c :: buf =>
      if c = 61 then some 0
      else if b64Value c = 77 then none
      else (b64Size buf).map (· + 1)

/-- The loop over the groups, and what is left behind it. -/
def b64Groups : Bytes → Bytes
  | s₀ :: s₁ :: s₂ :: s₃ :: src =>
      (b64Value s₀ <<< 2 ||| b64Value s₁ >>> 4) :: (b64Value s₁ <<< 4 ||| b64Value s₂ >>> 2) ::
        (b64Value s₂ <<< 6 ||| b64Value s₃) :: b64Groups src
  | [s₀, s₁, s₂] =>
      [b64Value s₀ <<< 2 ||| b64Value s₁ >>> 4, b64Value s₁ <<< 4 ||| b64Value s₂ >>> 2]
  | [s₀, s₁] => [b64Value s₀ <<< 2 ||| b64Value s₁ >>> 4]
  | _ => []

/-- `none` is the return value `NULL`. -/
def upsgi_base64_decode (buf : Bytes) : Option Bytes :=
  match b64Size buf with
  | none => none
  | some i => if i % 4 = 1 then none else some (b64Groups (buf.take i))

/-! ### Six bits -/

/-- The two tables fit together. -/
theorem b64Value_char {v : UInt8} (hv : v.toNat < 64) :
    b64Value (b64Char v) = v ∧ b64Char v ≠ 61 := by
  have htable : ∀ n < 64, b64Value (b64Char (UInt8.ofNat n)) = UInt8.ofNat n ∧
      b64Char (UInt8.ofNat n) ≠ 61 := by decide +kernel
  have h := htable v.toNat hv
  rwa [UInt8.ofNat_toNat] at h

theorem shiftRight_lt_64 (a : UInt8) {k : UInt8} (hk : k = 2 ∨ k = 4 ∨ k = 6) :
    (a >>> k).toNat < 64 := by
  have ha := a.toNat_lt
  rcases hk with rfl | rfl | rfl <;> simp [Nat.shiftRight_eq_div_pow] <;> omega

theorem and_lt_64 (a : UInt8) {m : UInt8} (hm : m.toNat < 64) : (a &&& m).toNat < 64 := by
  rw [UInt8.toNat_and]
  exact Nat.lt_of_le_of_lt Nat.and_le_right hm

theorem secondSextet_lt (a b : UInt8) : (secondSextet a b).toNat < 64 := by
  unfold secondSextet
  rw [UInt8.toNat_or]
  exact Nat.or_lt_two_pow (n := 6) (and_lt_64 _ (by decide)) (shiftRight_lt_64 b (by simp))

theorem thirdSextet_lt (b c : UInt8) : (thirdSextet b c).toNat < 64 := by
  unfold thirdSextet
  rw [UInt8.toNat_or]
  exact Nat.or_lt_two_pow (n := 6) (and_lt_64 _ (by decide)) (shiftRight_lt_64 c (by simp))

theorem first_byte (a b : UInt8) : (a >>> 2) <<< 2 ||| secondSextet a b >>> 4 = a := by
  apply UInt8.toBitVec_inj.mp
  ext i hi
  interval_cases i <;> simp [secondSextet]

theorem second_byte (a b c : UInt8) : secondSextet a b <<< 4 ||| thirdSextet b c >>> 2 = b := by
  apply UInt8.toBitVec_inj.mp
  ext i hi
  interval_cases i <;> simp [secondSextet, thirdSextet]

theorem third_byte (b c : UInt8) : thirdSextet b c <<< 6 ||| (c &&& 0x3F) = c := by
  apply UInt8.toBitVec_inj.mp
  ext i hi
  interval_cases i <;> simp [thirdSextet]

/-! ### The round trip -/

theorem b64Size_char {v : UInt8} (hv : v.toNat < 64) (buf : Bytes) :
    b64Size (b64Char v :: buf) = (b64Size buf).map (· + 1) := by
  obtain ⟨hvalue, hne⟩ := b64Value_char hv
  rw [b64Size, if_neg hne, hvalue, if_neg]
  rintro rfl
  nomatch hv

/-- The characters before the first `=` are groups that the decoder turns into the bytes again.
    The induction takes three bytes at a time, as the encoder does. -/
theorem encode_groups (x : Bytes) :
    ∃ i, b64Size (upsgi_base64_encode x) = some i ∧ i % 4 ≠ 1 ∧
      b64Groups ((upsgi_base64_encode x).take i) = x := by
  have hfirst := fun a : UInt8 => shiftRight_lt_64 a (.inl rfl)
  induction x using upsgi_base64_encode.induct with
  | case1 a b c src ih =>
    obtain ⟨i, hsize, hmod, hgroups⟩ := ih
    have hlast : (c &&& 0x3F).toNat < 64 := and_lt_64 c (by decide)
    refine ⟨i + 4, ?_, by omega, ?_⟩
    · rw [upsgi_base64_encode, b64Size_char (hfirst a), b64Size_char (secondSextet_lt a b),
        b64Size_char (thirdSextet_lt b c), b64Size_char hlast, hsize]
      rfl
    · simp only [upsgi_base64_encode, List.take_succ_cons, b64Groups, hgroups,
        (b64Value_char (hfirst a)).1, (b64Value_char (secondSextet_lt a b)).1,
        (b64Value_char (thirdSextet_lt b c)).1, (b64Value_char hlast).1, first_byte, second_byte,
        third_byte]
  | case2 a b =>
    -- the missing byte counts as 0
    have hthird : (b <<< 2) &&& (0x3C : UInt8) = thirdSextet b 0 := by simp [thirdSextet]
    refine ⟨3, ?_, by decide, ?_⟩
    · rw [upsgi_base64_encode, hthird, b64Size_char (hfirst a), b64Size_char (secondSextet_lt a b),
        b64Size_char (thirdSextet_lt b 0)]
      rfl
    · simp only [upsgi_base64_encode, hthird, List.take_succ_cons, List.take_zero, b64Groups,
        (b64Value_char (hfirst a)).1, (b64Value_char (secondSextet_lt a b)).1,
        (b64Value_char (thirdSextet_lt b 0)).1, first_byte, second_byte]
  | case3 a =>
    have hsecond : (a <<< 4) &&& (0x30 : UInt8) = secondSextet a 0 := by simp [secondSextet]
    refine ⟨2, ?_, by decide, ?_⟩
    · rw [upsgi_base64_encode, hsecond, b64Size_char (hfirst a), b64Size_char (secondSextet_lt a 0)]
      rfl
    · simp only [upsgi_base64_encode, hsecond, List.take_succ_cons, List.take_zero, b64Groups,
        (b64Value_char (hfirst a)).1, (b64Value_char (secondSextet_lt a 0)).1, first_byte]
  | case4 => exact ⟨0, rfl, by decide, rfl⟩

/-- **Round trip.**  Decoding what was encoded gives the bytes back, and no others. -/
theorem base64_round_trip (x : Bytes) :
    upsgi_base64_decode (upsgi_base64_encode x) = some x := by
  obtain ⟨i, hsize, hmod, hgroups⟩ := encode_groups x
  rw [upsgi_base64_decode, hsize]
  dsimp only
  rw [if_neg hmod, hgroups]

end Upsgi
