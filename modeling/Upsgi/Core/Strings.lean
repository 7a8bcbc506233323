import Upsgi.Lib.Framing

/-! # Sized string comparison

    The comparison helpers of `core/strings.c` and the C library functions
    they rest on.  A C buffer with its length is a byte list.  All four
    comparison functions return an integer that is zero on a match, and
    callers only test it against zero.
-/

namespace Upsgi

open Framing

/-! ### Bytes with a role in the protocols -/

abbrev TAB : UInt8 := 9
abbrev LF : UInt8 := 10
abbrev CR : UInt8 := 13
abbrev SP : UInt8 := 32
abbrev HASH : UInt8 := 35
abbrev PERCENT : UInt8 := 37
abbrev COMMA : UInt8 := 44
abbrev DASH : UInt8 := 45
abbrev DOT : UInt8 := 46
abbrev SLASH : UInt8 := 47
abbrev COLON : UInt8 := 58
abbrev SEMICOLON : UInt8 := 59
abbrev EQUAL : UInt8 := 61
abbrev QMARK : UInt8 := 63
abbrev UNDERSCORE : UInt8 := 95

/-- The bytes of an ASCII string literal of the source. -/
def lit (s : String) : Bytes :=
  s.toList.map fun c => c.toNat.toUInt8

/-! ### Scanning for a byte -/

section scanning

variable {c : UInt8} {a : Bytes}

theorem ne_of_mem_of_not_mem_bytes (h : c ∉ a) : ∀ x ∈ a, decide (x ≠ c) = true := by
  intro x hx
  rw [decide_eq_true_eq]
  intro hxc
  exact h (hxc ▸ hx)

theorem takeWhile_ne_append (b : Bytes) (h : c ∉ a) :
    (a ++ c :: b).takeWhile (· ≠ c) = a := by
  rw [List.takeWhile_append_of_pos (ne_of_mem_of_not_mem_bytes h),
    List.takeWhile_cons_of_neg (by simp), List.append_nil]

theorem takeWhile_ne_self (h : c ∉ a) : a.takeWhile (· ≠ c) = a :=
  List.takeWhile_eq_self_iff.mpr (ne_of_mem_of_not_mem_bytes h)

end scanning

/-! ### The C library -/

/-- `memcmp` on two buffers of the same length. -/
def memcmp : Bytes → Bytes → Int
  | a :: s, b :: t => if a = b then memcmp s t else (a.toNat : Int) - b.toNat
  | _, _ => 0

/-- `tolower` in the C locale. -/
def tolower (c : UInt8) : UInt8 :=
  if 65 ≤ c ∧ c ≤ 90 then c + 32 else c

/-- `strncasecmp` on two buffers of the same length: as a C string function
    it stops at a NUL byte both buffers share. -/
def strncasecmp : Bytes → Bytes → Int
  | a :: s, b :: t =>
      if tolower a = tolower b then
        if a = 0 then 0 else strncasecmp s t
      else ((tolower a).toNat : Int) - (tolower b).toNat
  | _, _ => 0

/-! ### `core/strings.c` -/

/-- `upsgi_strncmp`: fast compare of two sized strings. -/
def upsgi_strncmp (src dst : Bytes) : Int :=
  if src.length ≠ dst.length then 1 else memcmp src dst

/-- `upsgi_strnicmp`: the same, case insensitive. -/
def upsgi_strnicmp (src dst : Bytes) : Int :=
  if src.length ≠ dst.length then 1 else strncasecmp src dst

/-- `upsgi_starts_with`: sized check of the initial part of a string. -/
def upsgi_starts_with (src dst : Bytes) : Int :=
  if src.length < dst.length then -1 else memcmp (src.take dst.length) dst

/-- `upsgi_concat3n`: three sized strings in one buffer. -/
def upsgi_concat3n (one two three : Bytes) : Bytes :=
  one ++ two ++ three

/-! ### What a zero result means -/

theorem memcmp_eq_zero_iff : ∀ (s t : Bytes), s.length = t.length →
    (memcmp s t = 0 ↔ s = t)
  | [], [], _ => by simp [memcmp]
  | a :: s, b :: t, h => by
      have hlen : s.length = t.length := by simpa using h
      unfold memcmp
      split
      · next hab => simp [hab, memcmp_eq_zero_iff s t hlen]
      · next hab =>
        have hne : a.toNat ≠ b.toNat := fun he => hab (UInt8.toNat_inj.mp he)
        simp only [List.cons.injEq, hab, false_and, iff_false]
        omega

theorem upsgi_strncmp_eq_zero_iff (src dst : Bytes) :
    upsgi_strncmp src dst = 0 ↔ src = dst := by
  unfold upsgi_strncmp
  split
  · next h =>
    constructor
    · nofun
    · intro he
      exact absurd (congrArg List.length he) h
  · next h => exact memcmp_eq_zero_iff src dst (not_not.mp h)

/-- A zero result of `upsgi_starts_with` is exactly the list prefix relation. -/
theorem upsgi_starts_with_eq_zero_iff (src dst : Bytes) :
    upsgi_starts_with src dst = 0 ↔ dst <+: src := by
  unfold upsgi_starts_with
  split
  · next h =>
    constructor
    · intro h0
      omega
    · intro hp
      have := hp.length_le
      omega
  · next h =>
    rw [memcmp_eq_zero_iff _ _ (by simp; omega)]
    constructor
    · intro he
      rw [← he]
      exact List.take_prefix _ _
    · intro hp
      exact (List.prefix_iff_eq_take.mp hp).symm

/-- Case folding of a whole string. -/
def fold (s : Bytes) : Bytes :=
  s.map tolower

@[simp] theorem fold_length (s : Bytes) : (fold s).length = s.length := by
  simp [fold]

theorem tolower_eq_zero_iff (a : UInt8) : tolower a = 0 ↔ a = 0 := by
  unfold tolower
  split
  · next h =>
    constructor
    · intro h0
      have h1 : (a + 32).toNat = 0 := by rw [h0]; rfl
      have h2 := UInt8.le_iff_toNat_le.mp h.1
      have h3 := UInt8.le_iff_toNat_le.mp h.2
      have h4 : (a + 32).toNat = (a.toNat + 32) % 256 := by simp [UInt8.toNat_add]
      simp only [UInt8.reduceToNat] at h2 h3
      omega
    · intro h0
      rw [h0] at h
      nomatch h
  · exact Iff.rfl

/-- On strings of one length a shared fold gives a match. -/
theorem strncasecmp_eq_zero_of_fold : ∀ (s t : Bytes), fold s = fold t →
    strncasecmp s t = 0
  | [], t, _ => by simp [strncasecmp]
  | a :: s, [], h => by simp [fold] at h
  | a :: s, b :: t, h => by
      simp only [fold, List.map_cons, List.cons.injEq] at h
      unfold strncasecmp
      rw [if_pos h.1]
      split
      · rfl
      · exact strncasecmp_eq_zero_of_fold s t h.2

/-- A match against a string without NUL bytes is equality up to case. -/
theorem fold_eq_of_strncasecmp : ∀ (s t : Bytes), s.length = t.length → 0 ∉ t →
    strncasecmp s t = 0 → fold s = fold t
  | [], [], _, _, _ => rfl
  | a :: s, b :: t, hl, hn, h => by
      simp only [List.mem_cons, not_or] at hn
      unfold strncasecmp at h
      by_cases hab : tolower a = tolower b
      · have ha : a ≠ 0 := by
          intro ha
          have hb : tolower b = 0 := by rw [← hab, ha]; rfl
          exact hn.1 ((tolower_eq_zero_iff b).mp hb).symm
        rw [if_pos hab, if_neg ha] at h
        have ih := fold_eq_of_strncasecmp s t (by simpa using hl) hn.2 h
        simp only [fold, List.map_cons, hab, List.cons.injEq, true_and]
        exact ih
      · rw [if_neg hab] at h
        have hne : (tolower a).toNat ≠ (tolower b).toNat := fun he =>
          hab (UInt8.toNat_inj.mp he)
        omega

/-- `upsgi_strnicmp` against a string without NUL bytes is equality up to case. -/
theorem upsgi_strnicmp_eq_zero_iff (src dst : Bytes) (hn : 0 ∉ dst) :
    upsgi_strnicmp src dst = 0 ↔ fold src = fold dst := by
  unfold upsgi_strnicmp
  split
  · next h =>
    constructor
    · nofun
    · intro he
      exact absurd (by simpa using congrArg List.length he) h
  · next h =>
    exact ⟨fold_eq_of_strncasecmp src dst (not_not.mp h) hn, strncasecmp_eq_zero_of_fold src dst⟩

end Upsgi
