import Upsgi.Core.Strings

/-! # Byte ranges

    `upsgi_parse_http_range` of `core/protocol.c` reads the first range of a
    `Range` header, and `upsgi_fix_range_for_size` of `core/utils.c` fits it to a
    file.  The numbers go through `upsgi_str_num`, which has no checks: a digit is
    whatever byte is there, and sums are taken in 64 bits.
-/

namespace Upsgi

open Framing (Bytes)
open List

/-! ### Numbers -/

/-- `str[i] - 48`, where `char` is signed. -/
def charDigit (c : UInt8) : Int :=
  (if c < 128 then (c.toNat : Int) else c.toNat - 256) - 48

/-- One round of the loop of `upsgi_str_num`, on `delta` and `num`. -/
def strNumRound (acc : Nat × Int) (c : UInt8) : Nat × Int :=
  let delta := acc.1 / 10
  (delta, (acc.2 + delta * charDigit c) % 2 ^ 64)

/-- `upsgi_str_num`.  `delta` is a `double` that is converted to `uint64_t`: the
    behaviour is undefined when `pow(10, len)` does not fit, and there is no result. -/
def upsgi_str_num (str : Bytes) : Option Int :=
  if 2 ^ 64 ≤ 10 ^ str.length then none
  else some (str.foldl strNumRound (10 ^ str.length, 0)).2

/-- The conversion to `int64_t`. -/
def toInt64 (x : Int) : Int :=
  x.bmod (2 ^ 64)

def INT64_MAX : Int := 2 ^ 63 - 1

/-! ### Ranges -/

/-- `enum upsgi_range`. -/
inductive RangeState where
  | notParsed
  | parsed
  | valid
  | invalid
  deriving DecidableEq, Repr

/-- `range_parsed`, `range_from` and `range_to` of a request. -/
structure ByteRange where
  parsed : RangeState
  range_from : Int
  range_to : Int
  deriving DecidableEq, Repr

/-- `range_to`, from the text behind the dash: `bytes=start-` has no end. -/
def parseRangeTo (last : Bytes) : Option Int :=
  if last = [] then some INT64_MAX else (upsgi_str_num last).map toInt64

/-- The bounds of `bytes=first-last`. -/
def parseRangeSpan (first last : Bytes) : Option ByteRange := do
  let range_from := toInt64 (← upsgi_str_num first)
  let range_to ← parseRangeTo last
  if range_from ≤ range_to then some ⟨.parsed, range_from, range_to⟩ else some ⟨.invalid, 0, 0⟩

/-- The suffix of `bytes=-last`, as a negative start.  The negation of the least
    `int64_t` overflows, which is undefined. -/
def parseRangeSuffix (last : Bytes) : Option ByteRange := do
  let num := toInt64 (← upsgi_str_num last)
  if num = -2 ^ 63 then none
  else if -num < 0 then some ⟨.parsed, -num, INT64_MAX⟩ else some ⟨.invalid, -num, 0⟩

/-- The part of `upsgi_parse_http_range` behind `bytes=`. -/
def parseRangeSpec (range : Bytes) : Option ByteRange :=
  if DASH ∉ range then some ⟨.invalid, 0, 0⟩
  else
    let first := range.takeWhile (· ≠ DASH)
    let last := range.drop (first.length + 1)
    if first ≠ [] then parseRangeSpan first last else parseRangeSuffix last

/-- The range that is read: a list of ranges is cut at its first comma. -/
def firstRange (buf : Bytes) : Bytes :=
  buf.takeWhile (· ≠ COMMA)

def upsgi_parse_http_range (buf : Bytes) : Option ByteRange :=
  let range := firstRange buf
  if range.length < 8 then some ⟨.invalid, 0, 0⟩
  else if EQUAL ∉ range then some ⟨.invalid, 0, 0⟩
  else if range.idxOf EQUAL ≠ 5 then some ⟨.invalid, 0, 0⟩
  else if range.take 5 ≠ lit "bytes" then some ⟨.invalid, 0, 0⟩
  else parseRangeSpec (range.drop 6)

def upsgi_fix_range_for_size (r : ByteRange) (size : Int) : ByteRange :=
  if r.parsed ≠ .parsed then r
  else
    let range_from := if r.range_from < 0 then size + r.range_from else r.range_from
    let range_to := if size - 1 < r.range_to then size - 1 else r.range_to
    if range_from = 0 ∧ range_to = size - 1 then ⟨.notParsed, range_from, range_to⟩
    else if range_from ≤ range_to then ⟨.valid, range_from, range_to⟩
    else ⟨.invalid, 0, 0⟩

/-- What a `Range` header means for a file. -/
def resolveRange (buf : Bytes) (size : Nat) : Option ByteRange :=
  (upsgi_parse_http_range buf).map fun r => upsgi_fix_range_for_size r size

/-! ### What a number is -/

/-- The number that a text stands for, when every byte is taken for a digit. -/
def textNum (text : Bytes) : Int :=
  text.foldl (fun v c => 10 * v + charDigit c) 0

def IsDigits (text : Bytes) : Prop :=
  ∀ c ∈ text, 48 ≤ c ∧ c ≤ 57

variable {str : Bytes}

section Numbers

theorem textNum_foldl (text : Bytes) (v : Int) :
    text.foldl (fun v c => 10 * v + charDigit c) v = v * 10 ^ text.length + textNum text := by
  unfold textNum
  induction text generalizing v with
  | nil => simp
  | cons c text ih =>
    rw [foldl_cons, foldl_cons, ih, ih (10 * 0 + charDigit c), length_cons]
    ring

theorem textNum_cons (c : UInt8) (text : Bytes) :
    textNum (c :: text) = charDigit c * 10 ^ text.length + textNum text := by
  show text.foldl (fun v c => 10 * v + charDigit c) (10 * 0 + charDigit c) = _
  rw [textNum_foldl, Int.mul_zero, Int.zero_add]

/-- The loop adds the number modulo 2^64, when it starts with the right power. -/
theorem strNumRound_foldl (str : Bytes) (num : Int) :
    (str.foldl strNumRound (10 ^ str.length, num)).2 % 2 ^ 64 = (num + textNum str) % 2 ^ 64 := by
  induction str generalizing num with
  | nil =>
    show num % 2 ^ 64 = (num + 0) % 2 ^ 64
    rw [Int.add_zero]
  | cons c str ih =>
    have hround : strNumRound (10 ^ (str.length + 1), num) c =
        (10 ^ str.length, (num + (10 ^ str.length : Nat) * charDigit c) % 2 ^ 64) := by
      unfold strNumRound
      rw [Nat.pow_succ, Nat.mul_div_cancel _ (by decide)]
    rw [length_cons, foldl_cons, hround, ih, Int.emod_add_emod, textNum_cons]
    congr 1
    push_cast
    ring

theorem upsgi_str_num_long (hlen : 19 < str.length) : upsgi_str_num str = none := by
  have hpow : 10 ^ 20 ≤ 10 ^ str.length := Nat.pow_le_pow_right (by decide) hlen
  exact if_pos (Nat.le_trans (by decide) hpow)

/-- Up to 19 digits the number is right, modulo 2^64. -/
theorem upsgi_str_num_short (hlen : str.length ≤ 19) :
    (upsgi_str_num str).map toInt64 = some (toInt64 (textNum str)) := by
  have hpow : 10 ^ str.length ≤ 10 ^ 19 := Nat.pow_le_pow_right (by decide) hlen
  have hmod := strNumRound_foldl str 0
  rw [Int.zero_add] at hmod
  unfold upsgi_str_num toInt64
  rw [if_neg (Nat.not_le.mpr (Nat.lt_of_le_of_lt hpow (by decide))), Option.map_some,
    ← Int.emod_bmod, ← Int.emod_bmod (textNum str)]
  exact congrArg (fun x => some (Int.bmod x (2 ^ 64))) hmod

theorem charDigit_eq {c : UInt8} (h : 48 ≤ c ∧ c ≤ 57) : charDigit c = c.toNat - 48 := by
  have hascii : c < 128 := Nat.lt_of_le_of_lt h.2 (by decide)
  unfold charDigit
  rw [if_pos hascii]

theorem charDigit_digit {c : UInt8} (h : 48 ≤ c ∧ c ≤ 57) : 0 ≤ charDigit c ∧ charDigit c ≤ 9 := by
  have hlo : 48 ≤ c.toNat := h.1
  have hhi : c.toNat ≤ 57 := h.2
  rw [charDigit_eq h]
  omega

/-- The number of a text of digits. -/
theorem textNum_digits {text : Bytes} (h : IsDigits text) :
    0 ≤ textNum text ∧ textNum text < 10 ^ text.length := by
  induction text with
  | nil => decide
  | cons c text ih =>
    obtain ⟨hlo, hhi⟩ := charDigit_digit (h c mem_cons_self)
    obtain ⟨hpos, hlt⟩ := ih fun c hc => h c (mem_cons_of_mem _ hc)
    rw [textNum_cons, length_cons, pow_succ]
    have hpow : (0 : Int) < 10 ^ text.length := Int.pow_pos (by decide)
    constructor
    · have := Int.mul_nonneg hlo (Int.le_of_lt hpow)
      omega
    · have := Int.mul_le_mul_of_nonneg_right hhi (Int.le_of_lt hpow)
      omega

theorem strNumRound_range (str : Bytes) {acc : Nat × Int} (h : 0 ≤ acc.2 ∧ acc.2 < 2 ^ 64) :
    0 ≤ (str.foldl strNumRound acc).2 ∧ (str.foldl strNumRound acc).2 < 2 ^ 64 := by
  induction str generalizing acc with
  | nil => exact h
  | cons c str ih =>
    exact ih ⟨Int.emod_nonneg _ (by decide), Int.emod_lt_of_pos _ (by decide)⟩

/-- A number is read as it is when its text has at most 19 digits. -/
theorem upsgi_str_num_digits (h : IsDigits str) (hlen : str.length ≤ 19) :
    upsgi_str_num str = some (textNum str) := by
  have hpow : 10 ^ str.length ≤ 10 ^ 19 := Nat.pow_le_pow_right (by decide) hlen
  have hpow' : (10 : Int) ^ str.length ≤ 10 ^ 19 := by exact_mod_cast hpow
  obtain ⟨hlo, hhi⟩ := textNum_digits h
  obtain ⟨hlo', hhi'⟩ := @strNumRound_range str (10 ^ str.length, 0)
    ⟨Int.le_refl 0, (by decide : (0 : Int) < 2 ^ 64)⟩
  have hmod := strNumRound_foldl str 0
  rw [Int.zero_add, Int.emod_eq_of_lt hlo' hhi', Int.emod_eq_of_lt hlo (by omega)] at hmod
  unfold upsgi_str_num
  rw [if_neg (Nat.not_le.mpr (Nat.lt_of_le_of_lt hpow (by decide))), hmod]

theorem toInt64_of_lt {x : Int} (hlo : 0 ≤ x) (hhi : x < 2 ^ 63) : toInt64 x = x := by
  unfold toInt64
  rw [Int.bmod_def]
  omega

theorem toInt64_of_ge {x : Int} (hlo : 2 ^ 63 ≤ x) (hhi : x < 2 ^ 64) : toInt64 x = x - 2 ^ 64 := by
  unfold toInt64
  rw [Int.bmod_def]
  omega

end Numbers

/-! ### What a range should be -/

/-- The first range of the header is `bytes=first-last`, where one of the two may be
    missing. -/
structure RangeOf (buf first last : Bytes) : Prop where
  shape : firstRange buf = lit "bytes=" ++ (first ++ DASH :: last)
  dash : DASH ∉ first
  given : first ≠ [] ∨ last ≠ []

/-- A decimal number of any number of digits. -/
def IsNumber (text : Bytes) : Prop :=
  text ≠ [] ∧ IsDigits text

/-- The bytes `lo` to `hi` are selected; the whole file may be reported as no range. -/
def Selects (r : ByteRange) (size : Nat) (lo hi : Int) : Prop :=
  (r.parsed = .valid ∧ r.range_from = lo ∧ r.range_to = hi) ∨
    (r.parsed = .notParsed ∧ lo = 0 ∧ hi = size - 1)

/-- A valid range is a range in the file. -/
def ByteRange.Inside (r : ByteRange) (size : Nat) : Prop :=
  r.parsed = .valid → 0 ≤ r.range_from ∧ r.range_from ≤ r.range_to ∧ r.range_to < size

/-- A range is resolved as its header says. -/
structure RangeRight (buf : Bytes) (size : Nat) (r : ByteRange) : Prop where
  inside : r.Inside size
  span : ∀ first last, RangeOf buf first last → IsNumber first → IsNumber last →
    textNum first ≤ textNum last → textNum first < size →
    Selects r size (textNum first) (min (textNum last) (size - 1))
  tail : ∀ first, RangeOf buf first [] → IsNumber first → textNum first < size →
    Selects r size (textNum first) (size - 1)
  suffix : ∀ last, RangeOf buf [] last → IsNumber last → 0 < textNum last →
    Selects r size (size - min (textNum last) size) (size - 1)
  beyond : ∀ first last, RangeOf buf first last → IsNumber first → last = [] ∨ IsNumber last →
    size ≤ textNum first → r.parsed = .invalid

/-- `range_to` for the text behind the dash. -/
def lastNum (last : Bytes) : Int :=
  if last = [] then INT64_MAX else toInt64 (textNum last)

/-- Where `bytes=first-last` is resolved as it should be: the numbers have at most 19
    characters, the end fits into 63 bits, and a start behind the end of the file is
    not read as a negative number that the size makes up for. -/
structure SpanFits (first last : Bytes) (size : Nat) : Prop where
  first_len : first.length ≤ 19
  last_len : last.length ≤ 19
  inside : toInt64 (textNum first) < -size → lastNum last < toInt64 (textNum first) + size
  last_fits : IsNumber first → IsNumber last → textNum first ≤ textNum last →
    textNum first < size → textNum last < 2 ^ 63
  beyond : IsNumber first → last = [] ∨ IsNumber last → size ≤ textNum first →
    (textNum first = 0 → lastNum last < 0) ∧
      (2 ^ 63 ≤ textNum first → lastNum last < toInt64 (textNum first) + size)

/-- Where `bytes=-last` is: no more bytes are asked for than there are. -/
structure SuffixFits (last : Bytes) (size : Nat) : Prop where
  last_len : last.length ≤ 19
  negates : toInt64 (textNum last) ≠ -2 ^ 63
  inside : toInt64 (textNum last) ≤ size
  last_fits : IsNumber last → textNum last ≤ size

def RangeFits (first last : Bytes) (size : Nat) : Prop :=
  if first ≠ [] then SpanFits first last size else SuffixFits last size

/-! ### The shape of a header -/

section Shape

variable {buf first last : Bytes}

theorem RangeOf.length (h : RangeOf buf first last) : 8 ≤ (firstRange buf).length := by
  have hgiven : 1 ≤ first.length + last.length := by
    rcases h.given with hf | hl
    · have := length_pos_of_ne_nil hf
      omega
    · have := length_pos_of_ne_nil hl
      omega
  rw [h.shape, length_append, length_append, length_cons]
  show 8 ≤ 6 + _
  omega

theorem parseRangeSpec_split (hdash : DASH ∉ first) :
    parseRangeSpec (first ++ DASH :: last) =
      if first ≠ [] then parseRangeSpan first last else parseRangeSuffix last := by
  have hmem : DASH ∈ first ++ DASH :: last := mem_append_right _ mem_cons_self
  have hlast : (first ++ DASH :: last).drop (first.length + 1) = last := by
    rw [drop_append, drop_of_length_le (Nat.le_succ _), Nat.add_sub_cancel_left]
    rfl
  unfold parseRangeSpec
  rw [if_neg (not_not_intro hmem)]
  dsimp only
  rw [takeWhile_ne_append last hdash, hlast]

/-- A header of the right shape. -/
theorem upsgi_parse_http_range_of (h : RangeOf buf first last) :
    upsgi_parse_http_range buf =
      if first ≠ [] then parseRangeSpan first last else parseRangeSuffix last := by
  have hlen := h.length
  unfold upsgi_parse_http_range
  rw [if_neg (Nat.not_lt.mpr hlen), h.shape]
  exact parseRangeSpec_split h.dash

/-- `memchr` finds the sign behind `bytes`, when that is where it is. -/
theorem range_behind_equal {range : Bytes} (hequal : EQUAL ∈ range) (hidx : range.idxOf EQUAL = 5)
    (hbytes : range.take 5 = lit "bytes") : range = lit "bytes=" ++ range.drop 6 := by
  obtain ⟨pre, post, hrange, hpre⟩ := eq_append_cons_of_mem hequal
  have hlen : pre.length = 5 := by
    rw [hrange, idxOf_append_of_notMem hpre, idxOf_cons_self, Nat.add_zero] at hidx
    exact hidx
  have htake : range.take 5 = pre := by
    rw [hrange, ← hlen, take_left]
  have hdrop : range.drop 6 = post := by
    rw [hrange, drop_append, drop_of_length_le (by omega), hlen]
    rfl
  rw [hdrop, hrange, ← htake, hbytes]
  rfl

/-- Any other header is invalid. -/
theorem upsgi_parse_http_range_not (h : ∀ first last, ¬ RangeOf buf first last) :
    upsgi_parse_http_range buf = some ⟨.invalid, 0, 0⟩ := by
  unfold upsgi_parse_http_range
  dsimp only
  split
  · rfl
  next hlen =>
  split
  · rfl
  next hequal =>
  split
  · rfl
  next hidx =>
  split
  · rfl
  next hbytes =>
  unfold parseRangeSpec
  split
  · rfl
  next hdash =>
  -- every check is passed, so the header has the shape
  exfalso
  have hrange := range_behind_equal (not_not.mp hequal) (not_not.mp hidx) (not_not.mp hbytes)
  obtain ⟨first, last, hspec, hfirst⟩ := eq_append_cons_of_mem (not_not.mp hdash)
  rw [hspec] at hrange
  refine h first last ⟨hrange, hfirst, ?_⟩
  by_contra hnone
  obtain ⟨rfl, rfl⟩ := not_or.mp hnone |>.imp not_not.mp not_not.mp
  rw [hrange] at hlen
  exact hlen (by decide)

end Shape

/-! ### The arithmetic of a span and of a suffix -/

/-- `range_from` and `range_to` of `bytes=first-last`, fitted to the file. -/
def spanRange (lo hi : Int) (size : Nat) : ByteRange :=
  upsgi_fix_range_for_size (if lo ≤ hi then ⟨.parsed, lo, hi⟩ else ⟨.invalid, 0, 0⟩) size

def suffixRange (num : Int) (size : Nat) : ByteRange :=
  upsgi_fix_range_for_size
    (if -num < 0 then ⟨.parsed, -num, INT64_MAX⟩ else ⟨.invalid, -num, 0⟩) size

section Arithmetic

variable {lo hi num : Int} {size : Nat}

theorem spanRange_of_lt (h : hi < lo) : spanRange lo hi size = ⟨.invalid, 0, 0⟩ := by
  unfold spanRange
  rw [if_neg (Int.not_le.mpr h)]
  rfl

/-- A span that is not empty, from the start `start` in the file. -/
theorem spanRange_of_le {start : Int} (h : lo ≤ hi)
    (hstart : (if lo < 0 then size + lo else lo) = start) :
    spanRange lo hi size =
      if start = 0 ∧ (size : Int) - 1 ≤ hi then ⟨.notParsed, start, min hi (size - 1)⟩
      else if start ≤ min hi (size - 1) then ⟨.valid, start, min hi (size - 1)⟩
      else ⟨.invalid, 0, 0⟩ := by
  have hto : (if (size : Int) - 1 < hi then (size : Int) - 1 else hi) = min hi (size - 1) := by
    omega
  have hwhole : min hi ((size : Int) - 1) = size - 1 ↔ (size : Int) - 1 ≤ hi := by omega
  unfold spanRange upsgi_fix_range_for_size
  rw [if_pos h, if_neg (fun h => h rfl)]
  simp only [hstart, hto, hwhole]

/-- A range in the file is selected. -/
theorem spanRange_selects (h0 : 0 ≤ lo) (hle : lo ≤ hi) (hsize : lo < size) :
    Selects (spanRange lo hi size) size lo (min hi (size - 1)) := by
  rw [spanRange_of_le hle (if_neg (Int.not_lt.mpr h0))]
  split
  · next hwhole => exact .inr ⟨rfl, hwhole.1, Int.min_eq_right hwhole.2⟩
  · rw [if_pos (by omega)]
    exact .inl ⟨rfl, rfl, rfl⟩

/-- A start that is not negative is invalid when it is not in the file, but for the
    start of an empty file. -/
theorem spanRange_beyond (hsize : size ≤ lo) :
    (spanRange lo hi size).parsed = .invalid ↔ (lo = 0 → hi < 0) := by
  rcases Int.lt_or_le hi lo with hlt | hle
  · rw [spanRange_of_lt hlt]
    exact ⟨fun _ h0 => h0 ▸ hlt, fun _ => rfl⟩
  · rw [spanRange_of_le hle (if_neg (by omega))]
    split
    · exact ⟨nofun, fun h => by omega⟩
    · rw [if_neg (by omega)]
      exact ⟨fun _ => by omega, fun _ => rfl⟩

/-- A negative start counts from the end of the file. -/
theorem spanRange_negative (h0 : lo < 0) :
    (spanRange lo hi size).parsed = .invalid ↔ hi < lo + size := by
  rcases Int.lt_or_le hi lo with hlt | hle
  · rw [spanRange_of_lt hlt]
    exact ⟨fun _ => by omega, fun _ => rfl⟩
  · rw [spanRange_of_le hle (if_pos h0)]
    split
    · exact ⟨nofun, fun h => by omega⟩
    · split
      · exact ⟨nofun, fun h => by omega⟩
      · exact ⟨fun _ => by omega, fun _ => rfl⟩

/-- Only a negative start can lead out of the file. -/
theorem spanRange_inside :
    (spanRange lo hi size).Inside size ↔ (lo < -size → hi < lo + size) := by
  rcases Int.lt_or_le hi lo with hlt | hle
  · rw [spanRange_of_lt hlt]
    exact ⟨fun _ _ => by omega, nofun⟩
  · obtain ⟨start, hstart⟩ : ∃ start, (if lo < 0 then size + lo else lo) = start := ⟨_, rfl⟩
    rw [spanRange_of_le hle hstart]
    split
    · exact ⟨fun _ _ => by omega, nofun⟩
    · split
      · constructor
        · intro h _
          have hinside := h rfl
          dsimp only at hinside
          omega
        · intro h _
          dsimp only
          omega
      · exact ⟨fun _ _ => by omega, nofun⟩

theorem suffixRange_of_pos (h : 0 < num) (hmax : size < 2 ^ 63) :
    suffixRange num size =
      if num = size then ⟨.notParsed, 0, size - 1⟩ else ⟨.valid, size - num, size - 1⟩ := by
  have hmax : (size : Int) - 1 < INT64_MAX := by
    unfold INT64_MAX
    omega
  have hneg : -num < 0 := by omega
  have hstart : (size : Int) + -num = size - num := by omega
  unfold suffixRange upsgi_fix_range_for_size
  rw [if_pos hneg, if_neg (fun h => h rfl)]
  dsimp only
  rw [if_pos hneg, if_pos hmax, hstart]
  split
  · next hwhole => rw [if_pos (by omega), hwhole.1]
  · rw [if_pos (by omega), if_neg (by omega)]

theorem suffixRange_of_nonpos (h : num ≤ 0) : suffixRange num size = ⟨.invalid, -num, 0⟩ := by
  unfold suffixRange
  rw [if_neg (by omega)]
  rfl

theorem suffixRange_inside (hmax : size < 2 ^ 63) :
    (suffixRange num size).Inside size ↔ num ≤ size := by
  rcases Int.lt_or_le 0 num with hpos | hnonpos
  · rw [suffixRange_of_pos hpos hmax]
    split
    · exact ⟨fun _ => by omega, nofun⟩
    · constructor
      · intro h
        have hinside := h rfl
        dsimp only at hinside
        omega
      · intro _ _
        dsimp only
        omega
  · rw [suffixRange_of_nonpos hnonpos]
    exact ⟨fun _ => by omega, nofun⟩

/-- A suffix selects the bytes up to the end, from a start that may be negative. -/
theorem suffixRange_selects (hpos : 0 < num) (hmax : size < 2 ^ 63) :
    Selects (suffixRange num size) size (size - num) (size - 1) := by
  rw [suffixRange_of_pos hpos hmax]
  split
  · exact .inr ⟨rfl, by omega, rfl⟩
  · exact .inl ⟨rfl, rfl, rfl⟩

end Arithmetic

/-! ### Headers and files -/

section Resolve

variable {buf first last : Bytes} {size : Nat} {r : ByteRange}

/-- The two texts of a header are determined by it. -/
theorem RangeOf.unique {first' last' : Bytes} (h : RangeOf buf first last)
    (h' : RangeOf buf first' last') : first' = first ∧ last' = last := by
  have hspec : first' ++ DASH :: last' = first ++ DASH :: last :=
    append_cancel_left (h'.shape.symm.trans h.shape)
  have hfirst : first' = first := by
    rw [← takeWhile_ne_append last' h'.dash, hspec, takeWhile_ne_append last h.dash]
  subst hfirst
  exact ⟨rfl, (List.cons.inj (append_cancel_left hspec)).2⟩

/-- The number of a text, as the header's fields hold it. -/
theorem upsgi_str_num_some (hlen : str.length ≤ 19) :
    ∃ num, upsgi_str_num str = some num ∧ toInt64 num = toInt64 (textNum str) :=
  Option.map_eq_some_iff.mp (upsgi_str_num_short hlen)

theorem parseRangeTo_short (hlast : last.length ≤ 19) : parseRangeTo last = some (lastNum last) := by
  unfold parseRangeTo lastNum
  split
  · rfl
  · exact upsgi_str_num_short hlast

theorem parseRangeSpan_short (hfirst : first.length ≤ 19) (hlast : last.length ≤ 19) :
    (parseRangeSpan first last).map (fun r => upsgi_fix_range_for_size r size) =
      some (spanRange (toInt64 (textNum first)) (lastNum last) size) := by
  obtain ⟨num, hnum, hfrom⟩ := upsgi_str_num_some hfirst
  unfold parseRangeSpan spanRange
  rw [hnum, parseRangeTo_short hlast, ← hfrom]
  show Option.map _ (if _ then _ else _) = _
  split <;> rfl

theorem parseRangeSuffix_short (hlast : last.length ≤ 19) (hneg : toInt64 (textNum last) ≠ -2 ^ 63) :
    (parseRangeSuffix last).map (fun r => upsgi_fix_range_for_size r size) =
      some (suffixRange (toInt64 (textNum last)) size) := by
  obtain ⟨num, hnum, hfrom⟩ := upsgi_str_num_some hlast
  rw [← hfrom] at hneg ⊢
  unfold parseRangeSuffix suffixRange
  rw [hnum]
  show Option.map _ (if _ then none else if _ then _ else _) = _
  rw [if_neg hneg]
  split <;> rfl

/-- A result is only defined for numbers of at most 19 characters. -/
theorem parseRangeSpan_some (h : parseRangeSpan first last = some r) :
    first.length ≤ 19 ∧ last.length ≤ 19 := by
  unfold parseRangeSpan at h
  constructor
  · by_contra hlong
    rw [upsgi_str_num_long (Nat.not_le.mp hlong)] at h
    nomatch h
  · by_contra hlong
    have hne : last ≠ [] := ne_nil_of_length_pos (by omega)
    have hto : parseRangeTo last = none := by
      unfold parseRangeTo
      rw [if_neg hne, upsgi_str_num_long (Nat.not_le.mp hlong)]
      rfl
    rw [hto] at h
    cases hnum : upsgi_str_num first with
    | none | some num =>
      rw [hnum] at h
      nomatch h

theorem parseRangeSuffix_some (h : parseRangeSuffix last = some r) :
    last.length ≤ 19 ∧ toInt64 (textNum last) ≠ -2 ^ 63 := by
  unfold parseRangeSuffix at h
  have hlast : last.length ≤ 19 := by
    by_contra hlong
    rw [upsgi_str_num_long (Nat.not_le.mp hlong)] at h
    nomatch h
  refine ⟨hlast, fun hmin => ?_⟩
  obtain ⟨num, hnum, hfrom⟩ := upsgi_str_num_some hlast
  rw [hnum] at h
  replace h : (if toInt64 num = -2 ^ 63 then none else _) = some r := h
  rw [if_pos (hfrom.trans hmin)] at h
  nomatch h

/-- A decimal number of at most 19 digits, and what becomes of it in 64 bits. -/
theorem IsNumber.toInt64 {text : Bytes} (h : IsNumber text) (hlen : text.length ≤ 19) :
    0 ≤ textNum text ∧ textNum text < 2 ^ 64 ∧
      (textNum text < 2 ^ 63 → toInt64 (textNum text) = textNum text) ∧
      (2 ^ 63 ≤ textNum text → toInt64 (textNum text) = textNum text - 2 ^ 64) := by
  obtain ⟨hpos, hlt⟩ := textNum_digits h.2
  have hpow : (10 : Int) ^ text.length ≤ 10 ^ 19 := by
    exact_mod_cast Nat.pow_le_pow_right (show 0 < 10 by decide) hlen
  have hfits : textNum text < 2 ^ 64 := by omega
  exact ⟨hpos, hfits, toInt64_of_lt hpos, fun hge => toInt64_of_ge hge hfits⟩

theorem lastNum_number (h : IsNumber last) : lastNum last = toInt64 (textNum last) :=
  if_neg h.1

/-- A span is right where it fits. -/
theorem spanRange_right (h : RangeOf buf first last) (hne : first ≠ []) (hsize : size < 2 ^ 63)
    (hfirst : first.length ≤ 19) (hlast : last.length ≤ 19) :
    RangeRight buf size (spanRange (toInt64 (textNum first)) (lastNum last) size) ↔
      SpanFits first last size := by
  constructor
  · intro hright
    refine ⟨hfirst, hlast, spanRange_inside.mp hright.inside, ?_, ?_⟩
    · intro hx hy hle hlt
      -- an end of 64 bits is negative, and no range at all
      by_contra hge
      obtain ⟨hpos, -, hsmall, -⟩ := hx.toInt64 hfirst
      obtain ⟨-, -, -, hbig⟩ := hy.toInt64 hlast
      have hsel := hright.span first last h hx hy hle hlt
      rw [hsmall (by omega), lastNum_number hy, hbig (Int.not_lt.mp hge),
        spanRange_of_lt (by have := (hy.toInt64 hlast).2.1; omega)] at hsel
      rcases hsel with ⟨hvalid, -⟩ | ⟨hnot, -⟩
      · nomatch hvalid
      · nomatch hnot
    · intro hx hy hbeyond
      obtain ⟨hpos, hfits, hsmall, hbig⟩ := hx.toInt64 hfirst
      have hinvalid := hright.beyond first last h hx hy hbeyond
      constructor
      · intro h0
        rw [hsmall (by omega), spanRange_beyond hbeyond] at hinvalid
        exact hinvalid h0
      · intro hge
        exact (spanRange_negative (by rw [hbig hge]; omega)).mp hinvalid
  · intro hfits
    refine ⟨spanRange_inside.mpr hfits.inside, ?_, ?_, ?_, ?_⟩
    · intro first' last' h' hx hy hle hlt
      obtain ⟨rfl, rfl⟩ := h.unique h'
      obtain ⟨hpos, -, hsmall, -⟩ := hx.toInt64 hfirst
      obtain ⟨-, -, hsmall', -⟩ := hy.toInt64 hlast
      rw [hsmall (by omega), lastNum_number hy, hsmall' (hfits.last_fits hx hy hle hlt)]
      exact spanRange_selects hpos hle hlt
    · intro first' h' hx hlt
      obtain ⟨rfl, rfl⟩ := h.unique h'
      obtain ⟨hpos, -, hsmall, -⟩ := hx.toInt64 hfirst
      have hmax : (size : Int) - 1 ≤ INT64_MAX := by
        unfold INT64_MAX
        omega
      have hsel : Selects (spanRange (textNum first') INT64_MAX size) size (textNum first')
          (min INT64_MAX (size - 1)) := spanRange_selects hpos (by omega) hlt
      rw [Int.min_eq_right hmax] at hsel
      rw [hsmall (by omega)]
      exact hsel
    · intro last' h'
      exact absurd (h.unique h').1.symm hne
    · intro first' last' h' hx hy hbeyond
      obtain ⟨rfl, rfl⟩ := h.unique h'
      obtain ⟨hpos, -, hsmall, hbig⟩ := hx.toInt64 hfirst
      obtain ⟨hempty, hnegative⟩ := hfits.beyond hx hy hbeyond
      rcases Int.lt_or_le (textNum first') (2 ^ 63) with hlt | hge
      · rw [hsmall hlt]
        exact (spanRange_beyond hbeyond).mpr hempty
      · refine (spanRange_negative ?_).mpr (hnegative hge)
        have := (hx.toInt64 hfirst).2.1
        omega

/-- A suffix is right where it fits. -/
theorem suffixRange_right (h : RangeOf buf [] last) (hsize : size < 2 ^ 63)
    (hlast : last.length ≤ 19) (hneg : toInt64 (textNum last) ≠ -2 ^ 63) :
    RangeRight buf size (suffixRange (toInt64 (textNum last)) size) ↔ SuffixFits last size := by
  constructor
  · intro hright
    have hinside := (suffixRange_inside hsize).mp hright.inside
    refine ⟨hlast, hneg, hinside, fun hy => ?_⟩
    obtain ⟨hpos, hfits, hsmall, hbig⟩ := hy.toInt64 hlast
    by_contra hgt
    rcases Int.lt_or_le (textNum last) (2 ^ 63) with hlt | hge
    · rw [hsmall hlt] at hinside
      exact hgt hinside
    · -- a negative number of bytes is invalid, and selects nothing
      have hsel := hright.suffix last h hy (by omega)
      rw [hbig hge, suffixRange_of_nonpos (by omega)] at hsel
      rcases hsel with ⟨hvalid, -⟩ | ⟨hnot, -⟩
      · nomatch hvalid
      · nomatch hnot
  · intro hfits
    refine ⟨(suffixRange_inside hsize).mpr hfits.inside, ?_, ?_, ?_, ?_⟩
    · intro first last' h' hx
      exact absurd (h.unique h').1 hx.1
    · intro first h' hx
      exact absurd (h.unique h').1 hx.1
    · intro last' h' hy hpos
      obtain ⟨-, rfl⟩ := h.unique h'
      have hle := hfits.last_fits hy
      rw [(hy.toInt64 hlast).2.2.1 (by omega), Int.min_eq_left hle]
      exact suffixRange_selects hpos hsize
    · intro first last' h' hx
      exact absurd (h.unique h').1 hx.1

/-- **A range is resolved as its header says, where it fits.** -/
theorem resolveRange_right (buf : Bytes) (hsize : size < 2 ^ 63) :
    (∃ r, resolveRange buf size = some r ∧ RangeRight buf size r) ↔
      ∀ first last, RangeOf buf first last → RangeFits first last size := by
  unfold resolveRange
  constructor
  · rintro ⟨r, hr, hright⟩ first last h
    rw [upsgi_parse_http_range_of h] at hr
    unfold RangeFits
    split at hr
    · next hne =>
      obtain ⟨p, hp, -⟩ := Option.map_eq_some_iff.mp hr
      obtain ⟨hfirst, hlast⟩ := parseRangeSpan_some hp
      rw [parseRangeSpan_short hfirst hlast] at hr
      cases hr
      rw [if_pos hne]
      exact (spanRange_right h hne hsize hfirst hlast).mp hright
    · next hnil =>
      obtain rfl := not_not.mp hnil
      obtain ⟨p, hp, -⟩ := Option.map_eq_some_iff.mp hr
      obtain ⟨hlast, hneg⟩ := parseRangeSuffix_some hp
      rw [parseRangeSuffix_short hlast hneg] at hr
      cases hr
      exact (suffixRange_right h hsize hlast hneg).mp hright
  · intro hfits
    by_cases hshape : ∃ first last, RangeOf buf first last
    · obtain ⟨first, last, h⟩ := hshape
      have hfit := hfits first last h
      rw [upsgi_parse_http_range_of h]
      unfold RangeFits at hfit
      split at hfit
      · next hne =>
        rw [if_pos hne, parseRangeSpan_short hfit.first_len hfit.last_len]
        exact ⟨_, rfl, (spanRange_right h hne hsize hfit.first_len hfit.last_len).mpr hfit⟩
      · next hnil =>
        obtain rfl := not_not.mp hnil
        rw [if_neg hnil, parseRangeSuffix_short hfit.last_len hfit.negates]
        exact ⟨_, rfl, (suffixRange_right h hsize hfit.last_len hfit.negates).mpr hfit⟩
    · have hnone : ∀ first last, ¬ RangeOf buf first last :=
        fun first last h => hshape ⟨first, last, h⟩
      rw [upsgi_parse_http_range_not hnone]
      refine ⟨_, rfl, nofun, ?_, ?_, ?_, ?_⟩
      · exact fun first last h => absurd h (hnone first last)
      · exact fun first h => absurd h (hnone first [])
      · exact fun last h => absurd h (hnone [] last)
      · exact fun first last h => absurd h (hnone first last)

end Resolve

/-- The bytes 2 to 5 of a file of ten. -/
theorem resolveRange_right_ten :
    ∃ r, resolveRange (lit "bytes=2-5") 10 = some r ∧ RangeRight (lit "bytes=2-5") 10 r := by
  refine (resolveRange_right (lit "bytes=2-5") (by decide)).mpr ?_
  intro first last h
  have htwo : RangeOf (lit "bytes=2-5") (lit "2") (lit "5") :=
    ⟨by decide, by decide, .inl (by decide)⟩
  obtain ⟨rfl, rfl⟩ := htwo.unique h
  exact ⟨by decide, by decide, (nofun), fun _ _ _ _ => by decide,
    nofun⟩

/-- A suffix longer than the file starts before the file. -/
theorem resolveRange_long_suffix :
    resolveRange (lit "bytes=-500") 100 = some ⟨.valid, -400, 99⟩ ∧
      ¬ ∃ r, resolveRange (lit "bytes=-500") 100 = some r ∧
        RangeRight (lit "bytes=-500") 100 r := by
  have hresolve : resolveRange (lit "bytes=-500") 100 = some ⟨.valid, -400, 99⟩ := by decide
  refine ⟨hresolve, ?_⟩
  rintro ⟨r, hr, hright⟩
  cases hr
  exact absurd (hright.inside rfl).1 (by decide)

-- an end of 64 bits, a number of 20 digits, and an empty file
example : resolveRange (lit "bytes=0-9223372036854775808") 10 = some ⟨.invalid, 0, 0⟩ := by decide
example : resolveRange (lit "bytes=00000000000000000001-5") 10 = none := by decide
example : resolveRange (lit "bytes=0-5") 0 = some ⟨.notParsed, 0, -1⟩ := by decide

end Upsgi
