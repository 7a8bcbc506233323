import Upsgi.Lib.Framing

/-! # FastCGI records and parameters

    A connection is a sequence of records.  A record has a header of eight bytes, a content of
    less than `2 ^ 16` bytes and a padding of less than `2 ^ 8` bytes.

    The contents of the parameter records together are one stream of names and values, each
    pair preceded by its two lengths.  A length is written in one byte, or with the highest bit
    set in four.  Where the stream is cut into records does not depend on the pairs.

    Nothing here depends on who writes or reads the records.
-/

namespace Fcgi

open Framing (Bytes Pair)
open List

/-! ### Records -/

/-- The content of two bytes, most significant byte first. -/
def be16 (a b : UInt8) : Nat :=
  256 * a.toNat + b.toNat

theorem be16_ofNat {n : Nat} (hn : n < 65536) :
    be16 (UInt8.ofNat (n / 256)) (UInt8.ofNat n) = n := by
  unfold be16
  rw [UInt8.toNat_ofNat', UInt8.toNat_ofNat']
  omega

structure Record where
  version : UInt8
  type : UInt8
  req1 : UInt8
  req0 : UInt8
  content : Bytes
  padding : Bytes
  reserved : UInt8
  content_lt : content.length < 65536
  padding_lt : padding.length < 256

namespace Record

def header (rec : Record) : Bytes :=
  [rec.version, rec.type, rec.req1, rec.req0, UInt8.ofNat (rec.content.length / 256),
    UInt8.ofNat rec.content.length, UInt8.ofNat rec.padding.length, rec.reserved]

/-- The bytes of a record. -/
def wire (rec : Record) : Bytes :=
  rec.header ++ (rec.content ++ rec.padding)

@[simp] theorem header_length (rec : Record) : rec.header.length = 8 := rfl

theorem wire_length (rec : Record) :
    rec.wire.length = 8 + rec.content.length + rec.padding.length := by
  rw [wire, length_append, length_append, header_length, Nat.add_assoc]

end Record

/-- The bytes of a sequence of records. -/
def wire (records : List Record) : Bytes :=
  records.flatMap Record.wire

@[simp] theorem wire_nil : wire [] = [] := rfl

@[simp] theorem wire_cons (rec : Record) (records : List Record) :
    wire (rec :: records) = rec.wire ++ wire records :=
  flatMap_cons

@[simp] theorem wire_append (records records' : List Record) :
    wire (records ++ records') = wire records ++ wire records' :=
  flatMap_append

/-! ### Records in progress -/

/-- A writer that owes `n` bytes of the last record.  Whatever these bytes will be, they
    complete `sent` to records of the kind `P` whose contents are `contents` and these bytes. -/
def Framed (P : Record → Prop) (n : Nat) (sent contents : Bytes) : Prop :=
  ∀ rest : Bytes, rest.length = n →
    ∃ records : List Record, (∀ rec ∈ records, P rec) ∧ sent ++ rest = wire records ∧
      records.flatMap Record.content = contents ++ rest

namespace Framed

variable {P : Record → Prop} {n : Nat} {sent contents : Bytes}

theorem nil : Framed P 0 [] [] := by
  intro rest hrest
  rw [length_eq_zero_iff.mp hrest]
  exact ⟨[], nofun, rfl, rfl⟩

/-- Between two records the bytes sent are records. -/
theorem records (h : Framed P 0 sent contents) :
    ∃ records : List Record, (∀ rec ∈ records, P rec) ∧ sent = wire records ∧
      records.flatMap Record.content = contents := by
  obtain ⟨records, hkind, hsent, hcontents⟩ := h [] rfl
  rw [append_nil] at hsent hcontents
  exact ⟨records, hkind, hsent, hcontents⟩

/-- A header opens a record, so it comes between two records. -/
theorem header {head : Bytes} (h : Framed P 0 sent contents)
    (hrecord : ∀ content : Bytes, content.length = n →
      ∃ rec : Record, P rec ∧ rec.content = content ∧ rec.wire = head ++ content) :
    Framed P n (sent ++ head) contents := by
  intro rest hrest
  obtain ⟨records, hkind, hsent, hcontents⟩ := h.records
  obtain ⟨rec, hrec, hcontent, hwire⟩ := hrecord rest hrest
  refine ⟨records ++ [rec], ?_, ?_, ?_⟩
  · intro rec' hmem
    rcases mem_append.mp hmem with hmem | hmem
    · exact hkind rec' hmem
    · exact mem_singleton.mp hmem ▸ hrec
  · rw [wire_append, wire_cons, wire_nil, append_nil, hwire, hsent, append_assoc]
  · rw [flatMap_append, flatMap_singleton, hcontent, hcontents]

theorem content (h : Framed P n sent contents) {bs : Bytes} (hbs : bs.length ≤ n) :
    Framed P (n - bs.length) (sent ++ bs) (contents ++ bs) := by
  intro rest hrest
  have hlength : (bs ++ rest).length = n := by
    rw [length_append, hrest]
    omega
  rw [append_assoc, append_assoc]
  exact h (bs ++ rest) hlength

end Framed

/-! ### Parameters -/

/-- The number in four bytes, most significant byte first. -/
def be32 (a b c d : UInt8) : Nat :=
  16777216 * a.toNat + 65536 * b.toNat + 256 * c.toNat + d.toNat

/-- The bytes of a length. -/
def lengthBytes (long : Bool) (n : Nat) : Bytes :=
  if long then
    [UInt8.ofNat (n / 16777216 + 128), UInt8.ofNat (n / 65536), UInt8.ofNat (n / 256), UInt8.ofNat n]
  else [UInt8.ofNat n]

/-- The four bytes of a length, without the bit that marks them. -/
theorem be32_lengthBytes {n : Nat} (hn : n < 2 ^ 31) :
    be32 (UInt8.ofNat (n / 16777216 + 128)) (UInt8.ofNat (n / 65536)) (UInt8.ofNat (n / 256))
      (UInt8.ofNat n) = 2 ^ 31 + n := by
  unfold be32
  rw [UInt8.toNat_ofNat', UInt8.toNat_ofNat', UInt8.toNat_ofNat', UInt8.toNat_ofNat']
  omega

/-- A name and a value, and whether their lengths are written in four bytes. -/
structure Param where
  name : Bytes
  value : Bytes
  longName : Bool
  longValue : Bool
  name_lt : name.length < if longName then 2 ^ 31 else 128
  value_lt : value.length < if longValue then 2 ^ 31 else 128

namespace Param

def pair (p : Param) : Pair :=
  (p.name, p.value)

/-- The bytes of a parameter. -/
def wire (p : Param) : Bytes :=
  lengthBytes p.longName p.name.length ++
    (lengthBytes p.longValue p.value.length ++ (p.name ++ p.value))

end Param

/-- The stream of parameters. -/
def params (ps : List Param) : Bytes :=
  ps.flatMap Param.wire

@[simp] theorem params_nil : params [] = [] := rfl

@[simp] theorem params_cons (p : Param) (ps : List Param) :
    params (p :: ps) = p.wire ++ params ps :=
  flatMap_cons

@[simp] theorem params_append (ps ps' : List Param) :
    params (ps ++ ps') = params ps ++ params ps' :=
  flatMap_append

/-! ### Cuts -/

/-- A cut is in the first part or behind it. -/
theorem append_cut {β : Type} {a b c : List β} (h : c <+: a ++ b) :
    (c <+: a ∧ c.length < a.length) ∨ ∃ c', c = a ++ c' ∧ c' <+: b := by
  by_cases hlen : c.length < a.length
  · exact .inl ⟨prefix_of_prefix_length_le h (prefix_append _ _) (Nat.le_of_lt hlen), hlen⟩
  · obtain ⟨c', rfl⟩ : a <+: c :=
      prefix_of_prefix_length_le (prefix_append _ _) h (Nat.le_of_not_lt hlen)
    exact .inr ⟨c', rfl, (prefix_append_right_inj _).mp h⟩

/-- The beginning of a concatenation is some of its parts and the beginning of the next. -/
theorem flatMap_cut {α β : Type} (f : α → List β) (l : List α) (c : List β)
    (h : c <+: l.flatMap f) :
    ∃ l₁ l₂ q, l = l₁ ++ l₂ ∧ c = l₁.flatMap f ++ q ∧
      (q = [] ∨ ∃ a l₃, l₂ = a :: l₃ ∧ q <+: f a ∧ q ≠ [] ∧ q.length < (f a).length) := by
  induction l generalizing c with
  | nil => exact ⟨[], [], [], rfl, prefix_nil.mp h, .inl rfl⟩
  | cons a l ih =>
    rcases append_cut h with ⟨hc, hlen⟩ | ⟨c', rfl, hc'⟩
    · refine ⟨[], a :: l, c, rfl, rfl, ?_⟩
      by_cases hnil : c = []
      · exact .inl hnil
      · exact .inr ⟨a, l, rfl, hc, hnil, hlen⟩
    · obtain ⟨l₁, l₂, q, rfl, rfl, hq⟩ := ih c' hc'
      exact ⟨a :: l₁, l₂, q, rfl, by rw [flatMap_cons, append_assoc], hq⟩

end Fcgi
