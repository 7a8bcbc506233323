import Upsgi.Core.Strings

/-! # HTTP header fields

    The header part of `proto/http.c`: recognising names and tokens, cutting
    a header line into name and value, and the table of fields in which
    repeated fields are merged or refused.
-/

namespace Upsgi

open Framing

/-! ### Names -/

/-- The character normalisation shared by `http_header_name_eq`,
    `http_header_normalize_name` and `http_add_upsgi_header`. -/
def http_header_char (c : UInt8) : UInt8 :=
  let c := if 97 ≤ c ∧ c ≤ 122 then c - 32 else c
  if c = DASH then UNDERSCORE else c

def http_header_normalize_name (key : Bytes) : Bytes :=
  key.map http_header_char

def http_header_name_eq (key normalized : Bytes) : Bool :=
  decide (http_header_normalize_name key = normalized)

/-- The list-style names of `http_header_allow_duplicate_merge`. -/
def mergeableNames : List Bytes :=
  [lit "ACCEPT", lit "ACCEPT_CHARSET", lit "ACCEPT_ENCODING", lit "ACCEPT_LANGUAGE",
   lit "CACHE_CONTROL", lit "CONNECTION", lit "FORWARDED", lit "IF_MATCH", lit "IF_NONE_MATCH",
   lit "PRAGMA", lit "TE", lit "TRAILER", lit "UPGRADE", lit "VIA", lit "WARNING",
   lit "X_FORWARDED_FOR"]

def http_header_allow_duplicate_merge (key : Bytes) : Bool :=
  mergeableNames.any (http_header_name_eq key)

def http_header_reject_duplicate (key : Bytes) : Bool :=
  if http_header_name_eq key (lit "HOST") then true
  else if http_header_name_eq key (lit "CONTENT_LENGTH") then true
  else if http_header_name_eq key (lit "CONTENT_TYPE") then true
  else if http_header_name_eq key (lit "TRANSFER_ENCODING") then true
  else if http_header_allow_duplicate_merge key then false
  else true

/-! ### Tokens -/

/-- A space or a tab. -/
def isBlank (c : UInt8) : Bool :=
  c = SP || c = TAB

/-- The scanning loop of `http_header_value_has_token`.  Every round consumes at
    least one byte, so the length of the value is enough fuel. -/
def http_header_value_has_token_loop (token : Bytes) : Nat → Bytes → Bool
  | 0, _ => false
  | fuel + 1, value =>
      match value.dropWhile (fun c => isBlank c || c = COMMA) with
      | [] => false
      | c :: rest =>
          let element := (c :: rest).takeWhile (fun c => c ≠ COMMA && c ≠ SEMICOLON)
          let trimmed := element.rdropWhile isBlank
          if trimmed.length = token.length ∧ upsgi_strnicmp trimmed token = 0 then true
          else
            http_header_value_has_token_loop token fuel
              (((c :: rest).drop element.length).dropWhile (· ≠ COMMA))

def http_header_value_has_token (value token : Bytes) : Bool :=
  http_header_value_has_token_loop token value.length value

def http_header_value_has_chunked_token (value : Bytes) : Bool :=
  http_header_value_has_token value (lit "chunked")

/-! ### Header lines -/

/-- A header line cut into name and value, with the `HTTP_` prefix flag. -/
structure HeaderLine where
  key : Bytes
  value : Bytes
  has_prefix : Bool
  deriving DecidableEq, Repr

/-- `http_header_to_cgi`: the name is what precedes the first colon, the value
    starts at the first byte behind it that is not a space.  Both must be
    there. -/
def http_header_to_cgi (hh : Bytes) : Option HeaderLine :=
  let key := hh.takeWhile (· ≠ COLON)
  let val := ((hh.drop key.length).drop 1).dropWhile (· = SP)
  if key = [] ∨ val = [] then none
  else
    some {
      key := key
      value := val
      has_prefix := decide (upsgi_strnicmp key (lit "Content-Length") ≠ 0 ∧
        upsgi_strnicmp key (lit "Content-Type") ≠ 0) }

/-! ### The header table -/

/-- `http_header_slot`, without the ownership flag of its value buffer. -/
abbrev HeaderSlot : Type := HeaderLine

/-- Two names that `http_header_table_find` does not tell apart. -/
def sameName (a b : Bytes) : Bool :=
  decide (a.length = b.length ∧ upsgi_strnicmp a b = 0)

/-- Merge a repeated field into its slot. -/
def mergeSlot (slot : HeaderSlot) (line : HeaderLine) : HeaderSlot :=
  { slot with value := upsgi_concat3n slot.value (lit ", ") line.value }

/-- Enter a field: `http_header_table_find` looks for the first slot of that
    name; a repeated field is refused or merged, a new one gets a slot at the
    end. -/
def tableAdd (line : HeaderLine) : List HeaderSlot → Option (List HeaderSlot)
  | [] => some [line]
  | slot :: slots =>
      if sameName slot.key line.key then
        if http_header_reject_duplicate line.key then none
        else some (mergeSlot slot line :: slots)
      else (tableAdd line slots).map (slot :: ·)

end Upsgi
