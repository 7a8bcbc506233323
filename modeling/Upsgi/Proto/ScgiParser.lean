import Upsgi.Core.Range
import Upsgi.Proto.AddVar
import Upsgi.Proto.HttpReader

/-! # Reading an SCGI request

    `upsgi_proto_scgi_parser` of `proto/scgi.c`.  A request is a netstring (the length of its
    content in decimal digits, `:`, the content, `,`) and a body.  The content is a sequence of
    names and values, each closed by a NUL.

    Each call reads to the end of `proto_parser_buf` and gives all of it to `scgi_parse`, which
    begins again at the first byte.  The function looks at the byte behind the content as soon
    as the content is complete, also when that byte was not read yet.
-/

namespace Upsgi

open Framing List

/-! ### The parser -/

/-- The loop over the content at some byte.  `key` and `value` are pointers, given here by the
    bytes from there to the present one. -/
structure ScgiScan where
  key : Option Bytes
  keylen : Nat := 0
  value : Option Bytes := none
  buffer : Bytes := []
  deriving DecidableEq, Repr

/-- A round of the loop. -/
def scgiByte (buffer_size : Nat) (s : ScgiScan) (c : UInt8) : Option ScgiScan :=
  let value := if s.key ≠ none ∧ 0 < s.keylen ∧ s.value = none then some [] else s.value
  let key := s.key.getD []
  if c = 0 then
    match value with
    | some value =>
        (addVar buffer_size s.buffer (key.take s.keylen, value)).map fun buffer =>
          { key := none, buffer := buffer }
    | none => some { s with key := some (key ++ [c]), keylen := key.length, value := none }
  else some { s with key := some (key ++ [c]), value := value.map (· ++ [c]) }

/-- What `scgi_parse` returns. -/
inductive ScgiParse where
  | more
  | invalid
  /-- The length has too many digits for `upsgi_str_num`. -/
  | undefined
  | parsed (buffer proto_parser_remains : Bytes)
  deriving DecidableEq, Repr

/-- `scgi_parse`.  Behind the bytes that were read, the buffer holds what was in its `memory`
    before.  Sums are of type `size_t`. -/
def scgi_parse (buffer_size : Nat) (memory : Nat → UInt8) (buf : Bytes) : ScgiParse :=
  let i := buf.findIdx (· == 58)
  if buf.length ≤ i then .more
  else
    match upsgi_str_num (buf.take i) with
    | none => .undefined
    | some num =>
        let scgi_len := num.toNat
        if scgi_len = 0 then .invalid
        -- the comma is not counted
        else if buf.length < (i + scgi_len + 1) % 2 ^ 64 then .more
        else
          let vars := i + 1
          let stop := max vars ((vars + scgi_len) % 2 ^ 64)
          let content := (buf.drop vars).take (stop - vars)
          match content.foldlM (scgiByte buffer_size) ⟨some [], 0, none, []⟩ with
          | none => .invalid
          | some scan =>
              -- `stop` can be the number of bytes that were read
              if buf.getD stop (memory stop) = 44 then .parsed scan.buffer (buf.drop (stop + 1))
              else .invalid

/-- The connection while the request is read. -/
structure ScgiReader where
  proto_parser_buf : Bytes
  unread : Bytes
  deriving DecidableEq, Repr

/-- A fresh connection. -/
def ScgiReader.fresh (stream : Bytes) : ScgiReader where
  proto_parser_buf := []
  unread := stream

inductive ScgiReturn where
  /-- `UPSGI_AGAIN`. -/
  | again (r : ScgiReader)
  | error
  | undefined
  /-- `UPSGI_OK`, with the packet and the connection that is left for the body. -/
  | ok (buffer : Bytes) (conn : Conn)

/-- One call of `upsgi_proto_scgi_parser`. -/
def upsgi_proto_scgi_parser_call (buffer_size : Nat) (memory : Nat → UInt8) (r : ScgiReader)
    (ev : SockRead) : ScgiReturn :=
  if buffer_size - r.proto_parser_buf.length = 0 then .error
  else
    match ev with
    | .wouldBlock => .again r
    | .error => .error
    | .data n =>
        let len := min (min n (buffer_size - r.proto_parser_buf.length)) r.unread.length
        if len = 0 then .error
        else
          let r : ScgiReader := ⟨r.proto_parser_buf ++ r.unread.take len, r.unread.drop len⟩
          match scgi_parse buffer_size memory r.proto_parser_buf with
          | .more => .again r
          | .invalid => .error
          | .undefined => .undefined
          | .parsed buffer proto_parser_remains => .ok buffer ⟨proto_parser_remains, r.unread⟩

/-- The calls that follow one another on a connection. -/
def readScgi (buffer_size : Nat) (memory : Nat → UInt8) : ScgiReader → List SockRead → ScgiReturn
  | r, [] => .again r
  | r, ev :: evs =>
      match upsgi_proto_scgi_parser_call buffer_size memory r ev with
      | .again r => readScgi buffer_size memory r evs
      | out => out

/-! ### Requests -/

/-- The content of the netstring. -/
def scgiContent (pairs : List Pair) : Bytes :=
  pairs.flatMap fun e => e.1 ++ [0] ++ (e.2 ++ [0])

/-- A request: the pairs, the text of the length, and the body. -/
structure ScgiRequest where
  pairs : List Pair
  digits : Bytes
  body : Bytes
  names : ∀ e ∈ pairs, e.1 ≠ []
  no_nul : ∀ e ∈ pairs, 0 ∉ e.1 ∧ 0 ∉ e.2
  digits_ne : digits ≠ []
  isDigits : IsDigits digits
  /-- A number does not begin with 0. -/
  canonical : digits.head? = some 48 → digits = [48]
  length : textNum digits = (scgiContent pairs).length

namespace ScgiRequest

/-- The netstring without its comma. -/
def netstring (req : ScgiRequest) : Bytes :=
  req.digits ++ 58 :: scgiContent req.pairs

/-- The bytes of the request. -/
def wire (req : ScgiRequest) : Bytes :=
  req.netstring ++ 44 :: req.body

end ScgiRequest

/-- The bytes that the reads bring. -/
def arrived (evs : List SockRead) : Nat :=
  (evs.map fun
    | .data n => n
    | _ => 0).sum

/-- No read ends just before the byte number `k`. -/
def NoReadEndsAt (k : Nat) (evs : List SockRead) : Prop :=
  ∀ evs₁, evs₁ <+: evs → arrived evs₁ ≠ k

/-- The request was read: the packet has its pairs in order, and the body is what comes next. -/
def ScgiReturn.Accepts (req : ScgiRequest) : ScgiReturn → Prop
  | .ok buffer conn => buffer = packet req.pairs ∧ conn.incoming = req.body
  | _ => False

/-! ### The content -/

section Scan

variable {buffer_size keylen : Nat} {buffer : Bytes}

/-- Without a name no value begins. -/
theorem scgiByte_name (key : Option Bytes) (c : UInt8) :
    scgiByte buffer_size ⟨key, 0, none, buffer⟩ c =
      if c = 0 then some ⟨some (key.getD [] ++ [c]), (key.getD []).length, none, buffer⟩
      else some ⟨some (key.getD [] ++ [c]), 0, none, buffer⟩ := by
  have hvalue : (if key ≠ none ∧ 0 < 0 ∧ (none : Option Bytes) = none then some [] else none) =
      (none : Option Bytes) :=
    if_neg fun h => Nat.lt_irrefl 0 h.2.1
  unfold scgiByte
  rw [hvalue]
  rfl

/-- Behind a name the value begins, with its NUL if it is empty. -/
theorem scgiByte_value (key : Bytes) (hpos : 0 < keylen) (value : Option Bytes) (c : UInt8) :
    scgiByte buffer_size ⟨some key, keylen, value, buffer⟩ c =
      if c = 0 then
        (addVar buffer_size buffer (key.take keylen, value.getD [])).map fun buffer =>
          ⟨none, 0, none, buffer⟩
      else some ⟨some (key ++ [c]), keylen, some (value.getD [] ++ [c]), buffer⟩ := by
  have hvalue : (if some key ≠ none ∧ 0 < keylen ∧ value = none then some [] else value) =
      some (value.getD []) := by
    cases value with
    | none => exact if_pos ⟨Option.some_ne_none key, hpos, rfl⟩
    | some value => exact if_neg fun h => Option.some_ne_none value h.2.2
  unfold scgiByte
  rw [hvalue]
  rfl

/-- A name and its NUL. -/
theorem scan_name {name : Bytes} (h : 0 ∉ name) (key : Option Bytes) :
    (name ++ [0]).foldlM (scgiByte buffer_size) ⟨key, 0, none, buffer⟩ =
      some ⟨some (key.getD [] ++ name ++ [0]), (key.getD [] ++ name).length, none, buffer⟩ := by
  induction name generalizing key with
  | nil =>
    rw [append_nil, nil_append, foldlM_cons, scgiByte_name, if_pos rfl]
    rfl
  | cons c name ih =>
    obtain ⟨hc, hname⟩ := ne_and_not_mem_of_not_mem_cons h
    have hrest := ih hname (some (key.getD [] ++ [c]))
    rw [Option.getD_some, append_assoc _ [c], singleton_append] at hrest
    rw [cons_append, foldlM_cons, scgiByte_name, if_neg (Ne.symm hc)]
    exact hrest

/-- A value and its NUL, behind a name. -/
theorem scan_value {val : Bytes} (h : 0 ∉ val) {key : Bytes} (hpos : 0 < keylen)
    (hlen : keylen ≤ key.length) (value : Option Bytes) :
    (val ++ [0]).foldlM (scgiByte buffer_size) ⟨some key, keylen, value, buffer⟩ =
      (addVar buffer_size buffer (key.take keylen, value.getD [] ++ val)).map fun buffer =>
        ⟨none, 0, none, buffer⟩ := by
  induction val generalizing key value with
  | nil =>
    rw [append_nil, nil_append, foldlM_cons, scgiByte_value key hpos, if_pos rfl]
    exact bind_pure _
  | cons c val ih =>
    obtain ⟨hc, hval⟩ := ne_and_not_mem_of_not_mem_cons h
    have hlen' : keylen ≤ (key ++ [c]).length := by
      rw [length_append]
      omega
    have hrest := ih hval hlen' (some (value.getD [] ++ [c]))
    rw [Option.getD_some, append_assoc, singleton_append, take_append_of_le_length hlen] at hrest
    rw [cons_append, foldlM_cons, scgiByte_value key hpos, if_neg (Ne.symm hc)]
    exact hrest

/-- The loop appends the pairs to the packet, and all that it keeps else is reset. -/
theorem scan_content {pairs : List Pair} (hnames : ∀ e ∈ pairs, e.1 ≠ [])
    (hnul : ∀ e ∈ pairs, 0 ∉ e.1 ∧ 0 ∉ e.2) (key : Option Bytes) (hkey : key.getD [] = []) :
    ((scgiContent pairs).foldlM (scgiByte buffer_size) ⟨key, 0, none, buffer⟩).map
      ScgiScan.buffer = addVars buffer_size buffer pairs := by
  induction pairs generalizing key buffer with
  | nil => rfl
  | cons e pairs ih =>
    obtain ⟨hname, hnames⟩ := forall_mem_cons.mp hnames
    obtain ⟨hnul, hnuls⟩ := forall_mem_cons.mp hnul
    have hpos : 0 < e.1.length := length_pos_iff.mpr hname
    have hlen : e.1.length ≤ (e.1 ++ [0]).length := by
      rw [length_append]
      omega
    unfold scgiContent
    rw [flatMap_cons, foldlM_append, foldlM_append, scan_name hnul.1, hkey,
      nil_append, Option.bind_eq_bind, Option.bind_some, scan_value hnul.2 hpos hlen,
      take_left, Option.getD_none, nil_append, addVars_cons]
    cases addVar buffer_size buffer (e.1, e.2) with
    | none => rfl
    | some buffer => exact ih hnames hnuls none rfl

end Scan

/-! ### The netstring -/

section Parse

variable {buffer_size : Nat} {memory : Nat → UInt8} {digits : Bytes}

theorem findIdx_digits (h : IsDigits digits) (rest : Bytes) :
    (digits ++ rest).findIdx (· == 58) = digits.length + rest.findIdx (· == 58) := by
  have hnone : digits.findIdx (· == 58) = digits.length := by
    refine findIdx_eq_length.mpr fun c hc => ?_
    obtain ⟨-, hhi⟩ := h c hc
    refine beq_eq_false_iff_ne.mpr ?_
    rintro rfl
    nomatch hhi
  rw [findIdx_append, hnone, if_neg (Nat.lt_irrefl _), Nat.add_comm]

theorem scgi_parse_digits (h : IsDigits digits) :
    scgi_parse buffer_size memory digits = .more := by
  have hend := findIdx_digits h []
  rw [append_nil] at hend
  unfold scgi_parse
  rw [hend]
  exact if_pos le_rfl

/-- What is made of the bytes behind the colon. -/
theorem scgi_parse_colon (h : IsDigits digits) (hlen : digits.length ≤ 19) {scgi_len : Nat}
    (hnum : textNum digits = scgi_len) (rest : Bytes) :
    scgi_parse buffer_size memory (digits ++ 58 :: rest) =
      if scgi_len = 0 then .invalid
      else if rest.length < scgi_len then .more
      else
        match (rest.take scgi_len).foldlM (scgiByte buffer_size) ⟨some [], 0, none, []⟩ with
        | none => .invalid
        | some scan =>
            if rest.getD scgi_len (memory (digits.length + 1 + scgi_len)) = 44 then
              .parsed scan.buffer (rest.drop (scgi_len + 1))
            else .invalid := by
  have hcolon : (digits ++ 58 :: rest).findIdx (· == 58) = digits.length :=
    findIdx_digits h (58 :: rest)
  have hsmall : scgi_len < 10 ^ 19 := by
    have hlt := (textNum_digits h).2
    have hpow : (10 : Int) ^ digits.length ≤ 10 ^ 19 := pow_le_pow_right₀ (by decide) hlen
    omega
  have hlength : (digits ++ 58 :: rest).length = digits.length + 1 + rest.length := by
    rw [length_append, length_cons]
    omega
  have hdrop (n : Nat) : (digits ++ 58 :: rest).drop (digits.length + 1 + n) = rest.drop n := by
    rw [Nat.add_assoc, drop_length_add_append, Nat.add_comm 1, drop_succ_cons]
  have hget (d : UInt8) : (digits ++ 58 :: rest).getD (digits.length + 1 + scgi_len) d =
      rest.getD scgi_len d := by
    rw [getD_append_right _ _ _ _ (by omega), Nat.add_assoc, Nat.add_sub_cancel_left,
      Nat.add_comm 1, getD_cons_succ]
  unfold scgi_parse
  rw [hcolon, if_neg (by omega), take_left, upsgi_str_num_digits h hlen, hnum]
  dsimp only
  rw [Int.toNat_natCast]
  by_cases hzero : scgi_len = 0
  · rw [if_pos hzero, if_pos hzero]
  · rw [if_neg hzero, if_neg hzero, Nat.mod_eq_of_lt (by omega), Nat.mod_eq_of_lt (by omega)]
    by_cases hmore : rest.length < scgi_len
    · rw [if_pos hmore, if_pos (by omega)]
    · have hstop : max (digits.length + 1) (digits.length + 1 + scgi_len) =
          digits.length + 1 + scgi_len := by omega
      rw [if_neg hmore, if_neg (by omega), hstop, Nat.add_sub_cancel_left, hget, hdrop 0,
        Nat.add_assoc _ scgi_len, hdrop, drop_zero]

end Parse

/-- What can be made of the first `n` bytes of a request.  When they end just before the comma,
    it depends on the byte that happens to be in the buffer. -/
inductive ScgiParseOk (buffer_size : Nat) (req : ScgiRequest) (n : Nat) : ScgiParse → Prop where
  | more (before : n < req.netstring.length) : ScgiParseOk buffer_size req n .more
  | invalid (why : req.pairs = [] ∨ addVars buffer_size [] req.pairs = none ∨
        n = req.netstring.length) :
      ScgiParseOk buffer_size req n .invalid
  | parsed (buffer : Bytes) (complete : req.netstring.length ≤ n) (nonempty : req.pairs ≠ [])
      (vars : addVars buffer_size [] req.pairs = some buffer) :
      ScgiParseOk buffer_size req n
        (.parsed buffer (req.body.take (n - req.netstring.length - 1)))

namespace ScgiRequest

variable {buffer_size : Nat} {memory : Nat → UInt8} (req : ScgiRequest)

theorem netstring_length :
    req.netstring.length = req.digits.length + 1 + (scgiContent req.pairs).length := by
  rw [netstring, length_append, length_cons]
  omega

theorem netstring_lt_wire : req.netstring.length < req.wire.length := by
  rw [wire, length_append, length_cons]
  omega

/-- A number with `n + 1` digits is at least `10 ^ n`. -/
theorem digits_length (hmem : req.netstring.length < 2 ^ 63) : req.digits.length ≤ 19 := by
  have hlength := req.length
  have hdigits := req.isDigits
  have hcanonical := req.canonical
  rw [netstring_length] at hmem
  generalize req.digits = digits at *
  cases digits with
  | nil => exact Nat.zero_le _
  | cons c digits =>
    by_contra hlong
    obtain ⟨hc, hrest⟩ := forall_mem_cons.mp hdigits
    have hfirst : 1 ≤ charDigit c := by
      have hne : c ≠ 48 := by
        rintro rfl
        have hone := congrArg List.length (hcanonical rfl)
        rw [length_cons, length_singleton] at hone
        rw [length_cons] at hlong
        omega
      have hne' : c.toNat ≠ 48 := fun h => hne (UInt8.toNat_inj.mp h)
      have hlo : 48 ≤ c.toNat := hc.1
      rw [charDigit_eq hc]
      omega
    rw [textNum_cons] at hlength
    have hpos := (textNum_digits hrest).1
    have hpow : (10 : Int) ^ 19 ≤ 10 ^ digits.length :=
      pow_le_pow_right₀ (by decide) (by rw [length_cons] at hlong; omega)
    have hmul := Int.mul_le_mul_of_nonneg_right hfirst (Int.le_trans (by decide) hpow)
    omega

theorem content_eq_nil : (scgiContent req.pairs).length = 0 ↔ req.pairs = [] := by
  cases req.pairs with
  | nil => exact ⟨fun _ => rfl, fun _ => rfl⟩
  | cons e pairs =>
    refine ⟨fun h => ?_, nofun⟩
    unfold scgiContent at h
    rw [flatMap_cons, length_append, length_append, length_append, length_singleton] at h
    omega

/-- The bytes behind the colon, `m` of them. -/
theorem wire_take (m : Nat) :
    req.wire.take (req.digits.length + 1 + m) =
      req.digits ++ 58 :: (scgiContent req.pairs ++ 44 :: req.body).take m := by
  rw [wire, netstring, append_assoc, cons_append, Nat.add_assoc,
    take_length_add_append, Nat.add_comm 1, take_succ_cons]

/-- The bytes behind the colon when the content is complete: the content, the byte behind it,
    and the beginning of the body. -/
theorem content_cut {content body : Bytes} {c d : UInt8} {m : Nat} (hm : content.length ≤ m) :
    ((content ++ c :: body).take m).take content.length = content ∧
      ((content ++ c :: body).take m).getD content.length d =
        (if m = content.length then d else c) ∧
      ((content ++ c :: body).take m).drop (content.length + 1) =
        body.take (m - content.length - 1) := by
  refine ⟨?_, ?_, ?_⟩
  · rw [take_take, Nat.min_eq_left hm, take_left]
  · rw [getD_eq_getElem?_getD]
    by_cases hend : m = content.length
    · rw [if_pos hend, getElem?_take_eq_none (Nat.le_of_eq hend)]
      rfl
    · rw [if_neg hend, getElem?_take_of_lt (by omega), getElem?_append_right le_rfl,
        Nat.sub_self]
      rfl
  · rw [drop_take, drop_length_add_append, Nat.sub_add_eq]
    rfl

/-- What `scgi_parse` makes of the first `n` bytes of a request. -/
theorem scgi_parse_ok (hmem : req.netstring.length < 2 ^ 63) (n : Nat) :
    ScgiParseOk buffer_size req n (scgi_parse buffer_size memory (req.wire.take n)) := by
  have hnet := req.netstring_length
  -- the part ends in the digits, or behind the colon
  by_cases hn : n ≤ req.digits.length
  · rw [wire, netstring, append_assoc, take_append_of_le_length hn,
      scgi_parse_digits fun c hc => req.isDigits c (mem_of_mem_take hc)]
    exact .more (by omega)
  · obtain ⟨m, rfl⟩ := Nat.le.dest (Nat.succ_le_of_lt (Nat.lt_of_not_le hn))
    rw [Nat.succ_eq_add_one, wire_take,
      scgi_parse_colon req.isDigits (req.digits_length hmem) req.length]
    by_cases hnil : (scgiContent req.pairs).length = 0
    · rw [if_pos hnil]
      exact .invalid (.inl (req.content_eq_nil.mp hnil))
    rw [if_neg hnil]
    by_cases hmore : m < (scgiContent req.pairs).length
    · rw [if_pos (Nat.lt_of_le_of_lt (length_take_le _ _) hmore)]
      exact .more (by omega)
    have hlen : (scgiContent req.pairs).length ≤
        ((scgiContent req.pairs ++ 44 :: req.body).take m).length := by
      rw [length_take, length_append]
      omega
    -- the content is complete; the byte behind it need not have been read
    obtain ⟨hcontent, hcomma, hbody⟩ := @content_cut (scgiContent req.pairs) req.body 44
      (memory (req.digits.length + 1 + (scgiContent req.pairs).length)) m (Nat.le_of_not_lt hmore)
    have hscan := @scan_content buffer_size [] req.pairs req.names req.no_nul (some []) rfl
    have hrest : m - (scgiContent req.pairs).length - 1 =
        req.digits.length + 1 + m - req.netstring.length - 1 := by omega
    rw [if_neg (Nat.not_lt.mpr hlen), hcontent, hcomma, hbody, hrest]
    cases hfold : (scgiContent req.pairs).foldlM (scgiByte buffer_size) ⟨some [], 0, none, []⟩ with
    | none =>
      rw [hfold] at hscan
      exact .invalid (.inr (.inl hscan.symm))
    | some scan =>
      rw [hfold] at hscan
      dsimp only
      by_cases hbyte : (if m = (scgiContent req.pairs).length then
          memory (req.digits.length + 1 + (scgiContent req.pairs).length) else 44) = 44
      · rw [if_pos hbyte]
        exact .parsed scan.buffer (by omega) (fun h => hnil (req.content_eq_nil.mpr h)) hscan.symm
      · -- the comma itself would do
        have hend : m = (scgiContent req.pairs).length := by
          by_contra hend
          exact hbyte (if_neg hend)
        rw [if_neg hbyte]
        exact .invalid (.inr (.inr (by omega)))

end ScgiRequest

/-! ### Reading -/

namespace ScgiRequest

variable {buffer_size : Nat} {memory : Nat → UInt8} (req : ScgiRequest)

/-- The connection when the first `n` bytes of the request were read. -/
def reader (n : Nat) : ScgiReader :=
  ⟨req.wire.take n, req.wire.drop n⟩

/-- A read makes the part that was read longer. -/
theorem call_data {n k : Nat} (hn : n < buffer_size) (hwire : n < req.wire.length) (hk : 0 < k) :
    upsgi_proto_scgi_parser_call buffer_size memory (req.reader n) (.data k) =
      match scgi_parse buffer_size memory
        (req.wire.take (min (n + k) (min buffer_size req.wire.length))) with
      | .more => .again (req.reader (min (n + k) (min buffer_size req.wire.length)))
      | .invalid => .error
      | .undefined => .undefined
      | .parsed buffer proto_parser_remains =>
          .ok buffer ⟨proto_parser_remains,
            req.wire.drop (min (n + k) (min buffer_size req.wire.length))⟩ := by
  have hlength : (req.wire.take n).length = n := length_take_of_le (Nat.le_of_lt hwire)
  have hlen : min (min k (buffer_size - n)) (req.wire.drop n).length =
      min (n + k) (min buffer_size req.wire.length) - n := by
    rw [length_drop]
    omega
  have hnext : n + (min (n + k) (min buffer_size req.wire.length) - n) =
      min (n + k) (min buffer_size req.wire.length) := by omega
  unfold upsgi_proto_scgi_parser_call reader
  dsimp only
  rw [hlength, if_neg (by omega), hlen, if_neg (by omega), ← take_add, drop_drop, hnext]

/-- The connection when too much of the request was read. -/
theorem wire_drop {n : Nat} (hn : req.netstring.length < n) :
    req.wire.drop n = req.body.drop (n - req.netstring.length - 1) := by
  obtain ⟨m, rfl⟩ := Nat.le.dest (Nat.succ_le_of_lt hn)
  rw [wire, Nat.succ_add, ← Nat.add_succ, drop_length_add_append, drop_succ_cons]
  congr 1
  omega

end ScgiRequest

theorem arrived_cons (ev : SockRead) (evs : List SockRead) :
    arrived (ev :: evs) = arrived [ev] + arrived evs := by
  unfold arrived
  rw [map_cons, sum_cons, map_singleton, sum_singleton]

section EndsAt

variable {k : Nat} {ev : SockRead} {evs : List SockRead}

theorem noReadEndsAt_cons (hk : 0 < k) :
    NoReadEndsAt k (ev :: evs) ↔ ∀ evs₁, evs₁ <+: evs → arrived [ev] + arrived evs₁ ≠ k := by
  constructor
  · intro h evs₁ hevs₁
    exact h (ev :: evs₁) (cons_prefix_cons.mpr ⟨rfl, hevs₁⟩)
  · intro h evs₁ hevs₁
    rcases prefix_cons_iff.mp hevs₁ with rfl | ⟨evs₂, rfl, hevs₂⟩
    · exact Nat.ne_of_lt hk
    · exact h evs₂ hevs₂

theorem noReadEndsAt_before (h : arrived [ev] < k) :
    NoReadEndsAt k (ev :: evs) ↔ NoReadEndsAt (k - arrived [ev]) evs := by
  rw [noReadEndsAt_cons (Nat.zero_lt_of_lt h)]
  refine forall₂_congr fun evs₁ _ => not_congr ?_
  omega

theorem not_noReadEndsAt (h : arrived [ev] = k) : ¬NoReadEndsAt k (ev :: evs) := by
  intro hends
  exact hends [ev] (cons_prefix_cons.mpr ⟨rfl, nil_prefix⟩) h

theorem noReadEndsAt_behind (hk : 0 < k) (h : k < arrived [ev]) : NoReadEndsAt k (ev :: evs) := by
  rw [noReadEndsAt_cons hk]
  intro evs₁ _
  omega

end EndsAt

/-- What a call can return when `n` bytes of the netstring were read before. -/
inductive ScgiCallOk (buffer_size : Nat) (req : ScgiRequest) (n : Nat) (ev : SockRead) :
    ScgiReturn → Prop where
  | again (before : n + arrived [ev] < req.netstring.length) :
      ScgiCallOk buffer_size req n ev (.again (req.reader (n + arrived [ev])))
  | error (why : req.pairs = [] ∨ addVars buffer_size [] req.pairs = none ∨
        n + arrived [ev] = req.netstring.length) :
      ScgiCallOk buffer_size req n ev .error
  /-- The byte that happens to be in the buffer is a comma, and the comma of the netstring is
      left for the body. -/
  | early (buffer : Bytes) (conn : Conn) (ends : n + arrived [ev] = req.netstring.length)
      (left : conn.incoming = 44 :: req.body) :
      ScgiCallOk buffer_size req n ev (.ok buffer conn)
  | ok (buffer : Bytes) (conn : Conn) (behind : req.netstring.length < n + arrived [ev])
      (nonempty : req.pairs ≠ []) (vars : addVars buffer_size [] req.pairs = some buffer)
      (left : conn.incoming = req.body) :
      ScgiCallOk buffer_size req n ev (.ok buffer conn)

namespace ScgiRequest

variable {buffer_size : Nat} {memory : Nat → UInt8} (req : ScgiRequest)

theorem call_ok {ev : SockRead} (hmem : req.netstring.length < 2 ^ 63)
    (hfits : req.netstring.length < buffer_size) (hev : ev.Delivers) {n : Nat}
    (hn : n < req.netstring.length) :
    ScgiCallOk buffer_size req n ev
      (upsgi_proto_scgi_parser_call buffer_size memory (req.reader n) ev) := by
  have hwire := req.netstring_lt_wire
  cases ev with
  | error => exact absurd hev id
  | wouldBlock =>
    have hcall : upsgi_proto_scgi_parser_call buffer_size memory (req.reader n) .wouldBlock =
        .again (req.reader n) := by
      unfold upsgi_proto_scgi_parser_call reader
      rw [length_take_of_le (by omega), if_neg (by omega)]
    rw [hcall]
    exact .again hn
  | data k =>
    have hk : arrived [.data k] = k := Nat.add_zero k
    have hparse := @scgi_parse_ok buffer_size memory req hmem
      (min (n + k) (min buffer_size req.wire.length))
    rw [req.call_data (by omega) (by omega) hev]
    generalize scgi_parse buffer_size memory _ = parse at hparse
    cases hparse with
    | more before =>
      have hpos : min (n + k) (min buffer_size req.wire.length) = n + arrived [.data k] := by omega
      rw [hpos] at before ⊢
      exact .again before
    | invalid why =>
      refine .error (why.imp_right (Or.imp_right fun hend => ?_))
      omega
    | parsed buffer complete nonempty vars =>
      by_cases hend : n + arrived [.data k] = req.netstring.length
      · have hpos : min (n + k) (min buffer_size req.wire.length) = req.netstring.length := by omega
        rw [hpos, Nat.sub_self]
        refine .early buffer _ hend ?_
        show [] ++ req.wire.drop _ = _
        rw [nil_append, wire, drop_left]
      · refine .ok buffer _ (by omega) nonempty vars ?_
        show _ ++ req.wire.drop _ = _
        rw [req.wire_drop (by omega), take_append_drop]

/-- Whether the rest of a request is accepted, where the netstring is not complete. -/
theorem readScgi_accepts_iff (hmem : req.netstring.length < 2 ^ 63)
    (hfits : req.netstring.length < buffer_size) (evs : List SockRead)
    (hevs : ∀ ev ∈ evs, ev.Delivers) {n : Nat} (hn : n < req.netstring.length)
    (hall : req.netstring.length < n + arrived evs) :
    (readScgi buffer_size memory (req.reader n) evs).Accepts req ↔
      req.pairs ≠ [] ∧ addVars buffer_size [] req.pairs = some (packet req.pairs) ∧
        NoReadEndsAt (req.netstring.length - n) evs := by
  induction evs generalizing n with
  | nil => exact absurd hall (Nat.not_lt.mpr (Nat.le_of_lt hn))
  | cons ev evs ih =>
    obtain ⟨hev, hevs'⟩ := forall_mem_cons.mp hevs
    have hcall := @call_ok buffer_size memory req ev hmem hfits hev n hn
    rw [arrived_cons] at hall
    unfold readScgi
    generalize upsgi_proto_scgi_parser_call buffer_size memory (req.reader n) ev = out at hcall
    cases hcall with
    | again before =>
      -- the only case with further calls: the netstring is still not complete
      rw [noReadEndsAt_before (by omega), Nat.sub_sub]
      exact ih hevs' before (by omega)
    | error why =>
      refine ⟨False.elim, ?_⟩
      rintro ⟨hne, hvars, hends⟩
      rcases why with hnil | hnone | hstop
      · exact hne hnil
      · nomatch hnone.symm.trans hvars
      · exact not_noReadEndsAt (by omega) hends
    | early buffer conn ends left =>
      constructor
      · -- the body would be one byte longer than it is
        rintro ⟨-, hbody⟩
        have hlength := congrArg List.length (left.symm.trans hbody)
        rw [length_cons] at hlength
        omega
      · rintro ⟨-, -, hends⟩
        exact absurd hends (not_noReadEndsAt (by omega))
    | ok buffer conn behind nonempty vars left =>
      constructor
      · rintro ⟨rfl, -⟩
        exact ⟨nonempty, vars, noReadEndsAt_behind (by omega) (by omega)⟩
      · rintro ⟨-, hvars, -⟩
        exact ⟨Option.some.inj (vars.symm.trans hvars), left⟩

end ScgiRequest

/-- A request whose netstring fits the buffer is read as it was sent exactly when it has
    variables, each of them has less than `2 ^ 16` bytes, the packet fits the buffer, and no
    read ends just before the comma. -/
theorem scgi_accepted_iff (buffer_size : Nat) (memory : Nat → UInt8) (req : ScgiRequest)
    (evs : List SockRead) (hmem : buffer_size < 2 ^ 63)
    (hfits : req.netstring.length < buffer_size) (hevs : ∀ ev ∈ evs, ev.Delivers)
    (hall : req.netstring.length < arrived evs) :
    (readScgi buffer_size memory (.fresh req.wire) evs).Accepts req ↔
      req.pairs ≠ [] ∧ (∀ e ∈ req.pairs, frameSize e < 65536) ∧
        packetSize req.pairs < buffer_size ∧ NoReadEndsAt req.netstring.length evs := by
  have hnonempty : 0 < req.netstring.length := by
    rw [req.netstring_length]
    omega
  have hiff := @ScgiRequest.readScgi_accepts_iff buffer_size memory req (Nat.lt_trans hfits hmem)
    hfits evs hevs 0 hnonempty (by omega)
  have hvars : req.pairs ≠ [] → (addVars buffer_size [] req.pairs = some (packet req.pairs) ↔
      (∀ e ∈ req.pairs, frameSize e < 65536) ∧ packetSize req.pairs < buffer_size) := by
    intro hne
    have hroom : ([] : Bytes).length + packetSize req.pairs = packetSize req.pairs := Nat.zero_add _
    constructor
    · intro h
      obtain ⟨hsmall, hroom'⟩ := small_of_addVars h
      exact ⟨hsmall, hroom ▸ hroom'.resolve_left hne⟩
    · rintro ⟨hsmall, hroom'⟩
      exact addVars_small (hroom.symm ▸ hroom') hsmall
  refine hiff.trans (and_congr_right fun hne => ?_)
  rw [hvars hne, and_assoc]
  rfl

/-- One variable `A` with the value `b`, and a body of one byte. -/
def ScgiRequest.small : ScgiRequest where
  pairs := [([65], [98])]
  digits := [52]
  body := [120]
  names := by decide
  no_nul := by decide
  digits_ne := by decide
  isDigits := fun _ hc => List.mem_singleton.mp hc ▸ ⟨by decide, by decide⟩
  canonical := by decide
  length := rfl

/-- The netstring in three reads, the last of them with the body. -/
theorem scgi_accepted_small :
    (readScgi 4096 (fun _ => 0) (.fresh ScgiRequest.small.wire)
      [.data 1, .wouldBlock, .data 3, .data 100]).Accepts .small := by
  refine (scgi_accepted_iff 4096 (fun _ => 0) .small _ (by decide) (by decide) (by decide)
    (by decide)).mpr ⟨by decide, by decide, by decide, ?_⟩
  refine (noReadEndsAt_before (by decide)).mpr ?_
  refine (noReadEndsAt_before (by decide)).mpr ?_
  refine (noReadEndsAt_before (by decide)).mpr ?_
  exact noReadEndsAt_behind (by decide) (by decide)

/-- The first read ends just before the comma: with a 0 in the buffer the request is refused,
    with a comma the body begins with the comma of the netstring. -/
theorem scgi_read_ends_at_comma :
    readScgi 4096 (fun _ => 0) (.fresh ScgiRequest.small.wire) [.data 6, .data 100] = .error ∧
    readScgi 4096 (fun _ => 44) (.fresh ScgiRequest.small.wire) [.data 6, .data 100] =
      .ok (packet ScgiRequest.small.pairs) ⟨[], [44, 120]⟩ :=
  ⟨rfl, rfl⟩

end Upsgi
