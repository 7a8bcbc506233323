import Upsgi.Body.Chunked
import Upsgi.Core.PacketGrammar

/-! # Key/value packets

    Packets that the server exchanges with itself (cache synchronisation, RPC
    contexts, emperor commands) are written with `upsgi_buffer_append_keyval`
    and read with `upsgi_hooked_parse`.  The reader has an error branch for each
    of its checks, so unlike the variable loop of a request it accepts packets
    of entries only.
-/

namespace Upsgi

open Framing List

/-! ### Writing -/

def upsgi_buffer_new (len : Nat) : UpsgiBuffer :=
  ⟨[], len, 0⟩

/-- By how much `upsgi_buffer_append` makes the buffer larger for `len` bytes:
    near the limit it is tried again with a minimal size. -/
def chunkSize (page_size : Nat) (ub : UpsgiBuffer) (len : Nat) : Nat :=
  let chunk_size := max len page_size
  if 0 < ub.limit ∧ ub.limit < ub.len + chunk_size ∧ len < page_size then len else chunk_size

/-- `upsgi_buffer_append`; `room` says whether `realloc` succeeds. -/
def upsgi_buffer_append (page_size : Nat) (ub : UpsgiBuffer) (buf : Bytes) (room : Bool) :
    Option UpsgiBuffer :=
  let remains := ub.len - ub.data.length
  if remains < buf.length then
    let chunk_size := chunkSize page_size ub buf.length
    if 0 < ub.limit ∧ ub.limit < ub.len + chunk_size then none
    else if room = false then none
    else some { ub with data := ub.data ++ buf, len := ub.len + chunk_size }
  else some { ub with data := ub.data ++ buf }

def upsgi_buffer_u16le (page_size : Nat) (ub : UpsgiBuffer) (num : UInt16) (room : Bool) :
    Option UpsgiBuffer :=
  upsgi_buffer_append page_size ub [(num &&& 0xff).toUInt8, ((num >>> 8) &&& 0xff).toUInt8] room

/-- `upsgi_buffer_append_keyval`; `room k` is for the append number `k`. -/
def upsgi_buffer_append_keyval (page_size : Nat) (ub : UpsgiBuffer) (key : Bytes) (keylen : UInt16)
    (val : Bytes) (vallen : UInt16) (room : Nat → Bool) : Option UpsgiBuffer :=
  match upsgi_buffer_u16le page_size ub keylen (room 0) with
  | none => none
  | some ub =>
      match upsgi_buffer_append page_size ub (key.take keylen.toNat) (room 1) with
      | none => none
      | some ub =>
          match upsgi_buffer_u16le page_size ub vallen (room 2) with
          | none => none
          | some ub => upsgi_buffer_append page_size ub (val.take vallen.toNat) (room 3)

/-- Pairs appended one after the other, each with what its allocations give. -/
def appendPairs (page_size : Nat) (ub : UpsgiBuffer) (calls : List (Pair × (Nat → Bool))) :
    Option UpsgiBuffer :=
  calls.foldlM (fun ub call =>
    upsgi_buffer_append_keyval page_size ub call.1.1 (UInt16.ofNat call.1.1.length) call.1.2
      (UInt16.ofNat call.1.2.length) call.2) ub

variable {page_size : Nat} {ub ub' : UpsgiBuffer}

theorem upsgi_buffer_append_data {buf : Bytes} {room : Bool}
    (h : upsgi_buffer_append page_size ub buf room = some ub') : ub'.data = ub.data ++ buf := by
  unfold upsgi_buffer_append at h
  dsimp only at h
  split at h
  · split at h
    · cases h
    · split at h
      · cases h
      · cases h
        rfl
  · cases h
    rfl

/-- Without a limit an append can only fail in `realloc`. -/
theorem upsgi_buffer_append_room (buf : Bytes) (hlimit : ub.limit = 0) :
    ∃ ub', upsgi_buffer_append page_size ub buf true = some ub' ∧ ub'.limit = 0 := by
  unfold upsgi_buffer_append
  dsimp only
  split
  · rw [if_neg (fun h => absurd h.1 (by omega)), if_neg nofun]
    exact ⟨_, rfl, hlimit⟩
  · exact ⟨_, rfl, hlimit⟩

theorem u16le_bytes (num : UInt16) :
    [(num &&& 0xff).toUInt8, ((num >>> 8) &&& 0xff).toUInt8] = le16 num.toNat := by
  have hmask : ∀ n, n % 256 &&& 255 = n % 256 := fun n =>
    (Nat.and_two_pow_sub_one_eq_mod _ 8).trans (Nat.mod_mod _ _)
  have hlow : (num &&& 0xff).toUInt8 = UInt8.ofNat num.toNat :=
    UInt8.toNat_inj.mp (by simp [hmask])
  have hhigh : ((num >>> 8) &&& 0xff).toUInt8 = UInt8.ofNat (num.toNat / 256) :=
    UInt8.toNat_inj.mp (by simp [hmask, Nat.shiftRight_eq_div_pow])
  rw [hlow, hhigh, le16]

theorem upsgi_buffer_append_keyval_data {e : Pair} {room : Nat → Bool} (he : Fits e)
    (h : upsgi_buffer_append_keyval page_size ub e.1 (UInt16.ofNat e.1.length) e.2
      (UInt16.ofNat e.2.length) room = some ub') : ub'.data = ub.data ++ frame e := by
  have hlen : ∀ n, n < 65536 → (UInt16.ofNat n).toNat = n := fun n hn =>
    (UInt16.toNat_ofNat').trans (Nat.mod_eq_of_lt hn)
  unfold upsgi_buffer_append_keyval upsgi_buffer_u16le at h
  rw [u16le_bytes, u16le_bytes, hlen _ he.1, hlen _ he.2, take_length, take_length] at h
  split at h
  · cases h
  · next ub1 h1 =>
    split at h
    · cases h
    · next ub2 h2 =>
      split at h
      · cases h
      · next ub3 h3 =>
        rw [upsgi_buffer_append_data h, upsgi_buffer_append_data h3, upsgi_buffer_append_data h2,
          upsgi_buffer_append_data h1]
        simp [frame]

theorem upsgi_buffer_append_keyval_room (e : Pair) (hlimit : ub.limit = 0) :
    ∃ ub', upsgi_buffer_append_keyval page_size ub e.1 (UInt16.ofNat e.1.length) e.2
      (UInt16.ofNat e.2.length) (fun _ => true) = some ub' ∧ ub'.limit = 0 := by
  unfold upsgi_buffer_append_keyval upsgi_buffer_u16le
  obtain ⟨ub1, h1, hlimit1⟩ := upsgi_buffer_append_room _ hlimit
  rw [h1]
  obtain ⟨ub2, h2, hlimit2⟩ := upsgi_buffer_append_room _ hlimit1
  dsimp only
  rw [h2]
  obtain ⟨ub3, h3, hlimit3⟩ := upsgi_buffer_append_room _ hlimit2
  dsimp only
  rw [h3]
  exact upsgi_buffer_append_room _ hlimit3

theorem appendPairs_data {calls : List (Pair × (Nat → Bool))} (hes : Entries (calls.map (·.1)))
    (h : appendPairs page_size ub calls = some ub') :
    ub'.data = ub.data ++ packet (calls.map (·.1)) := by
  induction calls generalizing ub with
  | nil =>
    cases h
    simp
  | cons call calls ih =>
    obtain ⟨he, hes⟩ := entries_cons.mp hes
    obtain ⟨ub1, h1, hrest⟩ := Option.bind_eq_some_iff.mp h
    rw [ih hes hrest, upsgi_buffer_append_keyval_data he.1 h1, map_cons, packet_cons,
      append_assoc]

theorem appendPairs_room (es : List Pair) (hlimit : ub.limit = 0) :
    ∃ ub', appendPairs page_size ub (es.map fun e => (e, fun _ => true)) = some ub' := by
  induction es generalizing ub with
  | nil => exact ⟨ub, rfl⟩
  | cons e es ih =>
    obtain ⟨ub1, h1, hlimit1⟩ := upsgi_buffer_append_keyval_room e hlimit
    obtain ⟨ub', hrest⟩ := ih hlimit1
    exact ⟨ub', Option.bind_eq_some_iff.mpr ⟨ub1, h1, hrest⟩⟩

/-! ### Reading -/

/-- One round of the loop of `upsgi_hooked_parse` on the bytes that are left:
    the pair and what is behind it, or `none` for `return -1`. -/
def hookedPair : Bytes → Option (Pair × Bytes)
  | a :: b :: c :: rest =>
      -- key cannot be null
      if fromLe16 a b = 0 then none
      else if (c :: rest).length < fromLe16 a b then none
      else
        match (c :: rest).drop (fromLe16 a b) with
        | x :: y :: rest' =>
            -- value can be null
            if rest'.length < fromLe16 x y then none
            else
              some (((c :: rest).take (fromLe16 a b), rest'.take (fromLe16 x y)),
                rest'.drop (fromLe16 x y))
        | _ => none
  | _ => none

/-- The loop of `upsgi_hooked_parse`: the data of the hook and the return value.
    `fuel` bounds the rounds; each takes bytes away. -/
def hookedLoop {σ : Type} (hook : σ → Pair → σ) : Nat → Bytes → σ → σ × Int
  | _, [], data => (data, 0)
  | 0, _ :: _, data => (data, -1)
  | fuel + 1, b :: buf, data =>
      match hookedPair (b :: buf) with
      | none => (data, -1)
      | some (e, rest) => hookedLoop hook fuel rest (hook data e)

def upsgi_hooked_parse {σ : Type} (hook : σ → Pair → σ) (buffer : Bytes) (data : σ) : σ × Int :=
  hookedLoop hook buffer.length buffer data

/-- A round finds what a round of the variable loop finds; only what it does
    when there is nothing to find differs. -/
theorem hookedPair_iff {buf rest : Bytes} {e : Pair} :
    hookedPair buf = some (e, rest) ↔ cutVar buf = .var e rest := by
  obtain _ | ⟨a, _ | ⟨b, _ | ⟨c, tail⟩⟩⟩ := buf
  iterate 3 simp [hookedPair, cutVar]
  rw [hookedPair, cutVar]
  by_cases hzero : fromLe16 a b = 0
  · simp [hzero]
  · rw [if_neg hzero, if_neg hzero]
    rcases Nat.lt_trichotomy (fromLe16 a b) (c :: tail).length with hlt | heq | hgt
    · rw [if_neg (by omega), if_pos hlt]
      rcases (c :: tail).drop (fromLe16 a b) with _ | ⟨x, _ | ⟨y, rest'⟩⟩
      iterate 2 simp [cutValue]
      rw [cutValue]
      dsimp only
      by_cases hval : fromLe16 x y ≤ rest'.length
      · rw [if_neg (by omega), if_pos hval]
        simp
      · rw [if_pos (by omega), if_neg hval]
        simp
    · -- the key would end with the buffer, where no length of a value is
      rw [if_neg (by omega), if_neg (by omega), heq, drop_length]
      simp
    · rw [if_pos hgt, if_neg (by omega)]
      simp

variable {σ : Type} (hook : σ → Pair → σ)

/-- The hook is called for each pair of a packet. -/
theorem hookedLoop_packet {es : List Pair} (hes : Entries es) (fuel : Nat) (data : σ)
    (hfuel : (packet es).length ≤ fuel) :
    hookedLoop hook fuel (packet es) data = (es.foldl hook data, 0) := by
  induction es generalizing fuel data with
  | nil =>
    unfold hookedLoop
    rfl
  | cons e es ih =>
    obtain ⟨he, hes⟩ := entries_cons.mp hes
    have hpair : hookedPair (packet (e :: es)) = some (e, packet es) :=
      hookedPair_iff.mpr (cutVar_frame e _ he.1 he.2)
    have hlt := (cutVar_var (hookedPair_iff.mp hpair)).2.2
    cases fuel with
    | zero => omega
    | succ fuel =>
      have hne : packet (e :: es) ≠ [] := ne_nil_of_length_pos (by omega)
      obtain ⟨b, buf, hbuf⟩ := exists_cons_of_ne_nil hne
      rw [hbuf] at hpair ⊢
      unfold hookedLoop
      rw [hpair]
      exact ih hes fuel (hook data e) (by omega)

/-- A buffer that is accepted is a packet of the pairs the hook was called
    for. -/
theorem packet_of_hookedLoop (fuel : Nat) (buf : Bytes) (data out : σ)
    (h : hookedLoop hook fuel buf data = (out, 0)) :
    ∃ es, Entries es ∧ buf = packet es ∧ out = es.foldl hook data := by
  induction fuel generalizing buf data with
  | zero =>
    cases buf with
    | nil => exact ⟨[], entries_nil, rfl, (congrArg Prod.fst h).symm⟩
    | cons b buf => nomatch congrArg Prod.snd h
  | succ fuel ih =>
    cases buf with
    | nil => exact ⟨[], entries_nil, rfl, (congrArg Prod.fst h).symm⟩
    | cons b buf =>
      unfold hookedLoop at h
      split at h
      · nomatch congrArg Prod.snd h
      · next e rest hpair =>
        have hcut := hookedPair_iff.mp hpair
        obtain ⟨hfits, hkey, -⟩ := cutVar_var hcut
        obtain ⟨es, hes, rfl, rfl⟩ := ih rest (hook data e) h
        exact ⟨e :: es, entries_cons.mpr ⟨⟨hfits, hkey⟩, hes⟩, cutVar_var_eq hcut, rfl⟩

/-! ### The round trip -/

/-- A hook that keeps the pairs it is called for. -/
def reportPair (es : List Pair) (e : Pair) : List Pair :=
  es ++ [e]

theorem foldl_reportPair (es fs : List Pair) : fs.foldl reportPair es = es ++ fs := by
  induction fs generalizing es with
  | nil => simp
  | cons e fs ih =>
    rw [foldl_cons, ih]
    simp [reportPair]

/-- What was written pair by pair is read pair by pair, and only what could have
    been written is accepted. -/
theorem keyval_packet_round_trip (page_size : Nat) :
    (∀ (calls : List (Pair × (Nat → Bool))) (len limit : Nat) (ub : UpsgiBuffer),
        Entries (calls.map (·.1)) → appendPairs page_size ⟨[], len, limit⟩ calls = some ub →
          ∀ (σ : Type) (hook : σ → Pair → σ) (data : σ),
            upsgi_hooked_parse hook ub.data data = ((calls.map (·.1)).foldl hook data, 0)) ∧
      ∀ (buffer : Bytes) (es : List Pair), upsgi_hooked_parse reportPair buffer [] = (es, 0) →
        Entries es ∧
          ∃ ub, appendPairs page_size (upsgi_buffer_new 0) (es.map fun e => (e, fun _ => true)) =
            some ub ∧ ub.data = buffer := by
  constructor
  · intro calls len limit ub hes happend σ hook data
    have hdata := appendPairs_data hes happend
    rw [hdata]
    exact hookedLoop_packet hook hes _ data le_rfl
  · intro buffer es hparse
    obtain ⟨fs, hfs, rfl, hout⟩ := packet_of_hookedLoop reportPair _ buffer [] es hparse
    rw [foldl_reportPair, nil_append] at hout
    subst hout
    refine ⟨hfs, ?_⟩
    obtain ⟨ub, happend⟩ := appendPairs_room es (show (upsgi_buffer_new 0).limit = 0 from rfl)
    refine ⟨ub, happend, ?_⟩
    have hmap : (es.map fun e => ((e, fun _ => true) : Pair × (Nat → Bool))).map (·.1) = es := by
      rw [map_map]
      exact map_id es
    have hdata := appendPairs_data (hmap.symm ▸ hfs) happend
    rw [hmap] at hdata
    exact hdata

end Upsgi
