import Upsgi.Body.Boundary
import Upsgi.Body.Reader

/-! # Kept connections

    A connection that is kept is read again from the first byte that was not
    taken off it.  For the next request this has to be the first byte behind the
    body.  Nothing in `upsgi_proto_http11_close` looks at the decoder, so this
    depends on what the application did with it.
-/

namespace Upsgi

open Framing List

/-! ### Bodies -/

/-- The body a request has on the wire. -/
inductive BodyKind where
  | none
  | length (n : Nat)
  | chunked
  deriving DecidableEq, Repr

def IsBody : BodyKind → Bytes → Prop
  | .none, body => body = []
  | .length n, body => body.length = n
  | .chunked, body => ChunkedCoding.Seq body

/-- The head records the body the request has. -/
def RecordsBody (head : Head) : BodyKind → Prop
  | .none => head.post_cl = 0 ∧ head.body_is_chunked = false
  | .length n => head.post_cl = n ∧ head.body_is_chunked = false
  | .chunked => head.post_cl = 0 ∧ head.body_is_chunked = true

/-- The next byte read from the connection is the first one behind the body. -/
def AtBoundary (kind : BodyKind) (stream : Bytes) (st : BodyState) : Prop :=
  ∃ body, IsBody kind body ∧ stream = body ++ st.conn.unread

/-- No byte was taken off the connection for a websocket. -/
def NoWebsocket (st : BodyState) : Prop :=
  st.websocket.getD [] = []

/-- The decoder was not used on a body without chunks, and holds exactly the
    rest of a chunked one. -/
def Settled (kind : BodyKind) (stream : Bytes) (st : BodyState) : Prop :=
  match kind with
  | .chunked =>
      (∃ body tail, ChunkedCoding.Seq body ∧ stream = body ++ tail) ∧
        ∃ d, st.chunked_input = some d ∧ d.HoldsRest
  | _ => ∀ d, st.chunked_input = some d → ¬d.Used

/-! ### Reads of a whole length -/

variable {bound : Nat → Nat} {cfg : BodyConfig} {head : Head} {st st' : BodyState}
    {stream tail : Bytes}

/-- The loop takes bytes from the front of the connection, `n` at most, and
    exactly `n` when it completes. -/
theorem readAll_spec (hbound : ∀ n, bound n ≤ n) (stored : Recv → Bool) :
    ∀ (recvs : List Recv) (conn : Conn) (n : Nat),
      (readAll bound stored recvs conn n).2.1 ++ (readAll bound stored recvs conn n).1.incoming =
          conn.incoming ∧
        (readAll bound stored recvs conn n).2.1.length ≤ n ∧
        ((readAll bound stored recvs conn n).2.2 = true →
          (readAll bound stored recvs conn n).2.1.length = n) := by
  intro recvs
  induction recvs with
  | nil =>
    intro conn n
    cases n with
    | zero => exact ⟨rfl, Nat.le_refl 0, fun _ => rfl⟩
    | succ n => exact ⟨rfl, Nat.zero_le _, nofun⟩
  | cons recv recvs ih =>
    intro conn n
    cases n with
    | zero => exact ⟨rfl, Nat.le_refl 0, fun _ => rfl⟩
    | succ n =>
      have hread := readBody_incoming conn (bound (n + 1)) recv
      have hlen := readBody_length conn (bound (n + 1)) recv
      unfold readAll
      generalize readBody conn (bound (n + 1)) recv = out at hread hlen ⊢
      obtain ⟨conn', got⟩ := out
      dsimp only at hread hlen ⊢
      have hle : got.length ≤ n + 1 := by
        have := hbound (n + 1)
        omega
      split
      · rename_i hnil
        subst hnil
        exact ⟨hread, Nat.zero_le _, nofun⟩
      · split
        · exact ⟨hread, hle, nofun⟩
        · have hrest := ih conn' (n + 1 - got.length)
          generalize readAll bound stored recvs conn' (n + 1 - got.length) = out at hrest ⊢
          obtain ⟨conn'', more, complete⟩ := out
          dsimp only at hrest ⊢
          obtain ⟨hmore, hmoreLen, hcomplete⟩ := hrest
          rw [length_append, append_assoc, hmore]
          refine ⟨hread, by omega, ?_⟩
          intro h
          have := hcomplete h
          omega

/-! ### Reads of a body with a length -/

/-- The connection and everything that takes bytes off it besides
    `upsgi_request_body_read` are left alone. -/
structure SameConnection (st st' : BodyState) : Prop where
  conn : st'.conn = st.conn
  chunked_input : st'.chunked_input = st.chunked_input
  websocket : st'.websocket = st.websocket
  aborted : st'.aborted = st.aborted

theorem SameConnection.refl (st : BodyState) : SameConnection st st :=
  ⟨rfl, rfl, rfl, rfl⟩

/-- A seek moves positions only. -/
theorem upsgi_request_body_seek_do_same (cfg : BodyConfig) (head : Head) (pos : Int)
    (whence : Whence) (st : BodyState) :
    SameConnection st (upsgi_request_body_seek_do cfg head pos whence st).1 := by
  unfold upsgi_request_body_seek_do
  split
  · dsimp only
    split <;> exact ⟨rfl, rfl, rfl, rfl⟩
  · split
    · dsimp only
      split <;> exact ⟨rfl, rfl, rfl, rfl⟩
    · exact .refl st

/-- With post buffering a read does not touch the connection. -/
theorem upsgi_request_body_read_buffered (hplain : head.body_is_chunked = false)
    (hbuffering : 0 < cfg.post_buffering) (hint : Nat) (env : ReadEnv) (st : BodyState) :
    SameConnection st (upsgi_request_body_read cfg head hint env st).1 := by
  unfold upsgi_request_body_read
  rw [if_neg (by rw [hplain]; decide)]
  dsimp only
  generalize (if head.post_cl < ((if hint = 0 then head.post_cl else hint) + st.post_pos) % 2 ^ 64
    then head.post_cl - st.post_pos else if hint = 0 then head.post_cl else hint) = remains
  unfold readFile
  repeat' split
  all_goals exact ⟨rfl, rfl, rfl, rfl⟩

/-- Without post buffering a read advances `post_pos` by what it takes off the
    connection, and not past the length of the body. -/
theorem upsgi_request_body_read_plain (hplain : head.body_is_chunked = false)
    (hbuffering : cfg.post_buffering = 0) (hfile : st.post_file = none)
    (hpos : st.post_pos ≤ head.post_cl) (hsmall : st.post_pos < 2 ^ 63) (hint : Nat)
    (env : ReadEnv) :
    ∃ conn got, got ++ conn.incoming = st.conn.incoming ∧
      st.post_pos + got.length ≤ head.post_cl ∧
      (upsgi_request_body_read cfg head hint env st).1 =
        { st with conn := conn, post_pos := st.post_pos + got.length } := by
  have hnothing : ∃ conn got, got ++ conn.incoming = st.conn.incoming ∧
      st.post_pos + got.length ≤ head.post_cl ∧
      st = { st with conn := conn, post_pos := st.post_pos + got.length } :=
    ⟨st.conn, [], rfl, hpos, rfl⟩
  unfold upsgi_request_body_read
  rw [if_neg (by rw [hplain]; decide)]
  dsimp only
  generalize hremains : (if head.post_cl <
    ((if hint = 0 then head.post_cl else hint) + st.post_pos) % 2 ^ 64
    then head.post_cl - st.post_pos else if hint = 0 then head.post_cl else hint) = remains
  split
  · exact hnothing
  · split
    · exact hnothing
    · split
      case h_2 file hsome => cases hfile.symm.trans hsome
      rw [if_neg (by omega)]
      split
      · exact hnothing
      · rename_i hholds
        have hlt : remains < 2 ^ 63 := by
          simp only [ReadEnv.holds, Bool.and_eq_false_iff, decide_eq_false_iff_not, not_or,
            not_not] at hholds
          exact hholds.2
        -- a sum that fits has not wrapped around
        have hle : st.post_pos + remains ≤ head.post_cl := by
          generalize (if hint = 0 then head.post_cl else hint) = asked at hremains
          split at hremains
          · omega
          · rename_i hfits
            omega
        have hspec := readAll_spec (fun n => Nat.le_refl (id n)) (fun _ => true) env.recvs
          st.conn remains
        unfold readSocket
        generalize readAll id (fun _ => true) env.recvs st.conn remains = out at hspec ⊢
        obtain ⟨conn, bytes, complete⟩ := out
        obtain ⟨hread, hlen, -⟩ := hspec
        dsimp only at hlen
        exact ⟨conn, bytes, hread, by omega, rfl⟩

/-! ### What a step can do -/

/-- Every step is a read, a call of the decoder, a seek or a websocket read; of
    the last one only the bytes it takes off the connection matter. -/
theorem bodyStep_cases {event : BodyEvent} (h : bodyStep cfg head st event = some st') :
    st.aborted = false ∧
      ((∃ hint env, st' = (upsgi_request_body_read cfg head hint env st).1) ∨
        (∃ call conn d result,
          upsgi_chunked_read cfg.toChunkedConfig call st.conn st.chunked_input = (conn, d, result) ∧
            st' = { st with conn := conn, chunked_input := some d }) ∨
        (∃ pos whence, st' = (upsgi_request_body_seek_do cfg head pos whence st).1) ∨
        ∃ conn got, got ++ conn.incoming = st.conn.incoming ∧
          st' = { st with conn := conn, websocket := some (st.websocket.getD [] ++ got) }) := by
  unfold bodyStep at h
  split at h
  · cases h
  · rename_i hrunning
    refine ⟨Bool.eq_false_iff.mpr hrunning, ?_⟩
    cases event with
    | read hint env => exact .inl ⟨hint, env, (Option.some.inj h).symm⟩
    | chunkedRead call => exact .inr (.inl ⟨call, _, _, _, rfl, (Option.some.inj h).symm⟩)
    | seek pos whence => exact .inr (.inr (.inl ⟨pos, whence, (Option.some.inj h).symm⟩))
    | websocketRecv len recv =>
      exact .inr (.inr (.inr ⟨_, _, upsgi_proto_base_read_body_incoming st.conn len recv.ready,
        (Option.some.inj h).symm⟩))

/-! ### Steps on a body with a length -/

/-- No byte went to the decoder or to a websocket. -/
def Untapped (st : BodyState) : Prop :=
  (∀ d, st.chunked_input = some d → ¬d.Used) ∧ NoWebsocket st

/-- How many bytes of the body were taken off the connection. -/
def bodyTaken (cfg : BodyConfig) (head : Head) (st : BodyState) : Nat :=
  if cfg.post_buffering = 0 then st.post_pos else head.post_cl

/-- What holds during a request whose body has a length: the bytes that are gone
    are those of the body and those the decoder and websockets took. -/
structure LengthInv (cfg : BodyConfig) (head : Head) (stream : Bytes) (st : BodyState) : Prop where
  aborted : st.aborted = true → st.post_pos = 0 ∧ 0 < head.post_cl
  taken : st.aborted = false → ∃ taken extra, stream = taken ++ st.conn.incoming ∧
    taken.length = bodyTaken cfg head st + extra ∧ (extra = 0 ↔ Untapped st)
  sound : ∀ d, st.chunked_input = some d → d.Sound
  plain : cfg.post_buffering = 0 → st.post_file = none ∧ st.post_pos ≤ head.post_cl

section

variable (h : LengthInv cfg head stream st)
include h

/-- A step that takes nothing off the connection. -/
theorem LengthInv.same (hsame : SameConnection st st') (hbuffering : 0 < cfg.post_buffering)
    (hrunning : st.aborted = false) :
    LengthInv cfg head stream st' := by
  obtain ⟨hconn, hchunked, hwebsocket, haborted⟩ := hsame
  refine ⟨?_, ?_, ?_, ?_⟩
  · intro hab
    rw [haborted, hrunning] at hab
    cases hab
  · intro _
    obtain ⟨taken, extra, hstream, hlen, hextra⟩ := h.taken hrunning
    refine ⟨taken, extra, by rw [hconn, hstream], ?_, ?_⟩
    · unfold bodyTaken at hlen ⊢
      rw [if_neg (by omega)] at hlen ⊢
      exact hlen
    · rw [hextra, Untapped, Untapped, NoWebsocket, NoWebsocket, hchunked, hwebsocket]
  · rw [hchunked]
    exact h.sound
  · intro hzero
    omega

/-- A step that takes bytes for the decoder or for a websocket: `Untapped` ends
    with the first of them. -/
theorem LengthInv.tap (hrunning : st.aborted = false) (haborted : st'.aborted = false)
    (hpos : st'.post_pos = st.post_pos) (hfile : st'.post_file = st.post_file)
    (hsound : ∀ d, st'.chunked_input = some d → d.Sound) {got : Bytes}
    (hgot : got ++ st'.conn.incoming = st.conn.incoming)
    (huntapped : Untapped st' ↔ Untapped st ∧ got = []) :
    LengthInv cfg head stream st' := by
  refine ⟨?_, ?_, hsound, ?_⟩
  · intro hab
    rw [haborted] at hab
    cases hab
  · intro _
    obtain ⟨taken, extra, hstream, hlen, hextra⟩ := h.taken hrunning
    refine ⟨taken ++ got, extra + got.length, ?_, ?_, ?_⟩
    · rw [append_assoc, hgot, hstream]
    · unfold bodyTaken at hlen ⊢
      rw [hpos, length_append]
      omega
    · rw [huntapped, ← hextra, Nat.add_eq_zero_iff, length_eq_zero_iff]
  · rw [hpos, hfile]
    exact h.plain

/-- The decoder of a request is sound, also before it is allocated. -/
theorem LengthInv.decoder_sound :
    (st.chunked_input.getD (Decoder.new cfg.toChunkedConfig)).Sound := by
  cases hd : st.chunked_input with
  | none => exact ⟨nofun, nofun⟩
  | some d => exact h.sound d hd

end

/-- The decoder of a request was not used exactly when the one it would be used
    with was not. -/
theorem unused_iff (cfg : ChunkedConfig) (chunked_input : Option Decoder) :
    (∀ d, chunked_input = some d → ¬d.Used) ↔ ¬(chunked_input.getD (Decoder.new cfg)).Used := by
  cases chunked_input with
  | none => simp [Decoder.Used, Decoder.new]
  | some d => simp

theorem bodyStep_length (hplain : head.body_is_chunked = false) (hstream : stream.length < 2 ^ 63)
    (st : BodyState) (event : BodyEvent) (st' : BodyState) (h : LengthInv cfg head stream st)
    (hstep : bodyStep cfg head st event = some st') : LengthInv cfg head stream st' := by
  obtain ⟨hrunning, ⟨hint, env, rfl⟩ | ⟨call, conn, d, result, hcall, rfl⟩ |
    ⟨pos, whence, rfl⟩ | ⟨conn, got, hgot, rfl⟩⟩ := bodyStep_cases hstep
  · -- a read
    by_cases hbuffering : cfg.post_buffering = 0
    · obtain ⟨hfile, hle⟩ := h.plain hbuffering
      obtain ⟨taken, extra, htaken, hlen, hextra⟩ := h.taken hrunning
      have hbody : bodyTaken cfg head st = st.post_pos := if_pos hbuffering
      have hsmall : st.post_pos < 2 ^ 63 := by
        have := congrArg List.length htaken
        rw [length_append] at this
        omega
      obtain ⟨conn, got, hgot, hgotLe, heq⟩ :=
        upsgi_request_body_read_plain hplain hbuffering hfile hle hsmall hint env
      rw [heq]
      refine ⟨?_, ?_, h.sound, fun _ => ⟨hfile, hgotLe⟩⟩
      · intro hab
        nomatch hrunning.symm.trans hab
      · intro _
        refine ⟨taken ++ got, extra, ?_, ?_, hextra⟩
        · rw [append_assoc, hgot, htaken]
        · have : bodyTaken cfg head { st with conn := conn, post_pos := st.post_pos + got.length } =
              st.post_pos + got.length := if_pos hbuffering
          rw [this, length_append]
          omega
    · have hpos : 0 < cfg.post_buffering := Nat.pos_of_ne_zero hbuffering
      exact h.same (upsgi_request_body_read_buffered hplain hpos hint env st) hpos hrunning
  · -- a call of the decoder
    have htook := upsgi_chunked_read_took cfg.toChunkedConfig call st.conn st.chunked_input
      h.decoder_sound
    rw [hcall] at htook
    obtain ⟨hsound, got, hgot, hused⟩ := htook
    refine h.tap hrunning hrunning rfl rfl ?_ hgot ?_
    · intro d' hd'
      cases hd'
      exact hsound
    · rw [Untapped, Untapped, unused_iff cfg.toChunkedConfig, unused_iff cfg.toChunkedConfig]
      show ¬d.Used ∧ NoWebsocket st ↔ _
      tauto
  · -- a seek
    by_cases hbuffering : cfg.post_buffering = 0
    · obtain ⟨hfile, -⟩ := h.plain hbuffering
      unfold upsgi_request_body_seek_do
      split
      · rename_i file hsome
        cases hfile.symm.trans hsome
      · rw [if_neg (by omega)]
        exact h
    · have hpos : 0 < cfg.post_buffering := Nat.pos_of_ne_zero hbuffering
      exact h.same (upsgi_request_body_seek_do_same cfg head pos whence st) hpos hrunning
  · -- a websocket read
    refine h.tap hrunning hrunning rfl rfl h.sound hgot ?_
    simp only [Untapped, NoWebsocket, Option.getD_some, append_eq_nil_iff]
    tauto

/-! ### Steps on a chunked body -/

/-- What holds during a request with a chunked body, while no websocket takes
    bytes: the decoder keeps track of the body, from its beginning on. -/
structure ChunkedInv (cfg : BodyConfig) (stream tail : Bytes) (st : BodyState) : Prop where
  unallocated : NoWebsocket st → st.chunked_input = none → st.conn.incoming = stream
  tracks : NoWebsocket st →
    Tracks tail st.conn (st.chunked_input.getD (Decoder.new cfg.toChunkedConfig))

section

variable {cfg : ChunkedConfig} (I : Conn → Option Decoder → Prop)
    (hread : ∀ call conn chunked_input, I conn chunked_input →
      I (upsgi_chunked_read cfg call conn chunked_input).1
        (some (upsgi_chunked_read cfg call conn chunked_input).2.1))
include hread

/-- What every call of the decoder preserves, a loop of calls preserves. -/
theorem smartLoop_invariant (calls : Nat → ChunkedCall) (room : Nat → Bool) (ret : Bytes)
    (rounds : Nat) :
    ∀ (remains : Nat) (conn : Conn) (chunked_input : Option Decoder) (buf : Bytes),
      I conn chunked_input →
      I (smartLoop cfg calls room ret rounds remains conn chunked_input buf).1
        (smartLoop cfg calls room ret rounds remains conn chunked_input buf).2.1 := by
  induction rounds with
  | zero => exact fun _ _ _ _ h => h
  | succ rounds ih =>
    intro remains conn chunked_input buf h
    have hnext := hread (calls rounds) conn chunked_input h
    unfold smartLoop
    split
    · exact h
    · generalize upsgi_chunked_read cfg (calls rounds) conn chunked_input = out at hnext ⊢
      obtain ⟨conn₁, d₁, result⟩ := out
      cases result with
      | fail | finished => exact hnext
      | chunk data =>
        dsimp only
        split
        · exact hnext
        · split
          · exact hnext
          · exact ih _ conn₁ (some d₁) _ hnext

theorem upsgi_chunked_read_smart_invariant (calls : Nat → ChunkedCall) (room : Nat → Bool)
    (len : Nat) {conn : Conn} {chunked_input : Option Decoder} (buf : Bytes)
    (h : I conn chunked_input) :
    I (upsgi_chunked_read_smart cfg calls room len conn chunked_input buf).1
      (upsgi_chunked_read_smart cfg calls room len conn chunked_input buf).2.1 := by
  unfold upsgi_chunked_read_smart
  split
  · exact h
  · exact smartLoop_invariant I hread calls room _ _ _ _ _ _ h

end

theorem ChunkedInv.call (h : ChunkedInv cfg stream tail st) (call : ChunkedCall) :
    let out := upsgi_chunked_read cfg.toChunkedConfig call st.conn st.chunked_input
    ChunkedInv cfg stream tail { st with conn := out.1, chunked_input := some out.2.1 } :=
  ⟨nofun, fun hws => upsgi_chunked_read_tracks _ call st.conn st.chunked_input (h.tracks hws)⟩

theorem readChunked_inv (hint : Nat) (env : ReadEnv) (h : ChunkedInv cfg stream tail st) :
    ChunkedInv cfg stream tail (readChunked cfg hint env st).1 := by
  unfold readChunked
  dsimp only
  generalize (if hint = 0 then cfg.page_size else hint) = remains
  split
  · exact h
  · have hinv := upsgi_chunked_read_smart_invariant
      (fun conn d => ChunkedInv cfg stream tail { st with conn := conn, chunked_input := d })
      (fun call _ _ h => h.call call) env.calls env.room remains st.body_chunked_buf h
    generalize upsgi_chunked_read_smart cfg.toChunkedConfig env.calls env.room remains st.conn
      st.chunked_input st.body_chunked_buf = out at hinv ⊢
    obtain ⟨conn, d, buf, ret⟩ := out
    dsimp only at hinv ⊢
    split <;> exact ⟨hinv.unallocated, hinv.tracks⟩

theorem bodyStep_chunked (hchunked : head.body_is_chunked = true) (st : BodyState)
    (event : BodyEvent) (st' : BodyState) (h : ChunkedInv cfg stream tail st)
    (hstep : bodyStep cfg head st event = some st') : ChunkedInv cfg stream tail st' := by
  obtain ⟨-, ⟨hint, env, rfl⟩ | ⟨call, conn, d, result, hcall, rfl⟩ |
    ⟨pos, whence, rfl⟩ | ⟨conn, got, hgot, rfl⟩⟩ := bodyStep_cases hstep
  · -- a read
    rw [upsgi_request_body_read, if_pos hchunked]
    exact readChunked_inv hint env h
  · -- a call of the decoder
    have hinv := h.call call
    rw [hcall] at hinv
    exact hinv
  · -- a seek
    obtain ⟨hconn, hd, hwebsocket, -⟩ := upsgi_request_body_seek_do_same cfg head pos whence st
    constructor <;> rw [NoWebsocket, hwebsocket, hd, hconn]
    exacts [h.unallocated, h.tracks]
  · -- a websocket that took nothing has left the connection as it was
    have hnothing : NoWebsocket { st with
        conn := conn, websocket := some (st.websocket.getD [] ++ got) } →
        NoWebsocket st ∧ conn.incoming = st.conn.incoming := by
      intro hws
      simp only [NoWebsocket, Option.getD_some, append_eq_nil_iff] at hws
      refine ⟨hws.1, ?_⟩
      rwa [hws.2, nil_append] at hgot
    constructor
    · intro hws hnone
      obtain ⟨hws, hconn⟩ := hnothing hws
      exact hconn.trans (h.unallocated hws hnone)
    · intro hws
      obtain ⟨hws, hconn⟩ := hnothing hws
      obtain ⟨hheld, hrest⟩ := h.tracks hws
      refine ⟨hheld, ?_⟩
      show Decoder.Expects _ _ (_ ++ conn.incoming)
      rw [hconn]
      exact hrest

/-! ### The beginning of a request -/

/-- A loop that is stopped had something to read. -/
theorem readAll_incomplete {stored : Recv → Bool} {recvs : List Recv} {conn : Conn} {n : Nat}
    (h : (readAll bound stored recvs conn n).2.2 = false) : 0 < n := by
  cases n with
  | zero =>
    cases recvs with
    | nil | cons recv recvs => cases h
  | succ n => exact Nat.succ_pos n

/-- Post buffering that was cut short aborts the request; otherwise the whole
    body was read ahead. -/
theorem LengthInv.buffered {conn : Conn} (hbuffering : 0 < cfg.post_buffering)
    (hbound : ∀ n, bound n ≤ n) (stored : Recv → Bool) (recvs : List Recv)
    (hout : st.conn = (readAll bound stored recvs conn head.post_cl).1)
    (haborted : st.aborted = !(readAll bound stored recvs conn head.post_cl).2.2)
    (hpos : st.post_pos = 0) (hchunked : st.chunked_input = none) (hws : st.websocket = none) :
    LengthInv cfg head conn.incoming st := by
  obtain ⟨hread, -, hcomplete⟩ := readAll_spec hbound stored recvs conn head.post_cl
  refine ⟨?_, ?_, ?_, ?_⟩
  · intro hab
    rw [haborted, Bool.not_eq_true'] at hab
    exact ⟨hpos, readAll_incomplete hab⟩
  · intro hab
    rw [haborted, Bool.not_eq_false'] at hab
    have hbody : bodyTaken cfg head st = head.post_cl := if_neg (by omega)
    refine ⟨_, 0, (by rw [hout, hread]), (by rw [hbody, hcomplete hab]; rfl), ?_⟩
    simp [Untapped, NoWebsocket, hchunked, hws]
  · intro d hd
    rw [hchunked] at hd
    cases hd
  · intro hzero
    omega

theorem LengthInv.aborted_start (conn : Conn) (hbuffering : 0 < cfg.post_buffering)
    (hlen : 0 < head.post_cl) :
    LengthInv cfg head conn.incoming { BodyState.fresh conn with aborted := true } :=
  ⟨fun _ => ⟨rfl, hlen⟩, nofun, nofun, fun h => (by omega)⟩

theorem startBody_length (cfg : BodyConfig) (head : Head) (alloc : Bool) (recvs : List Recv)
    (conn : Conn) : LengthInv cfg head conn.incoming (startBody cfg head alloc recvs conn) := by
  unfold startBody
  split
  · rename_i hzero
    refine ⟨nofun, fun _ => ⟨[], 0, rfl, ?_, ?_⟩, nofun,
      fun _ => ⟨rfl, Nat.zero_le _⟩⟩
    · rw [bodyTaken, if_pos hzero]
      rfl
    · simp [Untapped, NoWebsocket, BodyState.fresh]
  · rename_i hbuffering
    have hpos : 0 < cfg.post_buffering := Nat.pos_of_ne_zero hbuffering
    split
    · unfold upsgi_postbuffer_do_in_disk
      split
      · exact .aborted_start conn hpos (by omega)
      · exact .buffered hpos (fun n => Nat.min_le_left n _) Recv.room recvs rfl rfl rfl rfl rfl
    · unfold upsgi_postbuffer_do_in_mem
      split
      · exact .aborted_start conn hpos (by omega)
      · exact .buffered hpos (fun n => Nat.le_refl (id n)) (fun _ => true) recvs rfl rfl rfl rfl rfl

/-- There is nothing to buffer of a chunked body. -/
theorem startBody_chunked (hlen : head.post_cl = 0) (alloc : Bool) (recvs : List Recv)
    (conn : Conn) :
    SameConnection (.fresh conn) (startBody cfg head alloc recvs conn) := by
  unfold startBody
  split
  · exact .refl _
  · rename_i hbuffering
    rw [if_neg (by omega), upsgi_postbuffer_do_in_mem, if_neg (by omega), hlen]
    cases recvs with
    | nil | cons recv recvs => exact ⟨rfl, rfl, rfl, rfl⟩

/-! ### Kept connections -/

/-- What the decision to keep a connection looks at. -/
theorem upsgi_proto_http11_close_kept {write_errors : Nat} {offloaded : Bool}
    (h : upsgi_proto_http11_close head write_errors offloaded st = true) :
    st.conn.incoming = st.conn.unread ∧ head.post_cl ≤ st.post_pos := by
  simp only [upsgi_proto_http11_close, Bool.not_eq_true', Bool.or_eq_false_iff,
    decide_eq_false_iff_not, ne_eq, not_not, Nat.not_lt] at h
  obtain ⟨⟨⟨⟨⟨-, hremains⟩, hpos⟩, -⟩, -⟩, -⟩ := h
  exact ⟨by rw [Conn.incoming, hremains, nil_append], hpos⟩

/-- A kept request whose body has a length: the connection is behind the body
    exactly when the decoder took nothing. -/
theorem LengthInv.kept (h : LengthInv cfg head stream st) (hws : NoWebsocket st)
    (hempty : st.conn.incoming = st.conn.unread) (hpos : head.post_cl ≤ st.post_pos) :
    (∃ body : Bytes, body.length = head.post_cl ∧ stream = body ++ st.conn.unread) ↔
      ∀ d, st.chunked_input = some d → ¬d.Used := by
  have hrunning : st.aborted = false := by
    rw [Bool.eq_false_iff]
    intro hab
    have := h.aborted hab
    omega
  obtain ⟨taken, extra, hstream, hlen, hextra⟩ := h.taken hrunning
  rw [hempty] at hstream
  have hbody : bodyTaken cfg head st = head.post_cl := by
    unfold bodyTaken
    split
    · rename_i hzero
      have := (h.plain hzero).2
      omega
    · rfl
  have huntapped : extra = 0 ↔ ∀ d, st.chunked_input = some d → ¬d.Used :=
    hextra.trans (and_iff_left hws)
  rw [← huntapped]
  constructor
  · rintro ⟨body, hbodyLen, heq⟩
    have hsame : body = taken := append_cancel_right (heq.symm.trans hstream)
    subst hsame
    omega
  · intro hzero
    exact ⟨taken, by omega, hstream⟩

/-- A kept request with a chunked body: the connection is behind the body exactly
    when the decoder holds the rest of it. -/
theorem ChunkedInv.kept {body : Bytes} (hbody : ChunkedCoding.Seq body)
    (h : ChunkedInv cfg (body ++ tail) tail st) (hws : NoWebsocket st)
    (hempty : st.conn.incoming = st.conn.unread) :
    st.conn.unread = tail ↔ ∃ d, st.chunked_input = some d ∧ d.HoldsRest := by
  cases hd : st.chunked_input with
  | none =>
    -- nothing was read, so the whole body is still there
    have hunread : st.conn.unread = body ++ tail := hempty ▸ h.unallocated hws hd
    refine ⟨fun htail => ?_, fun ⟨d, hsome, _⟩ => (by cases hsome)⟩
    rw [hunread] at htail
    exact absurd (by simpa using htail) hbody.ne_nil
  | some d =>
    have hrest := (h.tracks hws).rest
    rw [hd, Option.getD_some, hempty] at hrest
    constructor
    · intro htail
      rw [htail] at hrest
      exact ⟨d, rfl, hrest.cancel⟩
    · rintro ⟨d', hsome, hholds⟩
      cases hsome
      exact hholds.unique hrest

/-- When a connection is kept, the next byte read from it is the first one
    behind the body exactly when the decoder is settled: for every kind of body,
    whatever the application read of it and however the bytes arrived. -/
theorem http11_kept_at_boundary_iff (cfg : BodyConfig) (head : Head) (kind : BodyKind)
    (alloc : Bool) (recvs : List Recv) (conn : Conn) (events : List BodyEvent) (st : BodyState)
    (write_errors : Nat) (offloaded : Bool) (hrecords : RecordsBody head kind)
    (hstream : conn.incoming.length < 2 ^ 63)
    (hrun : Machine.run (bodyStep cfg head) (startBody cfg head alloc recvs conn) events = some st)
    (hws : NoWebsocket st)
    (hkept : upsgi_proto_http11_close head write_errors offloaded st = true) :
    AtBoundary kind conn.incoming st ↔ Settled kind conn.incoming st := by
  obtain ⟨hempty, hpos⟩ := upsgi_proto_http11_close_kept hkept
  have hlength : head.body_is_chunked = false → LengthInv cfg head conn.incoming st := by
    intro hplain
    exact Machine.run_invariant (LengthInv cfg head conn.incoming) (fun _ => True)
      (fun s e s' hs _ => bodyStep_length hplain hstream s e s' hs) events _ st
      (startBody_length cfg head alloc recvs conn) (fun _ _ => trivial) hrun
  cases kind with
  | none =>
    obtain ⟨hlen, hplain⟩ := hrecords
    have hiff := (hlength hplain).kept hws hempty hpos
    simpa only [AtBoundary, IsBody, Settled, hlen, length_eq_zero_iff] using hiff
  | length n =>
    obtain ⟨rfl, hplain⟩ := hrecords
    exact (hlength hplain).kept hws hempty hpos
  | chunked =>
    obtain ⟨hlen, hchunked⟩ := hrecords
    -- the invariant needs a complete body at the front of the stream
    have hinv : ∀ body tail, ChunkedCoding.Seq body → conn.incoming = body ++ tail →
        ChunkedInv cfg (body ++ tail) tail st := by
      intro body tail hbody heq
      have hsame : SameConnection (.fresh conn) (startBody cfg head alloc recvs conn) :=
        startBody_chunked hlen alloc recvs conn
      have hshort : body.length < 2 ^ 63 := by
        rw [heq, length_append] at hstream
        omega
      have hstart : ChunkedInv cfg (body ++ tail) tail (startBody cfg head alloc recvs conn) := by
        constructor
        · intro _ _
          rw [hsame.conn]
          exact heq
        · intro _
          rw [hsame.conn, hsame.chunked_input]
          exact tracks_new cfg.toChunkedConfig hbody hshort heq
      exact Machine.run_invariant (ChunkedInv cfg (body ++ tail) tail) (fun _ => True)
        (fun s e s' hs _ => bodyStep_chunked hchunked s e s' hs) events _ st hstart
        (fun _ _ => trivial) hrun
    constructor
    · rintro ⟨body, hbody, heq⟩
      exact ⟨⟨body, _, hbody, heq⟩, ((hinv body _ hbody heq).kept hbody hws hempty).mp rfl⟩
    · rintro ⟨⟨body, tail, hbody, heq⟩, hsettled⟩
      have htail := ((hinv body tail hbody heq).kept hbody hws hempty).mpr hsettled
      exact ⟨body, hbody, by rw [htail, heq]⟩

/-! ### A request with a chunked body -/

def chunkedHead : Head where
  proto_parser_status := 3
  protocol := lit "HTTP/1.1"
  connection := none
  post_cl := 0
  body_is_chunked := true

def smallConfig : BodyConfig where
  page_size := 8
  page_size_pos := Nat.succ_pos 7
  chunked_input_limit := 64
  limit_ge := by decide
  post_buffering := 0
  post_buffering_bufsize := 8192

/-- A body of one chunk, followed by the next request. -/
def chunkedStream : Bytes :=
  lit "3\r\nabc\r\n0\r\n\r\nGET"

theorem chunkedStream_body :
    ∃ body tail, ChunkedCoding.Seq body ∧ chunkedStream = body ++ tail := by
  have hsize : ∀ c, ChunkedCoding.isDigit c = true → ChunkedCoding.IsSize [c] := by
    intro c hc
    exact ⟨by simp, by simpa using hc⟩
  have hlast : ChunkedCoding.Seq ([48] ++ ChunkedCoding.crlf ++ ChunkedCoding.crlf) :=
    .last [48] (hsize 48 (by decide)) (by decide)
  exact ⟨_, lit "GET", .chunk [51] (lit "abc") _ (hsize 51 (by decide)) (by decide) (by decide)
    hlast, by decide⟩

/-- A read of the whole body that arrives byte by byte. -/
def bytewiseRead : BodyEvent :=
  .read 100
    { alloc := true
      fread := true
      recvs := []
      calls := fun _ => { beyond := [], recvs := List.replicate 8 ⟨8, 1, true, []⟩ }
      room := fun _ => true }

/-- The state after that read. -/
def bytewiseEnd : BodyState where
  conn := ⟨[], lit "GET"⟩
  post_pos := 0
  post_buffering_buf := []
  post_file := none
  chunked_input := some ⟨⟨[], 12, 64⟩, .line, 0, 0, true, 0⟩
  body_chunked_buf := []
  websocket := none
  aborted := false

/-- The application reads the whole body. -/
theorem http11_kept_bytewise :
    upsgi_proto_http11_close chunkedHead 0 false bytewiseEnd = true ∧
      AtBoundary .chunked chunkedStream bytewiseEnd := by
  have hkept : upsgi_proto_http11_close chunkedHead 0 false bytewiseEnd = true := by
    decide +kernel
  have hrun : Machine.run (bodyStep smallConfig chunkedHead)
      (startBody smallConfig chunkedHead true [] ⟨[], chunkedStream⟩) [bytewiseRead] =
        some bytewiseEnd := by
    rfl
  have hsettled : Settled .chunked chunkedStream bytewiseEnd :=
    ⟨chunkedStream_body, _, rfl, rfl⟩
  have hiff := http11_kept_at_boundary_iff smallConfig chunkedHead .chunked true []
    ⟨[], chunkedStream⟩ [bytewiseRead] bytewiseEnd 0 false ⟨rfl, rfl⟩ (by decide) hrun rfl hkept
  exact ⟨hkept, hiff.mpr hsettled⟩

/-- The application reads nothing: the connection is kept all the same, and the
    body is what the next request is read from. -/
theorem http11_kept_before_body :
    ∃ st, RecordsBody chunkedHead .chunked ∧
      Machine.run (bodyStep smallConfig chunkedHead)
        (startBody smallConfig chunkedHead true [] ⟨[], chunkedStream⟩) [] = some st ∧
      upsgi_proto_http11_close chunkedHead 0 false st = true ∧
      st.conn.unread = chunkedStream ∧ ¬AtBoundary .chunked chunkedStream st := by
  refine ⟨.fresh ⟨[], chunkedStream⟩, ⟨rfl, rfl⟩, rfl, by decide +kernel, rfl, ?_⟩
  rintro ⟨body, hbody, heq⟩
  have hnil : body = [] := append_cancel_right heq.symm
  exact hbody.ne_nil hnil

end Upsgi
