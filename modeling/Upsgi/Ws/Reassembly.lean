import Upsgi.Ws.Parser

/-! # Messages from a websocket

    What a client sends is a sequence of frames: messages in one or more fragments, and
    pings and pongs between any two of them.  However the bytes are cut into reads, and
    whatever calls are blocking, the buffers that the receive calls return are those of
    the data frames, in order: the message for a final frame, and a placeholder of one
    byte for every other one.

    The parser is followed through the phases of one frame (`InFrame`).  A round stays in
    the frame, or ends it; a call makes rounds and reads; and a run makes calls.
-/

namespace Upsgi

open Framing (Bytes)
open WebSocket (Frame LengthForm MaskKey fromBe applyMask)
open List

/-! ### What a client sends -/

/-- The length fits into its form and, if it is an extended one, is accepted. -/
def Sendable (limit : Nat) (f : Frame) : Prop :=
  f.Fits ∧ (f.form ≠ .short → f.payload.length ≤ limit)

/-- The frames of a client, where a message may have been begun. -/
inductive ClientFrames (limit : Nat) : Bool → List Frame → Prop where
  | nil (begun : Bool) : ClientFrames limit begun []
  /-- A ping or a pong. -/
  | control {begun : Bool} {f : Frame} {frames : List Frame} (hsend : Sendable limit f)
      (hop : f.opcode = 9 ∨ f.opcode = 10) (hrest : ClientFrames limit begun frames) :
      ClientFrames limit begun (f :: frames)
  /-- The first fragment of a message. -/
  | first {f : Frame} {frames : List Frame} (hsend : Sendable limit f)
      (hop : f.opcode = 1 ∨ f.opcode = 2) (hrest : ClientFrames limit (!f.fin) frames) :
      ClientFrames limit false (f :: frames)
  /-- A further fragment. -/
  | continued {f : Frame} {frames : List Frame} (hsend : Sendable limit f)
      (hop : f.opcode = 0) (hrest : ClientFrames limit (!f.fin) frames) :
      ClientFrames limit true (f :: frames)

def wire (frames : List Frame) : Bytes :=
  frames.flatMap Frame.bytes

/-- The messages of a sequence of frames, where the fragments so far are joined. -/
def messages : Bytes → List Frame → List Bytes
  | _, [] => []
  | joined, f :: frames =>
      if f.opcode = 9 ∨ f.opcode = 10 then messages joined frames
      else if f.fin then (joined ++ f.payload) :: messages [] frames
      else messages (joined ++ f.payload) frames

/-- What is returned for a data frame. -/
inductive Delivery where
  | message (b : Bytes)
  | fragment
  deriving DecidableEq, Repr

namespace Delivery

def bytes : Delivery → Bytes
  | .message b => b
  | .fragment => [0]

def message? : Delivery → Option Bytes
  | .message b => some b
  | .fragment => none

end Delivery

/-- One for each data frame. -/
def deliveries : Bytes → List Frame → List Delivery
  | _, [] => []
  | joined, f :: frames =>
      if f.opcode = 9 ∨ f.opcode = 10 then deliveries joined frames
      else if f.fin then .message (joined ++ f.payload) :: deliveries [] frames
      else .fragment :: deliveries (joined ++ f.payload) frames

theorem deliveries_messages (joined : Bytes) (frames : List Frame) :
    (deliveries joined frames).filterMap Delivery.message? = messages joined frames := by
  induction frames generalizing joined with
  | nil => rfl
  | cons f frames ih =>
    unfold deliveries messages
    split
    · exact ih joined
    · split
      · exact congrArg (List.cons (joined ++ f.payload)) (ih [])
      · exact ih (joined ++ f.payload)

theorem deliveries_control {f : Frame} (hop : f.opcode = 9 ∨ f.opcode = 10) (joined : Bytes)
    (frames : List Frame) : deliveries joined (f :: frames) = deliveries joined frames := by
  rw [deliveries, if_pos hop]

/-! ### One frame -/

/-- The flags of the first two bytes are those of the frame. -/
structure HeadRead (f : Frame) (req : WsRequest) : Prop where
  is_fin : req.is_fin = if f.fin then 1 else 0
  opcode : req.opcode = UInt8.ofNat f.opcode
  has_mask : req.has_mask = if f.mask.isSome then 1 else 0

/-- The parser is in the frame, with what each phase has found out. -/
inductive InFrame (f : Frame) (req : WsRequest) : Prop where
  | header (hphase : req.phase = .header) (hneed : req.need = 2)
  | length (hphase : req.phase = .length) (hread : HeadRead f req) (hform : f.form ≠ .short)
      (hsize : req.size = f.shortLength) (hneed : req.need = 2 + f.form.size)
      (hpkt : req.pktsize = f.headSize)
  | mask (hphase : req.phase = .mask) (hread : HeadRead f req)
      (hsize : req.size = f.payload.length) (hneed : req.need = 2 + f.form.size)
      (hpkt : req.pktsize = f.headSize)
  | key (hphase : req.phase = .key) (hread : HeadRead f req)
      (hsize : req.size = f.payload.length) (hneed : req.need = f.headSize)
      (hpkt : req.pktsize = f.headSize)
  | packet (hphase : req.phase = .packet) (hread : HeadRead f req)
      (hsize : req.size = f.payload.length) (hneed : req.need = f.bytes.length)
      (hpkt : req.pktsize = f.bytes.length)

/-- The phases that are left. -/
def WsPhase.left : WsPhase → Nat
  | .header => 4
  | .length => 3
  | .mask => 2
  | .key => 1
  | .packet => 0

section OneFrame

variable {f : Frame} {req : WsRequest} {todo tail : Bytes}

/-- What has been received is as in the stream. -/
theorem received_slice {buf s : Bytes} (h : buf ++ todo = s) {a n : Nat} (hle : a + n ≤ buf.length) :
    (buf.drop a).take n = (s.drop a).take n := by
  rw [← h, drop_append_of_le_length (by omega), take_append_of_le_length]
  rw [length_drop]
  omega

theorem received_head (hbuf : req.buf ++ todo = f.bytes ++ tail) (hlen : 2 ≤ req.buf.length) :
    req.buf.getD 0 0 = f.firstByte ∧ req.buf.getD 1 0 = f.secondByte := by
  obtain ⟨b₁, b₂, bs, hreq⟩ : ∃ b₁ b₂ bs, req.buf = b₁ :: b₂ :: bs := by
    match hreq : req.buf, hlen with
    | b₁ :: b₂ :: bs, _ => exact ⟨b₁, b₂, bs, rfl⟩
  rw [hreq, Frame.bytes] at hbuf
  injection hbuf with h₁ hbuf
  injection hbuf with h₂ hbuf
  rw [hreq]
  exact ⟨h₁, h₂⟩

theorem parse_header_read (hfits : f.Fits) (hbuf : req.buf ++ todo = f.bytes ++ tail)
    (hlen : 2 ≤ req.buf.length) :
    HeadRead f (upsgi_websocket_parse_header req) ∧
      (upsgi_websocket_parse_header req).size = f.shortLength := by
  obtain ⟨h₁, h₂⟩ := received_head hbuf hlen
  have hop : f.opcode.val < 128 := by omega
  have hshort := f.shortLength_lt hfits
  unfold upsgi_websocket_parse_header
  rw [h₁, h₂]
  refine ⟨⟨?_, ?_, ?_⟩, ?_⟩
  -- the flag is the highest bit of each byte, the rest is the opcode or the length
  · exact WebSocket.flag_shift f.fin ⟨f.opcode, hop⟩
  · exact WebSocket.opcode_low f.fin f.opcode
  · show (f.secondByte >>> 7).toNat = _
    rw [Frame.secondByte, WebSocket.flag_shift f.mask.isSome ⟨f.shortLength, hshort⟩]
    split <;> rfl
  · show (f.secondByte &&& 0x7f).toNat = _
    rw [Frame.secondByte, WebSocket.flag_low f.mask.isSome ⟨f.shortLength, hshort⟩]
    exact Nat.mod_eq_of_lt (by omega)

theorem headSize_eq (hread : HeadRead f req) :
    f.headSize = 2 + f.form.size + req.has_mask * 4 := by
  rw [Frame.headSize, Frame.maskBytes_length, hread.has_mask]
  split <;> rfl

theorem phaseHeader_inFrame (hfits : f.Fits) (hneed : req.need = 2)
    (hbuf : req.buf ++ todo = f.bytes ++ tail) (hlen : 2 ≤ req.buf.length) :
    InFrame f (phaseHeader req) ∧ (phaseHeader req).phase.left < 4 := by
  obtain ⟨hread, hsize⟩ := parse_header_read hfits hbuf hlen
  have hhead := headSize_eq hread
  unfold phaseHeader
  dsimp only
  rw [hsize]
  cases hform : f.form with
  | short =>
    have hshort := Frame.shortLength_short hform
    rw [Frame.Fits, hform] at hfits
    -- below 126, so that no more bytes of length follow
    rw [if_neg (by omega), if_neg (by omega)]
    rw [hform] at hhead
    refine ⟨.mask rfl { hread with } hshort ?_ hhead.symm, (by decide : 2 < 4)⟩
    rw [hform]
    exact hneed
  | word =>
    have hshort : f.shortLength = 126 := by rw [Frame.shortLength, hform]
    rw [if_pos hshort]
    rw [hform] at hhead
    refine ⟨.length rfl { hread with } (by rw [hform]; nofun) rfl ?_ ?_,
      (by decide : 3 < 4)⟩
    · show req.need + 2 = _
      rw [hneed, hform]
      rfl
    · rw [hhead]
      show 2 + _ * 4 + 2 = 2 + 2 + _ * 4
      omega
  | long =>
    have hshort : f.shortLength = 127 := by rw [Frame.shortLength, hform]
    rw [if_neg (by omega), if_pos hshort]
    rw [hform] at hhead
    refine ⟨.length rfl { hread with } (by rw [hform]; nofun) rfl ?_ ?_,
      (by decide : 3 < 4)⟩
    · show req.need + 8 = _
      rw [hneed, hform]
      rfl
    · rw [hhead]
      show 2 + _ * 4 + 8 = 2 + 8 + _ * 4
      omega

/-- The extended length is the length of the payload. -/
theorem extendedSize_inFrame (hfits : f.Fits) (hform : f.form ≠ .short)
    (hsize : req.size = f.shortLength) (hbuf : req.buf ++ todo = f.bytes ++ tail)
    (hlen : 2 + f.form.size ≤ req.buf.length) : extendedSize req = some f.payload.length := by
  have hbe : beAt req.buf f.form.size = f.payload.length := by
    unfold beAt
    rw [received_slice hbuf hlen, Frame.length_slice, Frame.fromBe_lengthBytes hfits hform]
  unfold extendedSize
  rw [hsize, Frame.shortLength]
  cases h : f.form with
  | short => exact absurd h hform
  | word | long =>
    rw [h] at hbe
    exact congrArg some hbe

theorem phaseLength_inFrame {websockets_max_size : UInt64}
    (hsend : Sendable (wsLimit websockets_max_size) f) (hform : f.form ≠ .short)
    (hsize : req.size = f.shortLength)
    (hbuf : req.buf ++ todo = f.bytes ++ tail) (hlen : 2 + f.form.size ≤ req.buf.length) :
    phaseLength websockets_max_size req =
      some { req with size := f.payload.length, phase := .mask } := by
  have hlimit := hsend.2 hform
  unfold phaseLength
  rw [extendedSize_inFrame hsend.1 hform hsize hbuf hlen]
  exact if_neg (by omega)

section

variable (hread : HeadRead f req) (hsize : req.size = f.payload.length)
include hread hsize

theorem phaseMask_inFrame (hneed : req.need = 2 + f.form.size) (hpkt : req.pktsize = f.headSize) :
    InFrame f (phaseMask req) ∧ (phaseMask req).phase.left < 2 := by
  have hhead := headSize_eq hread
  have hmask := hread.has_mask
  unfold phaseMask
  cases hsome : f.mask.isSome with
  | true =>
    rw [hsome, if_pos rfl] at hmask
    rw [if_pos (by omega)]
    refine ⟨.key rfl { hread with } hsize ?_ hpkt, (by decide : 1 < 2)⟩
    show req.need + 4 = _
    omega
  | false =>
    rw [hsome, if_neg nofun] at hmask
    rw [if_neg (by omega)]
    refine ⟨.packet rfl { hread with } hsize ?_ ?_, (by decide : 0 < 2)⟩
    · show req.need + req.size = _
      rw [Frame.bytes_length]
      omega
    · show req.pktsize + req.size = _
      rw [Frame.bytes_length]
      omega

theorem phaseKey_inFrame (hneed : req.need = f.headSize) (hpkt : req.pktsize = f.headSize) :
    InFrame f (phaseKey req) := by
  have hlen := f.bytes_length
  refine .packet rfl { hread with } hsize ?_ ?_
  · show req.need + req.size = _
    omega
  · show req.pktsize + req.size = _
    omega

/-- The whole frame is there: its payload is unmasked. -/
theorem wsPayload_inFrame (hpkt : req.pktsize = f.bytes.length)
    (hbuf : req.buf ++ todo = f.bytes ++ tail)
    (hlen : f.bytes.length ≤ req.buf.length) : wsPayload req = f.payload := by
  have hbytes := f.bytes_length
  have hpos : req.pktsize - req.size = f.headSize := by omega
  have hdata : (req.buf.drop f.headSize).take f.payload.length = f.body := by
    rw [received_slice hbuf (by omega), Frame.body_slice]
  have hhead := headSize_eq hread
  have hmask := hread.has_mask
  have hunmask := f.unmask_body
  unfold wsPayload
  dsimp only
  rw [hpos, hsize, hdata]
  cases hsome : f.mask.isSome with
  | true =>
    rw [hsome, if_pos rfl] at hmask hunmask
    -- the key is in the four bytes before the payload
    have hkeylen : f.maskBytes.length = 4 := by rw [Frame.maskBytes_length, hsome, if_pos rfl]
    have hkey : (req.buf.drop (f.headSize - 4)).take 4 = f.maskBytes := by
      have hslice := Frame.mask_slice (f := f) tail
      rw [hkeylen] at hslice
      rw [show f.headSize - 4 = 2 + f.form.size by omega, received_slice hbuf (by omega), hslice]
    rw [if_pos (by omega), hkey, hunmask]
  | false =>
    rw [hsome, if_neg nofun] at hmask hunmask
    rw [if_neg (by omega), hunmask]

end

/-- The frame is taken off the buffer. -/
theorem decapitate_inFrame (hpkt : req.pktsize = f.bytes.length)
    (hbuf : req.buf ++ todo = f.bytes ++ tail) (hlen : f.bytes.length ≤ req.buf.length) :
    ∃ buf, upsgi_buffer_decapitate req.buf req.pktsize = some buf ∧ buf ++ todo = tail ∧
      buf.length + f.bytes.length = req.buf.length := by
  refine ⟨req.buf.drop f.bytes.length, ?_, ?_, ?_⟩
  · rw [hpkt]
    exact if_neg (by omega)
  · rw [← drop_append_of_le_length hlen, hbuf, drop_left]
  · rw [length_drop]
    omega

end OneFrame

/-! ### Rounds -/

/-- The buffer and the bytes to come are the frames to come, the first of which may
    have been begun.  What is joined so far is in the continuation buffer. -/
structure Receiving (limit : Nat) (req : WsRequest) (continuation : Option Bytes) (todo : Bytes)
    (frames : List Frame) : Prop where
  client : ClientFrames limit continuation.isSome frames
  stream : req.buf ++ todo = wire frames
  position : ∀ f ∈ frames.head?, InFrame f req
  rest : frames = [] → req.need = 2
  is_open : req.closed = false

/-- A bound for the rounds before the next read. -/
def WsRequest.roundsLeft (req : WsRequest) : Nat :=
  5 * req.buf.length + req.phase.left

/-- What a round may come to. -/
inductive RoundOk (limit : Nat) (out : WsOutside) (req : WsRequest) (continuation : Option Bytes)
    (todo : Bytes) (frames : List Frame) : WsRound → Prop where
  | read (hlen : req.buf.length < req.need) : RoundOk limit out req continuation todo frames .read
  | next {req' : WsRequest} {frames' : List Frame}
      (hrec : Receiving limit req' continuation todo frames')
      (hsame : deliveries (continuation.getD []) frames = deliveries (continuation.getD []) frames')
      (hleft : req'.roundsLeft < req.roundsLeft) :
      RoundOk limit out req continuation todo frames (.next req')
  | deliver {req' : WsRequest} {continuation' : Option Bytes} {frames' : List Frame}
      {d : Delivery} (hrec : Receiving limit req' continuation' todo frames')
      (hgiven : deliveries (continuation.getD []) frames =
        d :: deliveries (continuation'.getD []) frames') :
      RoundOk limit out req continuation todo frames (.ret (.buffer d.bytes) req' continuation')
  /-- A pong could not be sent. -/
  | refused {req' : WsRequest} {continuation' : Option Bytes} (hpong : ∃ n, out.pong n = false) :
      RoundOk limit out req continuation todo frames (.ret .null req' continuation')

variable {limit : Nat} {req' : WsRequest} {frames' : List Frame} {calls : List Bool}

section Rounds

variable {websockets_max_size : UInt64} {out : WsOutside} {req : WsRequest}
  {continuation : Option Bytes} {todo : Bytes} {f : Frame} {frames : List Frame}

/-- The first frame of a client is sendable. -/
theorem ClientFrames.sendable {begun : Bool}
    (h : ClientFrames limit begun (f :: frames)) : Sendable limit f := by
  cases h with
  | control hsend _ _ | first hsend _ _ | continued hsend _ _ => exact hsend

/-- A phase that leaves the buffer alone stays in the frame. -/
theorem Receiving.stay (hrec : Receiving limit req continuation todo (f :: frames))
    (hin : InFrame f req') (hbuf : req'.buf = req.buf) (hclosed : req'.closed = req.closed)
    (hleft : req'.phase.left < req.phase.left) :
    RoundOk limit out req continuation todo (f :: frames) (.next req') := by
  refine .next ⟨hrec.client, ?_, ?_, nofun, ?_⟩ rfl ?_
  · rw [hbuf]
    exact hrec.stream
  · rintro g ⟨⟩
    exact hin
  · rw [hclosed]
    exact hrec.is_open
  · unfold WsRequest.roundsLeft
    rw [hbuf]
    omega

theorem phaseHeader_frame (req : WsRequest) :
    (phaseHeader req).buf = req.buf ∧ (phaseHeader req).closed = req.closed := by
  unfold phaseHeader
  dsimp only
  split_ifs <;> exact ⟨rfl, rfl⟩

theorem phaseMask_frame (req : WsRequest) :
    (phaseMask req).buf = req.buf ∧ (phaseMask req).closed = req.closed := by
  unfold phaseMask
  split_ifs <;> exact ⟨rfl, rfl⟩

/-- Behind a frame the parser waits for the next one. -/
theorem Receiving.after {continuation' : Option Bytes}
    (hclient : ClientFrames limit continuation'.isSome frames) (hphase : req'.phase = .header)
    (hneed : req'.need = 2) (hstream : req'.buf ++ todo = wire frames)
    (hopen : req'.closed = false) : Receiving limit req' continuation' todo frames :=
  ⟨hclient, hstream, fun _ _ => .header hphase hneed, fun _ => hneed, hopen⟩

theorem wsSkip_ok {sent : WsRequest} (hclient : ClientFrames limit continuation.isSome frames)
    (hop : f.opcode = 9 ∨ f.opcode = 10) (hpkt : sent.pktsize = f.bytes.length)
    (hbuf : sent.buf ++ todo = f.bytes ++ wire frames) (hlen : f.bytes.length ≤ sent.buf.length)
    (hopen : sent.closed = false) (hsent : sent.buf = req.buf) :
    RoundOk limit out req continuation todo (f :: frames) (wsSkip sent continuation) := by
  obtain ⟨buf, hdecap, hrest, hshorter⟩ := decapitate_inFrame hpkt hbuf hlen
  have hbytes := f.bytes_length
  unfold wsSkip
  dsimp only
  rw [hdecap]
  refine .next (.after hclient rfl rfl hrest hopen) (deliveries_control hop _ _) ?_
  show 5 * buf.length + 4 < 5 * req.buf.length + req.phase.left
  rw [← hsent]
  unfold Frame.headSize at hbytes
  omega

/-- A data frame is given back as the message or, in the middle of one, as a
    placeholder. -/
theorem parse_ok (hread : HeadRead f req) (hpkt : req.pktsize = f.bytes.length)
    (hbuf : req.buf ++ todo = f.bytes ++ wire frames) (hlen : f.bytes.length ≤ req.buf.length)
    (hmessage : wsMessage req continuation = some (continuation.getD [] ++ f.payload))
    (hop : ¬(f.opcode = 9 ∨ f.opcode = 10)) (hclient : ClientFrames limit (!f.fin) frames)
    (hopen : req.closed = false) :
    RoundOk limit out req continuation todo (f :: frames)
      (.ret (upsgi_websockets_parse req continuation).1 (upsgi_websockets_parse req continuation).2.1
        (upsgi_websockets_parse req continuation).2.2) := by
  obtain ⟨buf, hdecap, hrest, -⟩ := decapitate_inFrame hpkt hbuf hlen
  have hfin := hread.is_fin
  unfold upsgi_websockets_parse
  rw [hmessage, hdecap]
  dsimp only
  cases h : f.fin with
  | true =>
    rw [h, if_pos rfl] at hfin
    rw [h] at hclient
    rw [hfin, if_pos (by decide)]
    have hgiven : deliveries (continuation.getD []) (f :: frames) =
        .message (continuation.getD [] ++ f.payload) :: deliveries [] frames := by
      rw [deliveries, if_neg hop, if_pos h]
    exact .deliver (d := .message (continuation.getD [] ++ f.payload))
      (.after hclient rfl rfl hrest hopen) hgiven
  | false =>
    rw [h, if_neg nofun] at hfin
    rw [h] at hclient
    rw [hfin, if_neg (by decide)]
    have hgiven : deliveries (continuation.getD []) (f :: frames) =
        .fragment :: deliveries (continuation.getD [] ++ f.payload) frames := by
      rw [deliveries, if_neg hop, if_neg (Bool.eq_false_iff.mp h)]
    exact .deliver (d := .fragment) (.after hclient rfl rfl hrest hopen) hgiven

theorem phasePacket_ok (hrec : Receiving limit req continuation todo (f :: frames))
    (hread : HeadRead f req) (hsize : req.size = f.payload.length)
    (hpkt : req.pktsize = f.bytes.length) (hlen : f.bytes.length ≤ req.buf.length) :
    RoundOk limit out req continuation todo (f :: frames) (phasePacket out req continuation) := by
  have hbuf : req.buf ++ todo = f.bytes ++ wire frames := hrec.stream
  have hpayload := wsPayload_inFrame hread hsize hpkt hbuf hlen
  have hopcode := hread.opcode
  have hclient := hrec.client
  unfold phasePacket
  generalize hbegun : continuation.isSome = begun at hclient
  cases hclient with
  | control hsend hop hclient =>
    rw [← hbegun] at hclient
    rcases hop with hop | hop
    · rw [hop] at hopcode
      rw [hopcode, if_neg (by decide), if_neg (by decide), if_pos (by decide)]
      cases hpong : out.pong req.pongs with
      | true => exact wsSkip_ok hclient (.inl hop) hpkt hbuf hlen hrec.is_open rfl
      | false => exact .refused ⟨req.pongs, hpong⟩
    · rw [hop] at hopcode
      rw [hopcode, if_neg (by decide), if_neg (by decide), if_neg (by decide)]
      exact wsSkip_ok hclient (.inr hop) hpkt hbuf hlen hrec.is_open rfl
  | first hsend hop hclient =>
    -- No message was begun, so that the payload is all of it so far.
    have hnone : continuation = none := Option.isSome_eq_false_iff.mp hbegun |> Option.isNone_iff_eq_none.mp
    have hdata : ¬(f.opcode = 9 ∨ f.opcode = 10) := by
      rcases hop with hop | hop <;> rw [hop] <;> decide
    have hne : req.opcode ≠ 0 := by
      rcases hop with hop | hop <;> rw [hopcode, hop] <;> decide
    have hcase : req.opcode = 0 ∨ req.opcode = 1 ∨ req.opcode = 2 := by
      rcases hop with hop | hop <;> rw [hopcode, hop] <;> decide
    have hmessage : wsMessage req continuation = some (continuation.getD [] ++ f.payload) := by
      rw [wsMessage, if_neg hne, hpayload, hnone]
      rfl
    rw [if_pos hcase]
    exact parse_ok hread hpkt hbuf hlen hmessage hdata hclient hrec.is_open
  | continued hsend hop hclient =>
    obtain ⟨joined, hsome⟩ := Option.isSome_iff_exists.mp hbegun
    have hdata : ¬(f.opcode = 9 ∨ f.opcode = 10) := by
      rw [hop]
      decide
    have hzero : req.opcode = 0 := by
      rw [hopcode, hop]
      rfl
    have hmessage : wsMessage req continuation = some (continuation.getD [] ++ f.payload) := by
      rw [wsMessage, if_pos hzero, hpayload, hsome]
      rfl
    rw [if_pos (.inl hzero)]
    exact parse_ok hread hpkt hbuf hlen hmessage hdata hclient hrec.is_open

theorem wsRound_ok (hrec : Receiving (wsLimit websockets_max_size) req continuation todo frames) :
    RoundOk (wsLimit websockets_max_size) out req continuation todo frames
      (wsRound websockets_max_size out req continuation) := by
  unfold wsRound
  by_cases hshort : req.buf.length < req.need
  · rw [if_pos hshort]
    exact .read hshort
  rw [if_neg hshort]
  have hlen : req.need ≤ req.buf.length := Nat.le_of_not_lt hshort
  cases frames with
  | nil =>
    -- Nothing is to come, and the parser needs two bytes.
    have hempty : req.buf = [] := (append_eq_nil_iff.mp hrec.stream).1
    have hneed := hrec.rest rfl
    rw [hempty, hneed] at hlen
    nomatch hlen
  | cons f frames =>
    have hbuf : req.buf ++ todo = f.bytes ++ wire frames := hrec.stream
    have hsend := hrec.client.sendable
    cases hrec.position f rfl with
    | header hphase hneed =>
      rw [hneed] at hlen
      obtain ⟨hin, hleft⟩ := phaseHeader_inFrame hsend.1 hneed hbuf hlen
      obtain ⟨hsame, hclosed⟩ := phaseHeader_frame req
      rw [hphase]
      exact hrec.stay hin hsame hclosed (by rw [hphase]; exact hleft)
    | length hphase hread hform hsize hneed hpkt =>
      rw [hneed] at hlen
      rw [hphase]
      rw [phaseLength_inFrame hsend hform hsize hbuf hlen]
      exact hrec.stay (.mask rfl { hread with } rfl hneed hpkt) rfl rfl
        (by rw [hphase]; exact (by decide : 2 < 3))
    | mask hphase hread hsize hneed hpkt =>
      obtain ⟨hin, hleft⟩ := phaseMask_inFrame hread hsize hneed hpkt
      obtain ⟨hsame, hclosed⟩ := phaseMask_frame req
      rw [hphase]
      exact hrec.stay hin hsame hclosed (by rw [hphase]; exact hleft)
    | key hphase hread hsize hneed hpkt =>
      rw [hphase]
      exact hrec.stay (phaseKey_inFrame hread hsize hneed hpkt) rfl rfl
        (by rw [hphase]; exact (by decide : 0 < 1))
    | packet hphase hread hsize hneed hpkt =>
      rw [hneed] at hlen
      rw [hphase]
      exact phasePacket_ok hrec hread hsize hpkt hlen

/-- What the rounds before a read, or before the return, come to. -/
inductive AdvanceOk (limit : Nat) (out : WsOutside) (continuation : Option Bytes) (todo : Bytes)
    (frames : List Frame) : WsRequest × Option (WsResult × Option Bytes) → Prop where
  | read {req' : WsRequest} {frames' : List Frame}
      (hrec : Receiving limit req' continuation todo frames')
      (hsame : deliveries (continuation.getD []) frames = deliveries (continuation.getD []) frames')
      (hlen : req'.buf.length < req'.need) :
      AdvanceOk limit out continuation todo frames (req', none)
  | deliver {req' : WsRequest} {continuation' : Option Bytes} {frames' : List Frame}
      {d : Delivery} (hrec : Receiving limit req' continuation' todo frames')
      (hgiven : deliveries (continuation.getD []) frames =
        d :: deliveries (continuation'.getD []) frames') :
      AdvanceOk limit out continuation todo frames
        (req', some (.buffer d.bytes, continuation'))
  | refused {req' : WsRequest} {continuation' : Option Bytes} (hpong : ∃ n, out.pong n = false) :
      AdvanceOk limit out continuation todo frames (req', some (.null, continuation'))

theorem wsAdvance_ok {fuel : Nat}
    (hrec : Receiving (wsLimit websockets_max_size) req continuation todo frames)
    (hfuel : req.roundsLeft < fuel) :
    AdvanceOk (wsLimit websockets_max_size) out continuation todo frames
      (wsAdvance websockets_max_size out continuation fuel req) := by
  -- every round but the last leaves fewer rounds, so that the fuel is not used up
  induction fuel generalizing req frames with
  | zero => nomatch hfuel
  | succ fuel ih =>
    have hround : RoundOk _ out _ _ _ _ _ := wsRound_ok hrec
    unfold wsAdvance
    generalize wsRound websockets_max_size out req continuation = round at hround
    cases hround with
    | read hlen => exact .read hrec rfl hlen
    | next hrec' hsame hleft =>
      have hadvance := ih hrec' (by omega)
      dsimp only
      generalize wsAdvance websockets_max_size out continuation fuel _ = advanced at hadvance
      cases hadvance with
      | read hrec'' hsame' hlen => exact .read hrec'' (hsame.trans hsame') hlen
      | deliver hrec'' hgiven => exact .deliver hrec'' (hsame.trans hgiven)
      | refused hpong => exact .refused hpong
    | deliver hrec' hgiven => exact .deliver hrec' hgiven
    | refused hpong => exact .refused hpong

theorem roundsLeft_lt (req : WsRequest) : req.roundsLeft < wsRounds req := by
  unfold WsRequest.roundsLeft wsRounds
  cases req.phase <;> simp only [WsPhase.left] <;> omega

end Rounds

/-! ### Reads -/

def WsRead.bytes : WsRead → Bytes
  | .data b bs => b :: bs
  | .again _ => []
  | .failed => []

def received (reads : List WsRead) : Bytes :=
  reads.flatMap WsRead.bytes

/-- No read fails, no wait fails, and there is something to read after a wait that did
    not time out. -/
def SteadyReads : List WsRead → Prop
  | [] => True
  | .data _ _ :: reads => SteadyReads reads
  | .failed :: _ => False
  | .again .error :: _ => False
  | .again .timeout :: reads => SteadyReads reads
  | .again .ready :: [] => True
  | .again .ready :: .data _ _ :: reads => SteadyReads reads
  | .again .ready :: _ :: _ => False

/-- The connection works. -/
structure Healthy (out : WsOutside) (reads : List WsRead) : Prop where
  ping : ∀ n, out.ping n = true
  pong : ∀ n, out.pong n = true
  steady : SteadyReads reads

theorem Healthy.later {out : WsOutside} {reads reads' : List WsRead} (h : Healthy out reads)
    (hsteady : SteadyReads reads → SteadyReads reads') : Healthy out reads' :=
  ⟨h.ping, h.pong, hsteady h.steady⟩

/-- What `upsgi_websockets_recv_pkt` may come to. -/
inductive PktOk (out : WsOutside) (nb : Bool) (req : WsRequest) (reads : List WsRead) :
    WsReceived × WsRequest × List WsRead → Prop where
  | bytes {bs : Bytes} {pings : Nat} {reads' : List WsRead}
      (hbytes : received reads = bs ++ received reads') (hshorter : reads'.length < reads.length)
      (hsteady : SteadyReads reads → SteadyReads reads') :
      PktOk out nb req reads (.bytes bs, { req with pings := pings }, reads')
  | zero {pings : Nat} {reads' : List WsRead} (hnb : nb = true)
      (hbytes : received reads = received reads') (hshorter : reads'.length < reads.length)
      (hsteady : SteadyReads reads → SteadyReads reads') :
      PktOk out nb req reads (.zero, { req with pings := pings }, reads')
  | fail {req' : WsRequest} {reads' : List WsRead} (hbad : ¬Healthy out reads) :
      PktOk out nb req reads (.fail, req', reads')
  | waiting {pings : Nat} (hbytes : received reads = []) :
      PktOk out nb req reads (.waiting, { req with pings := pings }, [])

theorem SteadyReads.tail {read : WsRead} {reads : List WsRead} (h : SteadyReads (read :: reads)) :
    SteadyReads reads := by
  match read, reads, h with
  | .data _ _, _, h => exact h
  | .again .timeout, _, h => exact h
  | .again .ready, [], _ => trivial
  | .again .ready, .data _ _ :: _, h => exact h

/-- After a timeout everything is as before it. -/
theorem PktOk.later {out : WsOutside} {nb : Bool} {req : WsRequest} {reads : List WsRead} {n : Nat}
    {outcome : WsReceived × WsRequest × List WsRead}
    (h : PktOk out nb { req with pings := n } reads outcome) :
    PktOk out nb req (.again .timeout :: reads) outcome := by
  cases h with
  | bytes hbytes hshorter hsteady => exact .bytes hbytes (Nat.lt_succ_of_lt hshorter) hsteady
  | zero hnb hbytes hshorter hsteady =>
    exact .zero hnb hbytes (Nat.lt_succ_of_lt hshorter) hsteady
  | fail hbad => exact .fail fun h => hbad (h.later id)
  | waiting hbytes => exact .waiting hbytes

theorem recv_pkt_ok (out : WsOutside) (nb : Bool) (req : WsRequest) (reads : List WsRead) :
    PktOk out nb req reads (upsgi_websockets_recv_pkt out nb req reads) := by
  induction reads generalizing req with
  | nil => exact .waiting rfl
  | cons read reads ih =>
    cases read with
    | data b bs => exact .bytes rfl (Nat.lt_succ_self _) id
    | failed => exact .fail fun h => h.steady
    | again wait =>
      unfold upsgi_websockets_recv_pkt
      cases nb with
      | true =>
        by_cases hping : out.ping req.pings = true
        · rw [hping]
          exact .zero rfl rfl (Nat.lt_succ_self _) SteadyReads.tail
        · rw [Bool.eq_false_of_not_eq_true hping]
          exact .fail fun h => hping (h.ping _)
      | false =>
        cases wait with
        | error => exact .fail fun h => h.steady
        | timeout =>
          by_cases hping : out.ping req.pings = true
          · rw [hping]
            exact (ih _).later
          · rw [Bool.eq_false_of_not_eq_true hping]
            exact .fail fun h => hping (h.ping _)
        | ready =>
          -- The second read has to give something.
          cases reads with
          | nil => exact .waiting rfl
          | cons read reads =>
            cases read with
            | data b bs => exact .bytes rfl (Nat.lt_succ_of_lt (Nat.lt_succ_self _)) id
            | again _ | failed => exact .fail fun h => h.steady

/-! ### Calls -/

/-- What a call may come to, where `unsent` is what no read will give. -/
inductive CallOk (limit : Nat) (out : WsOutside) (nb : Bool) (continuation : Option Bytes)
    (reads : List WsRead) (unsent : Bytes) (frames : List Frame) :
    WsResult × WsRequest × Option Bytes × List WsRead → Prop where
  | deliver {req' : WsRequest} {continuation' : Option Bytes} {reads' : List WsRead}
      {frames' : List Frame} {d : Delivery}
      (hrec : Receiving limit req' continuation' (received reads' ++ unsent) frames')
      (hgiven : deliveries (continuation.getD []) frames =
        d :: deliveries (continuation'.getD []) frames')
      (hlength : reads'.length ≤ reads.length) (hsteady : SteadyReads reads → SteadyReads reads') :
      CallOk limit out nb continuation reads unsent frames
        (.buffer d.bytes, req', continuation', reads')
  | again {req' : WsRequest} {reads' : List WsRead} {frames' : List Frame} (hnb : nb = true)
      (hrec : Receiving limit req' continuation (received reads' ++ unsent) frames')
      (hsame : deliveries (continuation.getD []) frames = deliveries (continuation.getD []) frames')
      (hshorter : reads'.length < reads.length) (hsteady : SteadyReads reads → SteadyReads reads') :
      CallOk limit out nb continuation reads unsent frames (.again, req', continuation, reads')
  | null {req' : WsRequest} {continuation' : Option Bytes} {reads' : List WsRead}
      (hbad : ¬Healthy out reads) :
      CallOk limit out nb continuation reads unsent frames (.null, req', continuation', reads')
  | waiting {req' : WsRequest} {frames' : List Frame}
      (hrec : Receiving limit req' continuation unsent frames')
      (hsame : deliveries (continuation.getD []) frames = deliveries (continuation.getD []) frames')
      (hlen : req'.buf.length < req'.need) :
      CallOk limit out nb continuation reads unsent frames (.waiting, req', continuation, [])

section Calls

variable {websockets_max_size : UInt64} {out : WsOutside} {nb : Bool} {req : WsRequest}
  {continuation : Option Bytes} {reads : List WsRead} {unsent : Bytes} {frames : List Frame}

/-- The position in a frame does not depend on what is in the buffer. -/
theorem InFrame.buffered {f : Frame} (h : InFrame f req) (buf : Bytes) (pings : Nat) :
    InFrame f { req with buf := buf, pings := pings } := by
  cases h with
  | header hphase hneed => exact .header hphase hneed
  | length hphase hread hform hsize hneed hpkt =>
    exact .length hphase { hread with } hform hsize hneed hpkt
  | mask hphase hread hsize hneed hpkt =>
    exact .mask hphase { hread with } hsize hneed hpkt
  | key hphase hread hsize hneed hpkt =>
    exact .key hphase { hread with } hsize hneed hpkt
  | packet hphase hread hsize hneed hpkt =>
    exact .packet hphase { hread with } hsize hneed hpkt

theorem Receiving.pinged {todo : Bytes} (hrec : Receiving limit req continuation todo frames)
    (pings : Nat) :
    Receiving limit { req with pings := pings } continuation todo frames :=
  { hrec with position := fun f hf => (hrec.position f hf).buffered _ _ }

/-- Bytes go from the stream into the buffer. -/
theorem Receiving.read {limit pings : Nat} {todo todo' bs : Bytes}
    (hrec : Receiving limit req continuation todo frames) (hbytes : todo = bs ++ todo') :
    Receiving limit { req with buf := req.buf ++ bs, pings := pings } continuation todo' frames := by
  refine ⟨hrec.client, ?_, fun f hf => (hrec.position f hf).buffered _ _, hrec.rest, hrec.is_open⟩
  show req.buf ++ bs ++ todo' = wire frames
  rw [append_assoc, ← hbytes]
  exact hrec.stream

/-- A call that goes on from a later state has come to what the earlier one comes to. -/
theorem CallOk.earlier {reads' : List WsRead}
    {outcome : WsResult × WsRequest × Option Bytes × List WsRead}
    (h : CallOk limit out nb continuation reads' unsent frames' outcome)
    (hsame : deliveries (continuation.getD []) frames = deliveries (continuation.getD []) frames')
    (hshorter : reads'.length < reads.length) (hsteady : SteadyReads reads → SteadyReads reads') :
    CallOk limit out nb continuation reads unsent frames outcome := by
  cases h with
  | deliver hrec hgiven hlength hsteady' =>
    exact .deliver hrec (hsame.trans hgiven) (Nat.le_of_lt (Nat.lt_of_le_of_lt hlength hshorter))
      fun h => hsteady' (hsteady h)
  | again hnb hrec hsame' hshorter' hsteady' =>
    exact .again hnb hrec (hsame.trans hsame') (Nat.lt_trans hshorter' hshorter)
      fun h => hsteady' (hsteady h)
  | null hbad => exact .null fun h => hbad (h.later hsteady)
  | waiting hrec hsame' hlen => exact .waiting hrec (hsame.trans hsame') hlen

theorem recv_do_ok {fuel : Nat}
    (hrec : Receiving (wsLimit websockets_max_size) req continuation (received reads ++ unsent) frames)
    (hfuel : reads.length < fuel) :
    CallOk (wsLimit websockets_max_size) out nb continuation reads unsent frames
      (upsgi_websocket_recv_do websockets_max_size out nb continuation fuel req reads) := by
  -- a read is taken between two advances
  induction fuel generalizing req reads frames with
  | zero => nomatch hfuel
  | succ fuel ih =>
    have hadvance : AdvanceOk _ out _ _ _ _ := wsAdvance_ok hrec (roundsLeft_lt req)
    unfold upsgi_websocket_recv_do
    generalize wsAdvance websockets_max_size out continuation (wsRounds req) req = advanced
      at hadvance
    cases hadvance with
    | deliver hrec' hgiven => exact .deliver hrec' hgiven le_rfl id
    | refused hpong =>
      obtain ⟨n, hpong⟩ := hpong
      exact .null fun h => Bool.noConfusion ((h.pong n).symm.trans hpong)
    | @read req' frames' hrec' hsame hlen =>
      have hpkt := recv_pkt_ok out nb req' reads
      dsimp only
      generalize upsgi_websockets_recv_pkt out nb req' reads = outcome at hpkt
      cases hpkt with
      | bytes hbytes hshorter hsteady =>
        rw [hbytes, append_assoc] at hrec'
        exact (ih (hrec'.read rfl) (by omega)).earlier hsame hshorter hsteady
      | zero hnb hbytes hshorter hsteady =>
        rw [hbytes] at hrec'
        exact .again hnb (hrec'.pinged _) hsame hshorter hsteady
      | fail hbad => exact .null hbad
      | waiting hbytes =>
        rw [hbytes] at hrec'
        exact .waiting (hrec'.pinged _) hsame hlen

theorem websocket_recv_ok
    (hrec : Receiving (wsLimit websockets_max_size) req continuation (received reads ++ unsent) frames) :
    CallOk (wsLimit websockets_max_size) out nb continuation reads unsent frames
        (upsgi_websocket_recv websockets_max_size out nb req continuation reads) ∧
      ((upsgi_websocket_recv websockets_max_size out nb req continuation reads).1 = .null →
        (upsgi_websocket_recv websockets_max_size out nb req continuation reads).2.1.closed = true) := by
  have hcall : CallOk _ out nb _ reads unsent _ _ := recv_do_ok hrec (Nat.lt_succ_self _)
  unfold upsgi_websocket_recv
  rw [hrec.is_open, if_neg nofun]
  generalize upsgi_websocket_recv_do websockets_max_size out nb continuation (reads.length + 1) req
    reads = outcome at hcall
  cases hcall with
  | deliver hrec' hgiven hlength hsteady =>
    exact ⟨.deliver hrec' hgiven hlength hsteady, nofun⟩
  | again hnb hrec' hsame hshorter hsteady =>
    exact ⟨.again hnb hrec' hsame hshorter hsteady, nofun⟩
  | null hbad => exact ⟨.null hbad, fun _ => rfl⟩
  | waiting hrec' hsame hlen => exact ⟨.waiting hrec' hsame hlen, nofun⟩

end Calls

/-! ### Runs -/

/-- Calls one after the other, each blocking or not. -/
def wsReceive (websockets_max_size : UInt64) (out : WsOutside) :
    List Bool → WsRequest → Option Bytes → List WsRead → List WsResult
  | [], _, _, _ => []
  | nb :: calls, req, continuation, reads =>
      match upsgi_websocket_recv websockets_max_size out nb req continuation reads with
      | (result, req, continuation, reads) =>
          result :: wsReceive websockets_max_size out calls req continuation reads

def WsResult.buffer? : WsResult → Option Bytes
  | .buffer b => some b
  | _ => none

/-- The buffers that were returned for data frames. -/
def returned (results : List WsResult) : List Bytes :=
  results.filterMap WsResult.buffer?

/-- The buffers are those of data frames, from the first one on, where the final ones
    have the messages.  Any other buffer is the empty one of a non-blocking receive. -/
structure Reassembled (joined : Bytes) (frames : List Frame) (calls : List Bool)
    (results : List WsResult) : Prop where
  given : ∃ given, given <+: deliveries joined frames ∧
    given.filterMap Delivery.message? <+: messages joined frames ∧
    returned results = given.map Delivery.bytes
  empty : ∀ p ∈ calls.zip results, p.2 = .again → p.1 = true
  no_crash : .crash ∉ results

/-- All of them are returned. -/
def Complete (joined : Bytes) (frames : List Frame) (results : List WsResult) : Prop :=
  returned results = (deliveries joined frames).map Delivery.bytes ∧
    (deliveries joined frames).filterMap Delivery.message? = messages joined frames

section Runs

variable {websockets_max_size : UInt64} {out : WsOutside} {req : WsRequest}
  {continuation : Option Bytes} {reads : List WsRead} {unsent : Bytes} {frames : List Frame}

theorem wsReceive_cons (nb : Bool) (calls : List Bool)
    {outcome : WsResult × WsRequest × Option Bytes × List WsRead}
    (h : upsgi_websocket_recv websockets_max_size out nb req continuation reads = outcome) :
    wsReceive websockets_max_size out (nb :: calls) req continuation reads = outcome.1 ::
      wsReceive websockets_max_size out calls outcome.2.1 outcome.2.2.1 outcome.2.2.2 := by
  rw [wsReceive, h]

/-- Nothing comes from a closed connection. -/
theorem wsReceive_closed (calls : List Bool) (hclosed : req.closed = true) :
    wsReceive websockets_max_size out calls req continuation reads =
      calls.map fun _ => .null := by
  induction calls with
  | nil => rfl
  | cons nb calls ih =>
    have hrecv : upsgi_websocket_recv websockets_max_size out nb req continuation reads =
        (.null, req, continuation, reads) := by
      rw [upsgi_websocket_recv, if_pos hclosed]
    rw [wsReceive_cons nb calls hrecv, ih, map_cons]

/-- A call comes before the others, which returns the first delivery or no data. -/
theorem Reassembled.cons {joined joined' : Bytes} {results : List WsResult} {nb : Bool}
    {result : WsResult} (ds : List Delivery) (h : Reassembled joined' frames' calls results)
    (hgiven : deliveries joined frames = ds ++ deliveries joined' frames')
    (hbuffer : returned [result] = ds.map Delivery.bytes)
    (hagain : result = .again → nb = true) (hcrash : result ≠ .crash) :
    Reassembled joined frames (nb :: calls) (result :: results) := by
  obtain ⟨given, hfirst, -, hreturned⟩ := h.given
  have hall : ds ++ given <+: deliveries joined frames := by
    rw [hgiven]
    exact (prefix_append_right_inj ds).mpr hfirst
  refine ⟨⟨ds ++ given, hall, ?_, ?_⟩, ?_, ?_⟩
  · rw [← deliveries_messages]
    exact hall.filterMap _
  · rw [map_append, ← hbuffer, ← hreturned]
    exact filterMap_append (l := [result])
  · intro p hp
    rcases mem_cons.mp hp with rfl | hp
    · exact hagain
    · exact h.empty p hp
  · intro hmem
    rcases mem_cons.mp hmem with hmem | hmem
    · exact hcrash hmem.symm
    · exact h.no_crash hmem

theorem Reassembled.of_null (joined : Bytes) (frames : List Frame) (calls : List Bool) :
    Reassembled joined frames calls (calls.map fun _ => .null) := by
  induction calls with
  | nil => exact ⟨⟨[], nil_prefix, nil_prefix, rfl⟩, nofun, nofun⟩
  | cons nb calls ih => exact ih.cons [] rfl rfl nofun nofun

section

variable
    (hrec : Receiving (wsLimit websockets_max_size) req continuation (received reads ++ unsent) frames)
include hrec

theorem wsReceive_reassembled :
    Reassembled (continuation.getD []) frames calls
      (wsReceive websockets_max_size out calls req continuation reads) := by
  induction calls generalizing req continuation reads frames with
  | nil =>
    exact ⟨⟨[], nil_prefix, nil_prefix, rfl⟩, nofun, nofun⟩
  | cons nb calls ih =>
    obtain ⟨hcall, hclosed⟩ := @websocket_recv_ok _ out nb _ _ _ _ _ hrec
    generalize houtcome : upsgi_websocket_recv websockets_max_size out nb req continuation reads =
      outcome at hcall hclosed
    rw [wsReceive_cons nb calls houtcome]
    cases hcall with
    | deliver hrec' hgiven _ _ => exact (ih hrec').cons [_] hgiven rfl nofun nofun
    | again hnb hrec' hsame _ _ => exact (ih hrec').cons [] hsame rfl (fun _ => hnb) nofun
    | null _ =>
      rw [wsReceive_closed calls (hclosed rfl)]
      exact .of_null _ _ (nb :: calls)
    | waiting hrec' hsame _ => exact (@ih _ _ [] _ hrec').cons [] hsame rfl nofun nofun

theorem wsReceive_not_null (hhealthy : Healthy out reads) :
    .null ∉ wsReceive websockets_max_size out calls req continuation reads := by
  induction calls generalizing req continuation reads frames with
  | nil => nofun
  | cons nb calls ih =>
    obtain ⟨hcall, -⟩ := @websocket_recv_ok _ out nb _ _ _ _ _ hrec
    generalize houtcome : upsgi_websocket_recv websockets_max_size out nb req continuation reads =
      outcome at hcall
    rw [wsReceive_cons nb calls houtcome, mem_cons]
    cases hcall with
    | deliver hrec' _ _ hsteady | again _ hrec' _ _ hsteady =>
      exact not_or.mpr ⟨nofun, ih hrec' (hhealthy.later hsteady)⟩
    | null hbad => exact absurd hhealthy hbad
    | waiting hrec' _ _ =>
      exact not_or.mpr ⟨nofun, @ih _ _ [] _ hrec' (hhealthy.later fun _ => trivial)⟩

end

/-- A frame is enough for each of its phases. -/
theorem InFrame.need_le {f : Frame} (h : InFrame f req) : req.need ≤ f.bytes.length := by
  have hlen := f.bytes_length
  have hhead : f.headSize = 2 + f.form.size + f.maskBytes.length := rfl
  cases h with
  | header _ hneed | length _ _ _ _ hneed _ | mask _ _ _ hneed _ | key _ _ _ hneed _
  | packet _ _ _ hneed _ => omega

/-- If everything was received, and the parser still needs more, no frame is left. -/
theorem Receiving.finished (hrec : Receiving limit req continuation [] frames)
    (hlen : req.buf.length < req.need) : frames = [] := by
  cases frames with
  | nil => rfl
  | cons f frames =>
    have hneed := (hrec.position f rfl).need_le
    have hstream : req.buf = f.bytes ++ wire frames := by
      rw [← append_nil req.buf]
      exact hrec.stream
    rw [hstream, length_append] at hlen
    omega

theorem wsReceive_complete
    (hrec : Receiving (wsLimit websockets_max_size) req continuation (received reads ++ []) frames)
    (hhealthy : Healthy out reads)
    (hcalls : (deliveries (continuation.getD []) frames).length + reads.length ≤ calls.length) :
    returned (wsReceive websockets_max_size out calls req continuation reads) =
      (deliveries (continuation.getD []) frames).map Delivery.bytes := by
  induction calls generalizing req continuation reads frames with
  | nil =>
    have hnone : (deliveries (continuation.getD []) frames).length = 0 :=
      Nat.eq_zero_of_le_zero (Nat.le_trans (Nat.le_add_right _ _) hcalls)
    rw [length_eq_zero_iff.mp hnone]
    rfl
  | cons nb calls ih =>
    obtain ⟨hcall, -⟩ := @websocket_recv_ok _ out nb _ _ _ _ _ hrec
    generalize houtcome : upsgi_websocket_recv websockets_max_size out nb req continuation reads =
      outcome at hcall
    rw [length_cons] at hcalls
    rw [wsReceive_cons nb calls houtcome]
    cases hcall with
    | deliver hrec' hgiven hlength hsteady =>
      -- a delivery less is to come, and a call less
      rw [hgiven, length_cons] at hcalls
      rw [hgiven, map_cons]
      exact congrArg (List.cons _) (ih hrec' (hhealthy.later hsteady) (by dsimp only; omega))
    | again _ hrec' hsame hshorter hsteady =>
      rw [hsame] at hcalls ⊢
      exact ih hrec' (hhealthy.later hsteady) (by dsimp only; omega)
    | null hbad => exact absurd hhealthy hbad
    | waiting hrec' hsame hlen =>
      -- everything was received, so that nothing is left to return
      have hdone := hrec'.finished hlen
      rw [hdone] at hrec' hsame
      rw [hsame]
      exact @ih _ _ [] _ hrec' (hhealthy.later fun _ => trivial) (Nat.zero_le _)

end Runs

/-- For every sequence of client frames, every cutting of their bytes into reads, and
    blocking and non-blocking calls: the buffers returned are those of the data frames.
    While the connection works no call fails, and if all bytes are read and there are
    enough calls, all messages are returned. -/
theorem websocket_reassembly (websockets_max_size : UInt64) (out : WsOutside)
    (frames : List Frame) (reads : List WsRead) (unsent : Bytes) (calls : List Bool)
    (hclient : ClientFrames (wsLimit websockets_max_size) false frames)
    (hreads : received reads ++ unsent = wire frames) :
    Reassembled [] frames calls (wsReceive websockets_max_size out calls {} none reads) ∧
      (Healthy out reads →
        .null ∉ wsReceive websockets_max_size out calls {} none reads ∧
        (unsent = [] → (deliveries [] frames).length + reads.length ≤ calls.length →
          Complete [] frames (wsReceive websockets_max_size out calls {} none reads))) := by
  have hrec : Receiving (wsLimit websockets_max_size) {} none (received reads ++ unsent) frames :=
    .after hclient rfl rfl hreads rfl
  refine ⟨wsReceive_reassembled hrec, fun hhealthy => ⟨wsReceive_not_null hrec hhealthy, ?_⟩⟩
  rintro rfl hcalls
  exact ⟨wsReceive_complete hrec hhealthy hcalls, deliveries_messages [] frames⟩

/-- A message of two fragments, the first one masked, with a ping between them. -/
def helloFrames : List Frame :=
  [⟨false, 1, .short, some ⟨[1, 2, 3, 4], rfl⟩, [104, 101, 108]⟩,
    ⟨true, 9, .short, none, []⟩,
    ⟨true, 0, .word, none, [108, 111]⟩]

/-- The bytes of these frames, cut within the first head and within the last length. -/
def helloReads : List WsRead :=
  [.data 1 [], .again .timeout, .data 131 [1, 2, 3, 4, 105, 103, 111, 137, 0, 128, 126, 0],
    .again .ready, .data 2 [108, 111]]

theorem helloFrames_client : ClientFrames (wsLimit 1024) false helloFrames := by
  refine .first ⟨?_, nofun⟩ (.inl rfl) (.control ⟨?_, nofun⟩
    (.inl rfl) (.continued ⟨?_, fun _ => ?_⟩ rfl (.nil _)))
  · exact (by decide : 3 < 126)
  · exact (by decide : 0 < 126)
  · exact (by decide : 2 < 256 ^ 2)
  · exact (by decide : 2 ≤ wsLimit 1024)

theorem websocket_reassembly_hello :
    Complete [] helloFrames
        (wsReceive 1024 ⟨fun _ => true, fun _ => true⟩ (List.replicate 7 true) {} none helloReads) ∧
      messages [] helloFrames = [[104, 101, 108, 108, 111]] := by
  have hhealthy : Healthy ⟨fun _ => true, fun _ => true⟩ helloReads :=
    ⟨fun _ => rfl, fun _ => rfl, trivial⟩
  have hall := websocket_reassembly 1024 ⟨fun _ => true, fun _ => true⟩ helloFrames helloReads []
    (List.replicate 7 true) helloFrames_client (by decide)
  exact ⟨(hall.2 hhealthy).2 rfl (by decide), by decide⟩

end Upsgi
