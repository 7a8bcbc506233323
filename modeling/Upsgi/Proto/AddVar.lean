import Upsgi.Proto.HttpPacket

/-! # Variables with a size of sixteen bits

    The FastCGI and the SCGI parser append variables one by one with
    `proto_base_add_upsgi_var`.  Both keep its result in a `uint16_t pktsize`, refuse the request
    when that is 0, and add it to `wsgi_req->len`.  A variable of `2 ^ 16` bytes or more does not
    fit this type: the packet then ends inside the variable, and the next one is written there.
-/

namespace Upsgi

open Framing List

/-- One variable more, in a packet of `wsgi_req->len` bytes. -/
def addVar (buffer_size : Nat) (pkt : Bytes) (e : Pair) : Option Bytes :=
  let written := (proto_base_add_upsgi_var buffer_size { buffer := pkt } e).buffer
  let pktsize := (written.length - pkt.length) % 65536
  if pktsize = 0 then none else some (written.take (pkt.length + pktsize))

section

variable {buffer_size : Nat} {pkt pkt' : Bytes} {e : Pair}

/-- The frame that is written, with lengths of sixteen bits. -/
def varFrame (e : Pair) : Bytes :=
  le16 (e.1.length % 65536) ++ e.1.take (e.1.length % 65536) ++
    (le16 (e.2.length % 65536) ++ e.2.take (e.2.length % 65536))

theorem varFrame_length (e : Pair) : (varFrame e).length = varSize e := by
  have hkey := Nat.mod_le e.1.length 65536
  have hval := Nat.mod_le e.2.length 65536
  unfold varFrame varSize
  rw [length_append, length_append, length_append, le16_length, le16_length,
    length_take_of_le hkey, length_take_of_le hval]
  omega

theorem varFrame_eq_frame (hsmall : frameSize e < 65536) : varFrame e = frame e := by
  unfold frameSize at hsmall
  unfold varFrame frame
  rw [Nat.mod_eq_of_lt (by omega), Nat.mod_eq_of_lt (by omega), take_length, take_length]

theorem varSize_eq_frameSize (hsmall : frameSize e < 65536) : varSize e = frameSize e := by
  rw [← varFrame_length, varFrame_eq_frame hsmall, frame_length]

theorem varSize_le (e : Pair) : varSize e ≤ frameSize e := by
  have hkey := Nat.mod_le e.1.length 65536
  have hval := Nat.mod_le e.2.length 65536
  unfold varSize frameSize
  omega

/-- With room for the frame, the packet grows by its size modulo `2 ^ 16`. -/
theorem addVar_eq (hroom : pkt.length + varSize e < buffer_size) :
    addVar buffer_size pkt e =
      if varSize e % 65536 = 0 then none
      else some (pkt ++ (varFrame e).take (varSize e % 65536)) := by
  have hwritten : (proto_base_add_upsgi_var buffer_size { buffer := pkt } e).buffer =
      pkt ++ varFrame e := by
    rw [proto_base_add_upsgi_var_room hroom]
    rfl
  unfold addVar
  dsimp only
  rw [hwritten, length_append, Nat.add_sub_cancel_left, varFrame_length, take_length_add_append]

theorem addVar_full (hfull : buffer_size ≤ pkt.length + varSize e) :
    addVar buffer_size pkt e = none := by
  unfold addVar
  rw [proto_base_add_upsgi_var_full (Nat.not_lt.mpr hfull)]
  dsimp only
  rw [Nat.sub_self]
  rfl

theorem addVar_small (hroom : pkt.length + frameSize e < buffer_size)
    (hsmall : frameSize e < 65536) : addVar buffer_size pkt e = some (pkt ++ frame e) := by
  have hsize := varSize_eq_frameSize hsmall
  have hpos : frameSize e ≠ 0 := by
    unfold frameSize
    omega
  rw [addVar_eq (by omega), hsize, Nat.mod_eq_of_lt hsmall, if_neg hpos, varFrame_eq_frame hsmall,
    ← frame_length e, take_length]

/-- The packet never grows by more than the frame, and by less when the frame is too large. -/
theorem addVar_length (h : addVar buffer_size pkt e = some pkt') :
    pkt'.length ≤ pkt.length + frameSize e ∧
      (65536 ≤ frameSize e → pkt'.length < pkt.length + frameSize e) := by
  have hle := varSize_le e
  by_cases hroom : pkt.length + varSize e < buffer_size
  · rw [addVar_eq hroom] at h
    obtain ⟨-, h⟩ := Option.ite_none_left_eq_some.mp h
    rw [← Option.some.inj h, length_append, length_take]
    have hmod := Nat.mod_le (varSize e) 65536
    have hlt := Nat.mod_lt (varSize e) (show 0 < 65536 by decide)
    omega
  · rw [addVar_full (Nat.le_of_not_lt hroom)] at h
    nomatch h

end

/-! ### All variables -/

/-- The bytes that the variables take in a packet. -/
def packetSize (es : List Pair) : Nat :=
  (es.map frameSize).sum

theorem packetSize_cons (e : Pair) (es : List Pair) :
    packetSize (e :: es) = frameSize e + packetSize es :=
  sum_cons

theorem packet_length (es : List Pair) : (packet es).length = packetSize es := by
  induction es with
  | nil => rfl
  | cons e es ih => rw [packet_cons, length_append, frame_length, ih, packetSize_cons]

def addVars (buffer_size : Nat) (pkt : Bytes) (es : List Pair) : Option Bytes :=
  es.foldlM (addVar buffer_size) pkt

section

variable {buffer_size : Nat} {pkt pkt' : Bytes} {es : List Pair}

theorem addVars_cons (buffer_size : Nat) (pkt : Bytes) (e : Pair) (es : List Pair) :
    addVars buffer_size pkt (e :: es) =
      (addVar buffer_size pkt e).bind fun pkt => addVars buffer_size pkt es :=
  foldlM_cons

theorem addVars_append (buffer_size : Nat) (pkt : Bytes) (es es' : List Pair) :
    addVars buffer_size pkt (es ++ es') =
      (addVars buffer_size pkt es).bind fun pkt => addVars buffer_size pkt es' :=
  foldlM_append

theorem addVars_length (h : addVars buffer_size pkt es = some pkt') :
    pkt'.length ≤ pkt.length + packetSize es := by
  induction es generalizing pkt with
  | nil => exact Option.some.inj h ▸ le_rfl
  | cons e es ih =>
    obtain ⟨pkt₁, hfirst, hrest⟩ := Option.bind_eq_some_iff.mp h
    have hone := (addVar_length hfirst).1
    have hmore := ih hrest
    rw [packetSize_cons]
    omega

/-- Small variables are appended as they are when there is room for all of them. -/
theorem addVars_small (hroom : pkt.length + packetSize es < buffer_size)
    (hsmall : ∀ e ∈ es, frameSize e < 65536) :
    addVars buffer_size pkt es = some (pkt ++ packet es) := by
  induction es generalizing pkt with
  | nil =>
    rw [packet_nil, append_nil]
    rfl
  | cons e es ih =>
    rw [packetSize_cons] at hroom
    obtain ⟨hfirst, hrest⟩ := forall_mem_cons.mp hsmall
    have hnext : (pkt ++ frame e).length + packetSize es < buffer_size := by
      rw [length_append, frame_length]
      omega
    rw [addVars_cons, addVar_small (by omega) hfirst, Option.bind_some, ih hnext hrest, packet_cons,
      append_assoc]

/-- Variables that were appended as they are were small, and there was room for them. -/
theorem small_of_addVars (h : addVars buffer_size pkt es = some (pkt ++ packet es)) :
    (∀ e ∈ es, frameSize e < 65536) ∧ (es = [] ∨ pkt.length + packetSize es < buffer_size) := by
  induction es generalizing pkt with
  | nil => exact ⟨nofun, .inl rfl⟩
  | cons e es ih =>
    rw [addVars_cons, packet_cons, ← append_assoc] at h
    obtain ⟨pkt₁, hfirst, hrest⟩ := Option.bind_eq_some_iff.mp h
    have hsmall : frameSize e < 65536 := by
      -- else the packet has lost bytes that never come back
      by_contra hlarge
      have hone := (addVar_length hfirst).2 (Nat.le_of_not_lt hlarge)
      have hmore := addVars_length hrest
      rw [length_append, length_append, frame_length, packet_length] at hmore
      omega
    have hroom : pkt.length + frameSize e < buffer_size := by
      by_contra hfull
      rw [← varSize_eq_frameSize hsmall] at hfull
      rw [addVar_full (Nat.le_of_not_lt hfull)] at hfirst
      nomatch hfirst
    rw [addVar_small hroom hsmall] at hfirst
    cases hfirst
    obtain ⟨hsmalls, hrooms⟩ := ih hrest
    refine ⟨forall_mem_cons.mpr ⟨hsmall, hsmalls⟩, .inr ?_⟩
    rw [length_append, frame_length] at hrooms
    rw [packetSize_cons]
    rcases hrooms with rfl | hrooms
    · exact hroom
    · omega

end

end Upsgi
