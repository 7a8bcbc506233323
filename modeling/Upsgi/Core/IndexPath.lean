import Upsgi.Core.PacketGrammar

/-! # The index name in `PATH_INFO`

    When a directory is served by one of its index files, the name of the file is appended to
    `PATH_INFO` (`upsgi_req_append_path_info_with_index` in `core/protocol.c`): the new value goes
    behind the packet as one more variable.

    `path_info_len` is changed before there is a check for room.  When the function fails, it
    stays changed, and the request goes on with a longer `PATH_INFO`.
-/

namespace Upsgi

open Framing List

/-- The fields that the function uses.  `path_info` are the bytes from that pointer on, `hvec` are
    the first `var_cnt` entries of that table, and `packet` the first `len` bytes of the buffer. -/
structure IndexRequest where
  path_info : Bytes
  path_info_len : Nat
  hvec : List Bytes
  packet : Bytes

namespace IndexRequest

def pathInfo (r : IndexRequest) : Bytes :=
  r.path_info.take r.path_info_len

/-- What is appended: a slash when the path needs one, and the name. -/
def added (r : IndexRequest) (index : Bytes) : Bytes :=
  if r.pathInfo ≠ [] ∧ r.pathInfo.getLast? ≠ some SLASH then SLASH :: index else index

/-- The new `path_info_len`, a `uint16_t`. -/
def newLen (r : IndexRequest) (index : Bytes) : Nat :=
  (r.path_info_len + (r.added index).length) % 65536

/-- There is no room in the buffer or in the table. -/
def Full (buffer_size vec_size : Nat) (r : IndexRequest) (index : Bytes) : Prop :=
  buffer_size < r.packet.length + (13 + r.newLen index) ∨ vec_size ≤ r.hvec.length + (4 + 2)
  deriving Decidable

/-- `none` is the copy of the old path with a negative length, when the new length has wrapped. -/
def upsgi_req_append_path_info_with_index (buffer_size vec_size : Nat) (r : IndexRequest)
    (index : Bytes) : Option (Int × IndexRequest) :=
  if r.Full buffer_size vec_size index then some (-1, { r with path_info_len := r.newLen index })
  else if r.newLen index < (r.added index).length then none
  else
    let new_path_info :=
      r.path_info.take (r.newLen index - (r.added index).length) ++ r.added index
    some (0, ⟨new_path_info, r.newLen index, r.hvec ++ [lit "PATH_INFO", new_path_info],
      r.packet ++ frame (lit "PATH_INFO", new_path_info)⟩)

/-- The packet is a sequence of variables, and the table has them. -/
structure Parsed (r : IndexRequest) : Prop where
  path_info : r.path_info_len ≤ r.path_info.length
  len : r.path_info_len < 65536
  vars : ∃ es, Entries es ∧ r.packet = Framing.packet es ∧ r.hvec = tableOf es

/-- What a call leaves of the request: all is as before if it fails, else the new path is in its
    place, at the end of the table, and in the packet. -/
def Appended (r : IndexRequest) (index : Bytes) : Option (Int × IndexRequest) → Prop
  | none => False
  | some (ret, r') =>
      if ret = 0 then
        r'.pathInfo = r.pathInfo ++ r.added index ∧
          r'.hvec = r.hvec ++ [lit "PATH_INFO", r'.pathInfo] ∧
          ∃ es, packetVars r'.packet = some es ∧ r'.hvec = tableOf es
      else r'.path_info = r.path_info ∧ r'.path_info_len = r.path_info_len ∧ r'.hvec = r.hvec

/-- `/a` with the index `b`, and a packet without variables. -/
def indexed : IndexRequest :=
  ⟨[SLASH, 97], 2, [], []⟩

end IndexRequest

end Upsgi
