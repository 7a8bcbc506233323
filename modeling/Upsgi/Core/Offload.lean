import Upsgi.Core.FirstWrite

/-! # Sending a file, in the request or by an offload thread

    `upsgi_response_sendfile_do_can_close` of `core/writer.c` sends a part of a file to
    the client.  Without offloading it calls `upsgi_proto_base_sendfile` until the part is
    sent.  With offloading it hands the connection and the file to a thread, which runs
    the engine of `core/offload.c` each time the connection can be written.

    The file is a list of bytes that does not change meanwhile.  A result `wrote n` of a
    schedule is a call of Linux' `sendfile` for which the connection has room for `n + 1`
    bytes.  The choice of the thread is left out, and so are the other engines.
-/

namespace Upsgi

open Framing (Bytes)
open List

/-! ### The system call -/

/-- The bytes `pos` to `pos + len - 1` of a file. -/
def fileRange (file : Bytes) (pos len : Nat) : Bytes :=
  (file.drop pos).take len

/-- What `sendfile` transfers from `pos` on when it is asked for `count` bytes. -/
def sendfile (file : Bytes) (pos count n : Nat) : Bytes :=
  fileRange file pos (min (n + 1) count)

/-! ### Sending in the request -/

/-- `upsgi_proto_base_sendfile`.  The position never passes `len`. -/
def upsgi_proto_base_sendfile (file : Bytes) (pos len : Nat) (res : Response) :
    WriteCall → ProtoRet × Response
  | .wrote n =>
      let bs := sendfile file (pos + res.write_pos) (len - res.write_pos) n
      if bs = [] then (.fail, res)
      else if (res.accept bs).write_pos = len then (.ok, res.accept bs)
      else (.more, res.accept bs)
  | .again ready => (.again ready, res)
  | .failed => (.fail, res)

/-- The loop around `proto_sendfile`. -/
def sendfileLoop (file : Bytes) (pos len : Nat) :
    List WriteCall → Response → WriteRet × Response × List WriteCall
  | [], res => (.pending, res, [])
  | w :: ws, res =>
      match upsgi_proto_base_sendfile file pos len res w with
      | (.ok, res) => (.ok, res, ws)
      | (.more, res) => sendfileLoop file pos len ws res
      | (.again true, res) => sendfileLoop file pos len ws res
      | (.again false, res) => (.error, res.fail, ws)
      | (.fail, res) => (.error, res.fail, ws)

/-! ### The offload engine -/

/-- The fields of `struct upsgi_offload_request` that the engine uses.  `sent` is what
    the engine has sent to `fd2`. -/
structure OffloadRequest where
  s : Int
  fd : Int
  fd2 : Int
  takeover : Bool
  name : Option Bytes
  pos : Nat
  len : Nat
  written : Nat
  sent : Bytes
  deriving DecidableEq, Repr

/-- What the system answers around a transfer. -/
structure OffloadEnv where
  /-- The file of a name. -/
  openFile : Option Int
  /-- The size of the file. -/
  fstat : Option Nat
  /-- The request was written to the pipe of the thread as a whole. -/
  enqueued : Bool
  deriving DecidableEq, Repr

def upsgi_offload_setup (s : Int) (takeover : Bool) : OffloadRequest :=
  { s := s, fd := -1, fd2 := -1, takeover := takeover, name := none, pos := 0, len := 0,
    written := 0, sent := [] }

def u_offload_sendfile_prepare (env : OffloadEnv) (uor : OffloadRequest) :
    Option OffloadRequest :=
  if uor.name = none ∧ uor.fd = -1 then none
  else
    match if uor.name = none then some uor.fd else env.openFile,
      if uor.len = 0 then env.fstat else some uor.len with
    | some fd, some len =>
        some { uor with
          fd := fd, len := len, fd2 := if uor.fd2 = -1 then uor.s else uor.fd2, s := -1 }
    | _, _ => none

/-- `upsgi_offload_run` without a waiter: the request that the thread gets. -/
def upsgi_offload_run (env : OffloadEnv) (uor : OffloadRequest) : Option OffloadRequest :=
  match u_offload_sendfile_prepare env uor with
  | some uor => if env.enqueued then some uor else none
  | none => none

def upsgi_offload_request_sendfile_do (env : OffloadEnv) (s fd : Int) (pos len : Nat) :
    Option OffloadRequest :=
  upsgi_offload_run env { upsgi_offload_setup s true with fd := fd, len := len, pos := pos }

/-- The engine sends some bytes. -/
def OffloadRequest.accept (uor : OffloadRequest) (bs : Bytes) : OffloadRequest :=
  { uor with
    pos := uor.pos + bs.length, written := uor.written + bs.length, sent := uor.sent ++ bs }

/-- The count of each call of `sendfile` in the engine. -/
def offloadCount : Nat := 128 * 1024

/-- `u_offload_sendfile_do` when the connection can be written, and whether the task is
    over. -/
def u_offload_sendfile_do (file : Bytes) (uor : OffloadRequest) :
    WriteCall → Bool × OffloadRequest
  | .wrote n =>
      -- the count does not depend on `len`
      let bs := sendfile file uor.pos offloadCount n
      if bs = [] then (true, uor)
      else (decide (uor.len ≤ (uor.accept bs).written), uor.accept bs)
  -- the thread waits for the next event, without a timeout
  | .again _ => (false, uor)
  | .failed => (true, uor)

/-- The events of one task, until it is over. -/
def offloadRun (file : Bytes) : List WriteCall → OffloadRequest → Bool × OffloadRequest
  | [], uor => (false, uor)
  | w :: ws, uor =>
      match u_offload_sendfile_do file uor w with
      | (true, uor) => (true, uor)
      | (false, uor) => offloadRun file ws uor

/-! ### The thread -/

/-- The tasks of a thread.  `closed` are those that are over. -/
structure OffloadThread where
  requests : List OffloadRequest := []
  closed : List OffloadRequest := []
  deriving DecidableEq, Repr

/-- What `upsgi_offload_loop` gets from its queue. -/
inductive OffloadEvent where
  /-- A request arrives on the pipe; whether its connection could be added to the queue. -/
  | submit (uor : OffloadRequest) (added : Bool)
  /-- A descriptor can be written. -/
  | ready (fd : Int) (w : WriteCall)
  deriving DecidableEq, Repr

/-- The task that `upsgi_offload_get_by_fd` finds is run: the tasks that are left and the
    one that is closed. -/
def runTask (files : Int → Bytes) (fd : Int) (w : WriteCall) :
    List OffloadRequest → List OffloadRequest × List OffloadRequest
  | [] => ([], [])
  | uor :: uors =>
      if uor.s = fd ∨ uor.fd = fd ∨ uor.fd2 = fd then
        match u_offload_sendfile_do (files uor.fd) uor w with
        | (true, uor) => (uors, [uor])
        | (false, uor) => (uor :: uors, [])
      else
        let (left, ended) := runTask files fd w uors
        (uor :: left, ended)

/-- One event of `upsgi_offload_loop`. -/
def upsgi_offload_loop (files : Int → Bytes) (ut : OffloadThread) :
    OffloadEvent → Option OffloadThread
  | .submit uor true => some { ut with requests := ut.requests ++ [uor] }
  | .submit uor false => some { ut with closed := ut.closed ++ [uor] }
  | .ready fd w =>
      let (left, ended) := runTask files fd w ut.requests
      some { requests := left, closed := ut.closed ++ ended }

/-! ### The whole call -/

/-- What `upsgi_response_sendfile_do_can_close` looks at besides the response. -/
structure SendfileEnv extends OffloadEnv where
  /-- `wsgi_req->fd`. -/
  client : Int
  sendfile_fd : Int
  can_offload : Bool
  dup : Option Int
  deriving DecidableEq, Repr

/-- What a call did: the descriptors it closed, and the task it left to a thread. -/
structure SendfileResult where
  ret : WriteRet
  res : Response
  rest : List WriteCall
  closed : List Int := []
  offload : Option OffloadRequest := none
  deriving DecidableEq, Repr

/-- `if (can_close) close(fd)`. -/
def closing (can_close : Bool) (fd : Int) : List Int :=
  if can_close then [fd] else []

/-- Behind the label `sendfile`, where the length is known. -/
def sendPart (env : SendfileEnv) (file : Bytes) (fd : Int) (pos len : Nat) (can_close : Bool)
    (ws : List WriteCall) (res : Response) : SendfileResult :=
  if env.can_offload then
    -- a descriptor that stays with the application is duplicated for the thread
    match (if can_close then some fd else env.dup) with
    | none => { ret := .error, res := res.fail, rest := ws }
    | some fd =>
        match upsgi_offload_request_sendfile_do env.toOffloadEnv env.client fd pos len with
        | some uor =>
            { ret := .ok, res := { res with response_size := res.response_size + len }, rest := ws,
              offload := some uor }
        | none => { ret := .error, res := res.fail, rest := ws, closed := [fd] }
  else
    match sendfileLoop file pos len ws res with
    | (.ok, res, ws) =>
        { ret := .ok, res := res.bodyDone, rest := ws, closed := closing can_close fd }
    | (.error, res, ws) => { ret := .error, res := res, rest := ws, closed := closing can_close fd }
    | (.pending, res, ws) => { ret := .pending, res := res, rest := ws }

/-- The label `sendfile`.  A length of 0 stands for the size of the file. -/
def sendfileLabel (env : SendfileEnv) (file : Bytes) (fd : Int) (pos len : Nat)
    (can_close : Bool) (ws : List WriteCall) (res : Response) : SendfileResult :=
  if len = 0 then
    match env.fstat with
    | none => { ret := .error, res := res.fail, rest := ws, closed := closing can_close fd }
    | some st_size =>
        if st_size ≤ pos then { ret := .ok, res := res, rest := ws, closed := closing can_close fd }
        else sendPart env file fd pos st_size can_close ws res
  else sendPart env file fd pos len can_close ws res

def upsgi_response_sendfile_do_can_close (env : SendfileEnv) (prepare : Bytes → Prepared)
    (file : Bytes) (fd : Int) (pos len : Nat) (can_close : Bool) (ws : List WriteCall)
    (res : Response) : SendfileResult :=
  let can_close := if fd = env.sendfile_fd then false else can_close
  if res.write_errors ≠ 0 then
    { ret := .error, res := res, rest := ws, closed := closing can_close fd }
  else if res.ignore_body then
    { ret := .ok, res := res, rest := ws, closed := closing can_close fd }
  else if res.headers_sent then sendfileLabel env file fd pos len can_close ws res
  else
    match upsgi_response_write_headers_do prepare ws res with
    | (.ok, res, ws) => sendfileLabel env file fd pos len can_close ws res
    | (.error, res, ws) =>
        { ret := .error, res := res.fail, rest := ws, closed := closing can_close fd }
    | (.pending, res, ws) => { ret := .pending, res := res, rest := ws }

/-! ### Parts of a file -/

section Parts

variable {file : Bytes} {pos len : Nat}

theorem fileRange_append (file : Bytes) (pos a b : Nat) :
    fileRange file pos a ++ fileRange file (pos + a) b = fileRange file pos (a + b) := by
  unfold fileRange
  rw [take_add, drop_drop]

theorem length_fileRange (h : pos + len ≤ file.length) : (fileRange file pos len).length = len := by
  unfold fileRange
  rw [length_take, length_drop]
  omega

theorem fileRange_prefix (file : Bytes) (pos : Nat) {a b : Nat} (h : a ≤ b) :
    fileRange file pos a <+: fileRange file pos b :=
  take_prefix_take_left h

theorem length_sendfile (file : Bytes) (pos count n : Nat) :
    (sendfile file pos count n).length = min (min (n + 1) count) (file.length - pos) := by
  unfold sendfile fileRange
  rw [length_take, length_drop]

/-- A call with bytes left in the file transfers some of them, and all it has room for
    when they are there. -/
theorem length_sendfile_succ {count : Nat} (n : Nat) (hcount : 0 < count)
    (hleft : pos < file.length) :
    ∃ k, (sendfile file pos count n).length = k + 1 ∧ k ≤ n ∧ pos + (k + 1) ≤ file.length ∧
      (n < count → pos + (n + 1) ≤ file.length → k = n) := by
  refine ⟨min (min (n + 1) count) (file.length - pos) - 1, ?_, ?_, ?_, ?_⟩
  · rw [length_sendfile]
    omega
  · omega
  · omega
  · omega

/-- What a call transfers is cut from the file at `pos`. -/
theorem sendfile_eq (file : Bytes) (pos count n : Nat) :
    sendfile file pos count n = fileRange file pos (sendfile file pos count n).length := by
  unfold sendfile fileRange
  rw [length_take, take_eq_take_iff]
  omega

end Parts

/-! ### Schedules -/

/-- The system call does not fail, and neither does a wait behind it. -/
def WriteCall.Unfailing : WriteCall → Prop
  | .wrote _ => True
  | .again ready => ready = true
  | .failed => False

/-- The system call transfers something. -/
def WriteCall.takes : WriteCall → Bool
  | .wrote _ => true
  | _ => false

/-- Every transfer takes a byte, so that as many as there are bytes left are enough. -/
theorem acceptRest_of_takes {ws : List WriteCall} {left : Nat}
    (hws : ∀ w ∈ ws, w.Unfailing) (hleft : left ≤ ws.countP WriteCall.takes) :
    ∃ rest, acceptRest left ws = some rest := by
  induction ws generalizing left with
  | nil =>
    rw [Nat.le_zero.mp hleft]
    exact ⟨[], rfl⟩
  | cons w ws ih =>
    have hrest := fun v hv => hws v (mem_cons_of_mem w hv)
    cases left with
    | zero => exact ⟨w :: ws, rfl⟩
    | succ left =>
      cases w with
      | wrote n =>
        rw [countP_cons_of_pos rfl] at hleft
        exact ih hrest (by omega)
      | again ready =>
        have hready : ready = true := hws _ mem_cons_self
        rw [hready]
        exact ih hrest hleft
      | failed => exact absurd (hws _ mem_cons_self) id

/-- The task of sending a part of a file: under every schedule without failures nothing
    else is sent, all of it is when the task is over, and the task is over after as many
    transfers as there are bytes. -/
structure Delivers (part : Bytes) (run : List WriteCall → Bool × Bytes) : Prop where
  before : ∀ ws, (∀ w ∈ ws, w.Unfailing) → (run ws).2 <+: part
  finished : ∀ ws, (∀ w ∈ ws, w.Unfailing) → (run ws).1 = true → (run ws).2 = part
  enough : ∀ ws, (∀ w ∈ ws, w.Unfailing) → part.length ≤ ws.countP WriteCall.takes →
    (run ws).1 = true

/-! ### Sending in the request is writing the part -/

section InRequest

variable {file : Bytes} {pos len : Nat}

theorem proto_base_sendfile_eq (hfit : pos + len ≤ file.length) (res : Response) (w : WriteCall) :
    upsgi_proto_base_sendfile file pos len res w =
      upsgi_proto_base_write res (fileRange file pos len) w := by
  cases w with
  | wrote n =>
    have hbytes : sendfile file (pos + res.write_pos) (len - res.write_pos) n =
        ((fileRange file pos len).drop res.write_pos).take (n + 1) := by
      unfold sendfile fileRange
      rw [drop_take, take_take, drop_drop]
    unfold upsgi_proto_base_sendfile upsgi_proto_base_write
    dsimp only
    rw [hbytes, length_fileRange hfit]
  | again ready | failed => rfl

/-- However the results come, the loop does what `writeLoop` does with the bytes of the
    part. -/
theorem sendfileLoop_eq (hfit : pos + len ≤ file.length) (ws : List WriteCall) (res : Response) :
    sendfileLoop file pos len ws res = writeLoop (fileRange file pos len) ws res := by
  induction ws generalizing res with
  | nil => rfl
  | cons w ws ih =>
    unfold sendfileLoop writeLoop
    rw [proto_base_sendfile_eq hfit]
    obtain ⟨ret, res'⟩ := upsgi_proto_base_write res (fileRange file pos len) w
    cases ret with
    | ok | fail => rfl
    | more => exact ih res'
    | again ready =>
      cases ready with
      | true => exact ih res'
      | false => rfl

end InRequest

/-- A write has sent the bytes between the two positions. -/
structure WroteTo (buf : Bytes) (res res' : Response) : Prop where
  forward : res.write_pos ≤ res'.write_pos
  sent : res'.sent = res.sent ++ fileRange buf res.write_pos (res'.write_pos - res.write_pos)

theorem WroteTo.refl (buf : Bytes) (res : Response) : WroteTo buf res res where
  forward := Nat.le_refl _
  sent := by
    rw [Nat.sub_self]
    exact (append_nil _).symm

theorem WroteTo.trans {buf : Bytes} {res₁ res₂ res₃ : Response} (h₁ : WroteTo buf res₁ res₂)
    (h₂ : WroteTo buf res₂ res₃) : WroteTo buf res₁ res₃ where
  forward := Nat.le_trans h₁.forward h₂.forward
  sent := by
    obtain ⟨a, ha⟩ := Nat.le.dest h₁.forward
    obtain ⟨b, hb⟩ := Nat.le.dest h₂.forward
    have hab : res₃.write_pos - res₁.write_pos = a + b := by omega
    rw [h₂.sent, h₁.sent, append_assoc, hab, ← hb, ← ha, Nat.add_sub_cancel_left,
      Nat.add_sub_cancel_left, fileRange_append]

theorem wroteTo_accept (buf : Bytes) (res : Response) (n : Nat) :
    WroteTo buf res (res.accept ((buf.drop res.write_pos).take n)) where
  forward := Nat.le_add_right _ _
  sent := by
    show res.sent ++ _ = res.sent ++ _
    unfold fileRange Response.accept
    rw [Nat.add_sub_cancel_left, length_take, ← take_eq_take_min]

/-- The loop writes the buffer from the position on, and to its end when it succeeds. -/
theorem writeLoop_wroteTo (buf : Bytes) (ws : List WriteCall) (res : Response) :
    WroteTo buf res (writeLoop buf ws res).2.1 ∧
      ((writeLoop buf ws res).1 = .ok → (writeLoop buf ws res).2.1.write_pos = buf.length) := by
  induction ws generalizing res with
  | nil => exact ⟨WroteTo.refl buf res, fun h => (by cases h)⟩
  | cons w ws ih =>
    have hfail : WroteTo buf res res.fail := ⟨Nat.le_refl _, (WroteTo.refl buf res).sent⟩
    unfold writeLoop
    cases w with
    | wrote n =>
      have haccept := wroteTo_accept buf res (n + 1)
      unfold upsgi_proto_base_write
      dsimp only
      generalize (buf.drop res.write_pos).take (n + 1) = bs at haccept
      by_cases hnone : bs = []
      · rw [if_pos hnone]
        exact ⟨hfail, fun h => (by cases h)⟩
      rw [if_neg hnone]
      by_cases hall : (res.accept bs).write_pos = buf.length
      · rw [if_pos hall]
        exact ⟨haccept, fun _ => hall⟩
      · rw [if_neg hall]
        exact ⟨haccept.trans (ih _).1, (ih _).2⟩
    | again ready =>
      cases ready with
      | true => exact ih res
      | false => exact ⟨hfail, fun h => (by cases h)⟩
    | failed => exact ⟨hfail, fun h => (by cases h)⟩

/-- What the loop of `upsgi_response_sendfile_do_can_close` sends of a part of a file, and
    whether it succeeds. -/
def sendfileSent (file : Bytes) (pos len : Nat) (ws : List WriteCall) : Bool × Bytes :=
  let (ret, res, _) := sendfileLoop file pos len ws { headers_sent := true }
  (decide (ret = .ok), res.sent)

/-- Without offloading the client gets the part. -/
theorem sendfileSent_delivers {file : Bytes} {pos len : Nat} (hlen : 0 < len)
    (hfit : pos + len ≤ file.length) :
    Delivers (fileRange file pos len) (sendfileSent file pos len) := by
  have hpart := length_fileRange hfit
  have heq : ∀ ws, sendfileSent file pos len ws =
      (decide ((writeLoop (fileRange file pos len) ws { headers_sent := true }).1 = .ok),
        (writeLoop (fileRange file pos len) ws { headers_sent := true }).2.1.sent) := by
    intro ws
    unfold sendfileSent
    rw [sendfileLoop_eq hfit]
  -- from position 0 the bytes sent are the first ones of the part
  have hsent : ∀ ws, (sendfileSent file pos len ws).2 =
      (fileRange file pos len).take
        (writeLoop (fileRange file pos len) ws { headers_sent := true }).2.1.write_pos := by
    intro ws
    rw [heq]
    exact (writeLoop_wroteTo (fileRange file pos len) ws { headers_sent := true }).1.sent
  refine ⟨fun ws _ => ?_, fun ws _ hok => ?_, fun ws hws hcount => ?_⟩
  · rw [hsent]
    exact take_prefix _ _
  · rw [heq] at hok
    rw [hsent, (writeLoop_wroteTo _ ws _).2 (of_decide_eq_true hok), take_length]
  · obtain ⟨rest, hrest⟩ := acceptRest_of_takes hws hcount
    have hloop := @writeLoop_accepts (fileRange file pos len) { headers_sent := true } ws rest
      (hpart.symm ▸ hlen) hrest
    rw [heq, hloop]
    rfl

/-! ### The engine -/

/-- The engine has sent the bytes of the file from `start` on. -/
structure Transferred (file : Bytes) (start : Nat) (uor : OffloadRequest) : Prop where
  pos : uor.pos = start + uor.written
  inFile : uor.pos ≤ file.length
  sent : uor.sent = fileRange file start uor.written

section Engine

variable {file : Bytes} {start : Nat} {uor : OffloadRequest}

theorem Transferred.length_sent (h : Transferred file start uor) :
    uor.sent.length = uor.written := by
  rw [h.sent]
  exact length_fileRange (h.pos ▸ h.inFile)

theorem Transferred.accept (h : Transferred file start uor) (count n : Nat) :
    Transferred file start (uor.accept (sendfile file uor.pos count n)) where
  pos := by
    show uor.pos + _ = start + (uor.written + _)
    rw [h.pos, Nat.add_assoc]
  inFile := by
    have hle := h.inFile
    show uor.pos + _ ≤ _
    rw [length_sendfile]
    omega
  sent := by
    show uor.sent ++ _ = fileRange file start (uor.written + _)
    rw [h.sent, ← fileRange_append, ← h.pos, ← sendfile_eq]

/-- A call with bytes left in the file: the task is over when `len` bytes are reached or
    passed. -/
theorem sendfile_do_wrote (n : Nat) (hleft : uor.pos < file.length) :
    u_offload_sendfile_do file uor (.wrote n) =
      (decide (uor.len ≤ uor.written + (sendfile file uor.pos offloadCount n).length),
        uor.accept (sendfile file uor.pos offloadCount n)) := by
  obtain ⟨k, hk, -⟩ := length_sendfile_succ n (by decide : 0 < offloadCount) hleft
  have hne : sendfile file uor.pos offloadCount n ≠ [] := by
    intro hnil
    rw [hnil] at hk
    nomatch hk
  unfold u_offload_sendfile_do
  dsimp only
  rw [if_neg hne]
  rfl

theorem sendfile_do_transferred (h : Transferred file start uor) (w : WriteCall) :
    Transferred file start (u_offload_sendfile_do file uor w).2 := by
  cases w with
  | wrote n =>
    unfold u_offload_sendfile_do
    dsimp only
    split
    · exact h
    · exact h.accept _ n
  | again ready | failed => exact h

theorem sendfile_do_len (file : Bytes) (uor : OffloadRequest) (w : WriteCall) :
    (u_offload_sendfile_do file uor w).2.len = uor.len := by
  cases w with
  | wrote n =>
    unfold u_offload_sendfile_do
    dsimp only
    split <;> rfl
  | again ready | failed => rfl

section

variable (h : Transferred file start uor) (hend : start + uor.len = file.length)
    (hmore : uor.written < uor.len)
include h hend hmore

/-- One event of a task whose part is the end of the file: the end of the file is the
    end of the part, so that no call can pass it. -/
theorem sendfile_do_toEnd {w : WriteCall} (hw : w.Unfailing) :
    (u_offload_sendfile_do file uor w).2.written ≤ uor.len ∧
      ((u_offload_sendfile_do file uor w).1 = true ↔
        (u_offload_sendfile_do file uor w).2.written = uor.len) ∧
      uor.written + [w].countP WriteCall.takes ≤ (u_offload_sendfile_do file uor w).2.written := by
  cases w with
  | wrote n =>
    have hpos := h.pos
    have hleft : uor.pos < file.length := by omega
    obtain ⟨k, hk, -, hfile, -⟩ := length_sendfile_succ n (by decide : 0 < offloadCount) hleft
    have hwritten : (uor.accept (sendfile file uor.pos offloadCount n)).written =
        uor.written + (k + 1) := congrArg (uor.written + ·) hk
    rw [sendfile_do_wrote n hleft, decide_eq_true_iff, hwritten, hk]
    refine ⟨by omega, by omega, ?_⟩
    show uor.written + 1 ≤ _
    omega
  | again ready =>
    exact ⟨Nat.le_of_lt hmore, ⟨nofun, fun h => absurd h (Nat.ne_of_lt hmore)⟩, Nat.le_refl _⟩
  | failed => exact absurd hw id

/-- The run of a task whose part is the end of the file. -/
theorem offloadRun_toEnd {ws : List WriteCall} (hws : ∀ w ∈ ws, w.Unfailing) :
    Transferred file start (offloadRun file ws uor).2 ∧
      (offloadRun file ws uor).2.written ≤ uor.len ∧
      ((offloadRun file ws uor).1 = true → (offloadRun file ws uor).2.written = uor.len) ∧
      (uor.len ≤ uor.written + ws.countP WriteCall.takes → (offloadRun file ws uor).1 = true) := by
  induction ws generalizing uor with
  | nil =>
    refine ⟨h, Nat.le_of_lt hmore, nofun, fun hle => ?_⟩
    exact absurd hle (Nat.not_le_of_lt hmore)
  | cons w ws ih =>
    have htransferred := sendfile_do_transferred h w
    have hlen := sendfile_do_len file uor w
    obtain ⟨hle, hover, hcount⟩ := sendfile_do_toEnd h hend hmore (hws w mem_cons_self)
    unfold offloadRun
    generalize u_offload_sendfile_do file uor w = r at htransferred hlen hle hover hcount
    obtain ⟨ended, uor'⟩ := r
    dsimp only at htransferred hlen hle hover hcount
    cases ended with
    | true =>
      exact ⟨htransferred, hle, fun _ => hover.mp rfl, fun _ => rfl⟩
    | false =>
      have hmore' : uor'.written < uor'.len := by
        have hne : uor'.written ≠ uor.len := fun heq => nomatch hover.mpr heq
        omega
      have hrun := ih htransferred (hlen.symm ▸ hend) hmore'
        (fun v hv => hws v (mem_cons_of_mem w hv))
      have hsplit : (w :: ws).countP WriteCall.takes =
          [w].countP WriteCall.takes + ws.countP WriteCall.takes := by
        rw [← countP_append]
        rfl
      rw [hlen] at hrun
      exact ⟨hrun.1, hrun.2.1, hrun.2.2.1, fun htotal => hrun.2.2.2 (by omega)⟩

end

/-- The connection takes the part byte by byte, and then two bytes at once where only one
    belongs to the part. -/
theorem offloadRun_passes (k : Nat) (h : Transferred file start uor)
    (hend : start + uor.len < file.length) (hleft : uor.written + (k + 1) = uor.len) :
    ∃ uor', offloadRun file (List.replicate k (.wrote 0) ++ [.wrote 1]) uor = (true, uor') ∧
      Transferred file start uor' ∧ uor'.written = uor.len + 1 := by
  have hpos := h.pos
  induction k generalizing uor with
  | zero =>
    have hleft : uor.pos < file.length := by omega
    obtain ⟨k, hk, -, -, hall⟩ := length_sendfile_succ 1 (by decide : 0 < offloadCount) hleft
    have htwo : k = 1 := hall (by decide) (by omega)
    refine ⟨_, ?_, h.accept offloadCount 1, ?_⟩
    · show offloadRun file [.wrote 1] uor = _
      rw [offloadRun, sendfile_do_wrote 1 hleft, decide_eq_true (by omega)]
    · show uor.written + _ = _
      omega
  | succ k ih =>
    have hleft : uor.pos < file.length := by omega
    obtain ⟨j, hj, hone, -⟩ := length_sendfile_succ 0 (by decide : 0 < offloadCount) hleft
    have hnext := h.accept offloadCount 0
    have hwritten : (uor.accept (sendfile file uor.pos offloadCount 0)).written =
        uor.written + (j + 1) := congrArg (uor.written + ·) hj
    obtain ⟨uor', hrun, htransferred, hpassed⟩ := ih hnext hend
      (by rw [hwritten]; show _ = uor.len; omega) hnext.pos
    refine ⟨uor', ?_, htransferred, hpassed⟩
    rw [replicate_succ, cons_append, offloadRun, sendfile_do_wrote 0 hleft,
      decide_eq_false (by omega)]
    exact hrun

end Engine

/-- What the engine sends for a request, and whether the task is over. -/
def offloadSent (file : Bytes) (uor : OffloadRequest) (ws : List WriteCall) : Bool × Bytes :=
  let (ended, uor) := offloadRun file ws uor
  (ended, uor.sent)

theorem sendfile_prepare_fd (env : OffloadEnv) {uor : OffloadRequest} (hname : uor.name = none)
    (hlen : uor.len ≠ 0) :
    u_offload_sendfile_prepare env uor =
      if uor.fd = -1 then none
      else some { uor with fd2 := if uor.fd2 = -1 then uor.s else uor.fd2, s := -1 } := by
  unfold u_offload_sendfile_prepare
  by_cases hfd : uor.fd = -1
  · rw [if_pos ⟨hname, hfd⟩, if_pos hfd]
  · rw [if_neg (fun hnone => hfd hnone.2), if_neg hfd, if_pos hname, if_neg hlen]

/-- The task that the thread gets. -/
theorem request_sendfile_do_some {env : OffloadEnv} {s fd : Int} {pos len : Nat}
    {uor : OffloadRequest} (hlen : 0 < len)
    (h : upsgi_offload_request_sendfile_do env s fd pos len = some uor) :
    uor = { s := -1, fd := fd, fd2 := s, takeover := true, name := none, pos := pos, len := len,
            written := 0, sent := [] } := by
  unfold upsgi_offload_request_sendfile_do upsgi_offload_run at h
  rw [sendfile_prepare_fd env rfl (Nat.ne_of_gt hlen)] at h
  by_cases hfd : fd = -1
  · rw [if_pos hfd] at h
    nomatch h
  · rw [if_neg hfd] at h
    cases henqueued : env.enqueued with
    | false =>
      rw [henqueued] at h
      nomatch h
    | true =>
      rw [henqueued] at h
      exact (Option.some.inj h).symm

/-- Offloading a transfer sends to the client what the request would have sent, under every
    schedule of partial transfers, exactly when the part ends with the file. -/
theorem offload_delivers_part_iff (file : Bytes) (pos len : Nat) (hlen : 0 < len)
    (hfit : pos + len ≤ file.length) (env : OffloadEnv) (s fd : Int) (uor : OffloadRequest)
    (htask : upsgi_offload_request_sendfile_do env s fd pos len = some uor) :
    (Delivers (fileRange file pos len) (offloadSent file uor) ∧
      Delivers (fileRange file pos len) (sendfileSent file pos len)) ↔
      pos + len = file.length := by
  have huor := request_sendfile_do_some hlen htask
  have hpart := length_fileRange hfit
  have hstart : Transferred file pos uor := by
    rw [huor]
    exact ⟨rfl, by show pos ≤ _; omega, rfl⟩
  have hlen' : uor.len = len := by rw [huor]
  have hwritten : uor.written = 0 := by rw [huor]
  constructor
  · rintro ⟨hoffload, -⟩
    refine Nat.le_antisymm hfit (Nat.not_lt.mp fun hlt => ?_)
    -- with bytes of the file behind the part, the last call can pass the part
    obtain ⟨uor', hrun, htransferred, hpassed⟩ :=
      offloadRun_passes (len - 1) hstart (hlen'.symm ▸ hlt) (by omega)
    have hws : ∀ w ∈ List.replicate (len - 1) (WriteCall.wrote 0) ++ [.wrote 1], w.Unfailing := by
      intro w hw
      rcases mem_append.mp hw with hw | hw
      · rw [(mem_replicate.mp hw).2]
        trivial
      · rw [mem_singleton.mp hw]
        trivial
    have hexact := hoffload.finished _ hws (by unfold offloadSent; rw [hrun])
    have hlength := congrArg List.length hexact
    unfold offloadSent at hlength
    rw [hrun, hpart] at hlength
    have hsent : uor'.sent.length = len := hlength
    rw [htransferred.length_sent, hpassed, hlen'] at hsent
    omega
  · intro hend
    refine ⟨?_, sendfileSent_delivers hlen hfit⟩
    have hrun := fun ws (hws : ∀ w ∈ ws, WriteCall.Unfailing w) =>
      offloadRun_toEnd hstart (hlen'.symm ▸ hend) (by omega) hws
    refine ⟨fun ws hws => ?_, fun ws hws hover => ?_, fun ws hws hcount => ?_⟩
    · obtain ⟨hsent, hle, -, -⟩ := hrun ws hws
      show (offloadRun file ws uor).2.sent <+: _
      rw [hsent.sent]
      exact fileRange_prefix file pos (hlen' ▸ hle)
    · obtain ⟨hsent, -, hall, -⟩ := hrun ws hws
      show (offloadRun file ws uor).2.sent = _
      rw [hsent.sent, hall hover, hlen']
    · exact (hrun ws hws).2.2.2 (by omega)

/-- The end of a file, offloaded. -/
theorem offload_delivers_part_end :
    Delivers (fileRange [1, 2, 3] 1 2) (offloadSent [1, 2, 3]
        { s := -1, fd := 7, fd2 := 5, takeover := true, name := none, pos := 1, len := 2,
          written := 0, sent := [] }) ∧
      Delivers (fileRange [1, 2, 3] 1 2) (sendfileSent [1, 2, 3] 1 2) :=
  (offload_delivers_part_iff [1, 2, 3] 1 2 (by decide) (by decide) ⟨none, some 3, true⟩ 5 7 _
    rfl).mpr rfl

/-- The first byte of a file of three, offloaded: the client gets all three. -/
theorem offload_passes_part :
    ∃ uor, upsgi_offload_request_sendfile_do ⟨none, some 3, true⟩ 5 7 0 1 = some uor ∧
      offloadSent [1, 2, 3] uor [.wrote 2] = (true, [1, 2, 3]) ∧
      sendfileSent [1, 2, 3] 0 1 [.wrote 2] = (true, [1]) := by
  refine ⟨_, rfl, ?_, ?_⟩ <;> rfl

/-! ### The thread with any tasks -/

section Thread

variable {files : Int → Bytes}

/-- The client of a task has got the file from some position on, and less than `bound`
    bytes of it. -/
def TaskBelow (files : Int → Bytes) (bound : Nat) (uor : OffloadRequest) : Prop :=
  (∃ start, Transferred (files uor.fd) start uor) ∧ uor.written < bound

/-- The tasks of a thread are not complete, and a task that is over has sent at most one
    call too much. -/
structure ThreadOk (files : Int → Bytes) (ut : OffloadThread) : Prop where
  requests : ∀ uor ∈ ut.requests, TaskBelow files uor.len uor
  closed : ∀ uor ∈ ut.closed, TaskBelow files (uor.len + offloadCount) uor

/-- A request that arrives is one that `upsgi_offload_request_sendfile_do` made for a
    position in the file. -/
def OffloadEvent.Made (files : Int → Bytes) : OffloadEvent → Prop
  | .submit uor _ => ∃ env s fd pos len, 0 < len ∧ pos ≤ (files fd).length ∧
      upsgi_offload_request_sendfile_do env s fd pos len = some uor
  | .ready _ _ => True

variable {uor : OffloadRequest}

theorem made_below {env : OffloadEnv} {s fd : Int} {pos len : Nat} (hlen : 0 < len)
    (hpos : pos ≤ (files fd).length)
    (h : upsgi_offload_request_sendfile_do env s fd pos len = some uor) :
    TaskBelow files uor.len uor := by
  rw [request_sendfile_do_some hlen h]
  exact ⟨⟨pos, rfl, hpos, rfl⟩, hlen⟩

theorem TaskBelow.ended (h : TaskBelow files uor.len uor) :
    TaskBelow files (uor.len + offloadCount) uor :=
  ⟨h.1, Nat.lt_add_right _ h.2⟩

theorem sendfile_do_below (h : TaskBelow files uor.len uor) (w : WriteCall) :
    TaskBelow files (uor.len + offloadCount) (u_offload_sendfile_do (files uor.fd) uor w).2 ∧
      ((u_offload_sendfile_do (files uor.fd) uor w).1 = false →
        TaskBelow files uor.len (u_offload_sendfile_do (files uor.fd) uor w).2) := by
  cases w with
  | wrote n =>
    obtain ⟨⟨start, htransferred⟩, hbelow⟩ := h
    have hlength : (sendfile (files uor.fd) uor.pos offloadCount n).length ≤ offloadCount := by
      rw [length_sendfile]
      exact Nat.le_trans (Nat.min_le_left _ _) (Nat.min_le_right _ _)
    unfold u_offload_sendfile_do
    dsimp only
    split
    · exact ⟨TaskBelow.ended ⟨⟨start, htransferred⟩, hbelow⟩, nofun⟩
    · refine ⟨⟨⟨start, htransferred.accept _ n⟩, ?_⟩, fun hgoes => ?_⟩
      · exact Nat.add_lt_add_of_lt_of_le hbelow hlength
      · exact ⟨⟨start, htransferred.accept _ n⟩, Nat.lt_of_not_le (of_decide_eq_false hgoes)⟩
  | again ready => exact ⟨h.ended, fun _ => h⟩
  | failed => exact ⟨h.ended, nofun⟩

/-- The task that is found is run; the others stay as they are. -/
theorem runTask_below (fd : Int) (w : WriteCall) (uors : List OffloadRequest)
    (h : ∀ uor ∈ uors, TaskBelow files uor.len uor) :
    (∀ uor ∈ (runTask files fd w uors).1, TaskBelow files uor.len uor) ∧
      ∀ uor ∈ (runTask files fd w uors).2, TaskBelow files (uor.len + offloadCount) uor := by
  induction uors with
  | nil => exact ⟨nofun, nofun⟩
  | cons uor uors ih =>
    obtain ⟨hfirst, hrest⟩ := forall_mem_cons.mp h
    unfold runTask
    split
    · have hlen := sendfile_do_len (files uor.fd) uor w
      obtain ⟨hover, hgoes⟩ := sendfile_do_below hfirst w
      rw [← hlen] at hover hgoes
      generalize u_offload_sendfile_do (files uor.fd) uor w = r at hover hgoes
      obtain ⟨ended, uor'⟩ := r
      cases ended with
      | true => exact ⟨hrest, forall_mem_singleton.mpr hover⟩
      | false => exact ⟨forall_mem_cons.mpr ⟨hgoes rfl, hrest⟩, nofun⟩
    · exact ⟨forall_mem_cons.mpr ⟨hfirst, (ih hrest).1⟩, (ih hrest).2⟩

theorem offload_loop_ok {ut ut' : OffloadThread} {e : OffloadEvent} (h : ThreadOk files ut)
    (he : e.Made files) (hstep : upsgi_offload_loop files ut e = some ut') :
    ThreadOk files ut' := by
  cases e with
  | submit uor added =>
    obtain ⟨env, s, fd, pos, len, hlen, hpos, hmade⟩ := he
    have hnew := made_below hlen hpos hmade
    cases added with
    | true =>
      cases hstep
      exact ⟨forall_mem_append.mpr ⟨h.requests, forall_mem_singleton.mpr hnew⟩, h.closed⟩
    | false =>
      cases hstep
      exact ⟨h.requests, forall_mem_append.mpr ⟨h.closed, forall_mem_singleton.mpr hnew.ended⟩⟩
  | ready fd w =>
    obtain ⟨hleft, hover⟩ := runTask_below fd w ut.requests h.requests
    cases hstep
    exact ⟨hleft, forall_mem_append.mpr ⟨h.closed, hover⟩⟩

def oneTask : List OffloadEvent :=
  [.submit ⟨-1, 7, 5, true, none, 1, 2, 0, []⟩ true, .ready 5 (.wrote 0)]

end Thread

/-! ### Descriptors -/

section Descriptors

variable {env : SendfileEnv} {prepare : Bytes → Prepared} {file : Bytes} {fd : Int} {pos len : Nat}
  {can_close : Bool} {ws : List WriteCall} {res : Response}

/-- The descriptors a call disposed of, by closing them or by leaving them to a thread. -/
def SendfileResult.disposed (r : SendfileResult) : List Int :=
  r.closed ++ (r.offload.map OffloadRequest.fd).toList

/-- The call disposed of the file as it should: `can_close` tells whether it was its to
    close, and otherwise only a duplicate was. -/
def Disposed (env : SendfileEnv) (fd : Int) (can_close : Bool) (r : SendfileResult) : Prop :=
  if can_close then r.ret ≠ .pending → r.disposed = [fd] else ∀ d ∈ r.disposed, env.dup = some d

theorem disposed_closing {r : SendfileResult} (hclosed : r.closed = closing can_close fd)
    (hoffload : r.offload = none) : Disposed env fd can_close r := by
  have hdisposed : r.disposed = closing can_close fd := by
    unfold SendfileResult.disposed
    rw [hclosed, hoffload]
    exact append_nil _
  unfold Disposed
  rw [hdisposed]
  cases can_close with
  | true => exact fun _ => rfl
  | false => nofun

theorem disposed_pending {r : SendfileResult} (hret : r.ret = .pending) (hclosed : r.closed = [])
    (hoffload : r.offload = none) : Disposed env fd can_close r := by
  unfold Disposed SendfileResult.disposed
  rw [hclosed, hoffload]
  cases can_close with
  | true => exact fun hne => absurd hret hne
  | false => nofun

theorem sendPart_disposed (hlen : 0 < len) :
    Disposed env fd can_close (sendPart env file fd pos len can_close ws res) := by
  unfold sendPart
  cases env.can_offload with
  | false =>
    obtain ⟨ret, res', rest⟩ := sendfileLoop file pos len ws res
    cases ret with
    | ok | error => exact disposed_closing rfl rfl
    | pending => exact disposed_pending rfl rfl rfl
  | true =>
    -- the thread closes what it is handed, so that `fd` counts as disposed of
    have hmine : ∀ mine, (if can_close then some fd else env.dup) = some mine →
        ∀ r : SendfileResult, r.disposed = [mine] → Disposed env fd can_close r := by
      intro mine heq r hr
      unfold Disposed
      rw [hr]
      cases can_close with
      | true => exact fun _ => congrArg (fun d => [d]) (Option.some.inj heq).symm
      | false => exact forall_mem_singleton.mpr heq
    generalize hdup : (if can_close then some fd else env.dup) = dup at hmine
    cases dup with
    | none =>
      cases can_close with
      | true => nomatch hdup
      | false => nofun
    | some mine =>
      dsimp only
      generalize htask :
        upsgi_offload_request_sendfile_do env.toOffloadEnv env.client mine pos len = task
      cases task with
      | none => exact hmine mine rfl _ rfl
      | some uor =>
        refine hmine mine rfl _ ?_
        show [uor.fd] = [mine]
        rw [request_sendfile_do_some hlen htask]

theorem sendfileLabel_disposed :
    Disposed env fd can_close (sendfileLabel env file fd pos len can_close ws res) := by
  unfold sendfileLabel
  by_cases hlen : len = 0
  · rw [if_pos hlen]
    cases env.fstat with
    | none => exact disposed_closing rfl rfl
    | some st_size =>
      dsimp only
      by_cases hpos : st_size ≤ pos
      · rw [if_pos hpos]
        exact disposed_closing rfl rfl
      · rw [if_neg hpos]
        exact sendPart_disposed (by omega)
  · rw [if_neg hlen]
    exact sendPart_disposed (Nat.pos_of_ne_zero hlen)

end Descriptors

end Upsgi
