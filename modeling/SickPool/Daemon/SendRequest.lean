import SickPool.Library.CString
import Mathlib.Data.Vector.Basic

/-!
# The reply to a request

`SendRequest` from the point where the request has been sent: the header is received into a
fixed buffer with a NUL behind it until it holds an empty line, the rest of the body into the
result. Every `recv` may deliver any part of what is left of the stream, nothing, or an error.
-/
namespace SickPool.Daemon

open SickPool.Library SickPool.Library.Bytes SickPool.Library.CString

def HTTP_HEADER_SIZE : Nat := 1024 * 16

/-- Linux numbers its errors from 1 to 133. -/
abbrev Errno := Fin 134

/-- What a `recv` meets: so many bytes and one more at hand, or an error. -/
inductive Cut where
  | ready (more : Nat)
  | error (errno : Errno)

/-- The connection after `send`: the bytes the daemon sends before it closes, what each `recv`
meets, the `errno` left from earlier calls, and the header buffer, which is not initialised. -/
structure Net where
  stream : Bytes
  cuts : Nat → Cut
  errno : Errno
  headerBuff : List.Vector UInt8 HTTP_HEADER_SIZE

inductive RecvRes where
  | bytes (data rest : Bytes)
  | closed
  | failed (errno : Errno)

/-- The `i`-th `recv`, with `rest` of the stream still to come. -/
def Net.recv (net : Net) (i : Nat) (rest : Bytes) (len : Nat) : RecvRes :=
  match net.cuts i with
  | .error errno => .failed errno
  | .ready more =>
    if len = 0 ∨ rest = [] then .closed
    else .bytes (rest.take (min (more + 1) len)) (rest.drop (min (more + 1) len))

theorem Net.recv_bytes {net : Net} {i len : Nat} {rest data rest' : Bytes}
    (h : net.recv i rest len = .bytes data rest') :
    rest = data ++ rest' ∧ data ≠ [] ∧ data.length ≤ len := by
  unfold Net.recv at h
  split at h
  · exact absurd h (by simp)
  · rename_i more _
    split at h
    · exact absurd h (by simp)
    · rename_i hne
      obtain ⟨rfl, rfl⟩ := RecvRes.bytes.inj h
      rw [not_or] at hne
      refine ⟨(List.take_append_drop _ _).symm, ?_, ?_⟩
      · intro hnil
        rcases List.take_eq_nil_iff.mp hnil with h0 | h0
        · omega
        · exact hne.2 h0
      · rw [List.length_take]
        omega

theorem Net.recv_bytes_lt {net : Net} {i len : Nat} {rest data rest' : Bytes}
    (h : net.recv i rest len = .bytes data rest') : rest'.length < rest.length := by
  obtain ⟨rfl, hne, -⟩ := net.recv_bytes h
  have hpos := List.length_pos_iff.mpr hne
  rw [List.length_append]
  omega

/-- A copy into a buffer; `none` when it would leave the buffer. -/
def store (buff : Bytes) (pos : Nat) (src : Bytes) : Option Bytes :=
  if pos + src.length ≤ buff.length then some (writeAt buff pos src) else none

/-- How the header loop ends: with the error or the end of the stream, with a write behind the
buffer, or with an empty line. -/
inductive HeaderEnd where
  | failed (errno : Errno) (rest : Bytes)
  | overrun
  | found (headerBuff : Bytes) (headerRecv endOfHeader i : Nat) (rest : Bytes)

def emptyLine : Bytes := ascii "\r\n\r\n"

def contentLengthKey : Bytes := ascii "Content-Length: "

/-- The `do` loop that receives the header. -/
def headerLoop (net : Net) (i : Nat) (rest headerBuff : Bytes) (headerRecv : Nat) : HeaderEnd :=
  match _h : net.recv i rest (HTTP_HEADER_SIZE - headerRecv) with
  | .failed errno => .failed errno rest
  | .closed => .failed net.errno rest
  | .bytes data rest' =>
    match (store headerBuff headerRecv data).bind
        (fun buff => store buff (headerRecv + data.length) [0]) with
    | none => .overrun
    | some buff =>
      match strstr buff emptyLine with
      | some pos => .found buff (headerRecv + data.length) (pos + 4) (i + 1) rest'
      | none => headerLoop net (i + 1) rest' buff (headerRecv + data.length)
  termination_by rest.length
  decreasing_by exact net.recv_bytes_lt _h

/-- The `while` loop that receives the rest of the body; `none` is a write behind the result. A
failed `recv` adds -1 as a `size_t`. -/
def bodyLoop (net : Net) (contentLength : Fin (2 ^ 31)) (i : Nat) (rest result : Bytes)
    (contentReceived : Nat) : Option (Bytes × Bytes) :=
  if contentReceived < contentLength then
    match _h : net.recv i rest (contentLength - contentReceived) with
    | .closed => some (result, rest)
    | .failed _ =>
      bodyLoop net contentLength (i + 1) rest result ((contentReceived + (2 ^ 64 - 1)) % 2 ^ 64)
    | .bytes data rest' =>
      match store result contentReceived data with
      | none => none
      | some result =>
        bodyLoop net contentLength (i + 1) rest' result (contentReceived + data.length)
  else some (result, rest)
  termination_by (rest.length, if contentReceived < contentLength then contentReceived + 1 else 0)
  decreasing_by
    · apply Prod.Lex.right
      split <;> omega
    · exact Prod.Lex.left _ _ (net.recv_bytes_lt _h)

/-- What becomes of a call: the value returned with `result` and what was not received, a write
out of range, the search result `nullptr` read as a text, the exception of `resize`, or the end of
the process by a signal. -/
inductive Reply where
  | returned (code : Int) (result rest : Bytes)
  | overrun
  | nullPointer
  | lengthError
  | killed

/-- `std::string::resize`. -/
def resize (result : Bytes) (n : Nat) : Bytes := (result ++ List.replicate n 0).take n

/-- The body of a reply of status 200. -/
def receiveBody (net : Net) (result headerBuff : Bytes) (headerRecv endOfHeader i : Nat)
    (rest : Bytes) (contentLength : Fin (2 ^ 31)) : Reply :=
  let contentReceived := min (headerRecv - endOfHeader) contentLength
  match (store (resize result contentLength) 0
      ((headerBuff.drop endOfHeader).take contentReceived)).bind
      (fun result => bodyLoop net contentLength i rest result contentReceived) with
  | none => .overrun
  | some (result, rest) => .returned 200 result rest

/-- `SendRequest` behind the header loop. -/
def readReply (net : Net) (result headerBuff : Bytes) (headerRecv endOfHeader i : Nat)
    (rest : Bytes) : Reply :=
  match strstr headerBuff contentLengthKey with
  | none => .nullPointer
  | some pos =>
    if atoi (headerBuff.drop 9) ≠ 200 then
      .returned (atoi (headerBuff.drop 9)) (headerBuff.take headerRecv) rest
    else if 0 ≤ atoi (headerBuff.drop (pos + 16)) then
      receiveBody net result headerBuff headerRecv endOfHeader i rest
        ⟨(atoi (headerBuff.drop (pos + 16))).toNat, toNat_atoi_lt _⟩
    else .lengthError

/-- `SendRequest` from the first `recv` on. -/
def receiveReply (net : Net) (result : Bytes) : Reply :=
  match headerLoop net 0 net.stream net.headerBuff.toList 0 with
  | .failed errno rest => .returned errno.val result rest
  | .overrun => .overrun
  | .found headerBuff headerRecv endOfHeader i rest =>
    readReply net result headerBuff headerRecv endOfHeader i rest

end SickPool.Daemon
