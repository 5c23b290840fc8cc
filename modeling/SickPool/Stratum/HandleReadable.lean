import SickPool.Library.Bytes
import SickPool.Library.Lines
import SickPool.Library.Run
import SickPool.Stratum.HandleReq
import Mathlib.Data.Vector.Basic

/-!
# Requests from a socket

The receive side of a `Connection`: `HandleReadable` fills `req_buff` behind `req_pos` and
ends the text with a NUL, `HandleConsumeable` hands every line in it to `HandleReq` and moves
the tail to the front. The requests are the lines of the stream, however it was cut, as long
as the calls of `HandleReq` come to their end.
-/
namespace SickPool.Stratum

open SickPool.Library SickPool.Library.Bytes SickPool.Library.Lines SickPool.Library.Run

variable {σ : Type*}

def REQ_BUFF_SIZE : Nat := 1024 * 24

def SIMDJSON_PADDING : Nat := 64

def REQ_BUFF_SIZE_REAL : Nat := REQ_BUFF_SIZE - SIMDJSON_PADDING

def newline : UInt8 := 10

/-- Subtraction of `size_t`. -/
def sizeSub (a b : Nat) : Nat := (a + 2 ^ 64 - b) % 2 ^ 64

/-- `req_pos` and `req_buff` of a connection, and what `HandleReq` reads and changes, `none`
when a call of it does not come to its end. The other fields are a record of what was done:
the requests handed to `HandleReq`, the indices of `req_buff` that were written, and the two
sides of the subtraction that gives each length passed to `memmove`. -/
structure Receiver (σ : Type*) where
  reqPos : Nat
  reqBuff : Bytes
  closed : Bool
  server : Option σ
  requests : List Bytes
  written : List Nat
  moves : List (Nat × Nat)

/-- What `recv` returns: bytes (none at the end of the stream), `EAGAIN`, after which the
socket is armed again or not, or another error. -/
inductive RecvResult where
  | bytes (data : Bytes)
  | again (rearmed : Bool)
  | error

def RecvResult.data : RecvResult → Bytes
  | bytes data => data
  | _ => []

/-- The stream that a sequence of results of `recv` is. -/
def received (results : List RecvResult) : Bytes := results.flatMap RecvResult.data

/-! ## The handler of the server -/

section Handler

open SickPool.Persistence SickPool.Shares

variable {R : Type} {p : StratumProtocol}

/-- `HandleReq` on the line of a request, with the server and the client it works on. -/
def requestHandler (json : Bytes → Request) (env : Env R) (call : ReqCall)
    (s : Server p R × StratumClient) (line : Bytes) : Option (Server p R × StratumClient) :=
  let h := handleReq env s.1 s.2 (json line) call
  if h.returned then some (h.server, h.client) else none

/-- The lines that `HandleReq` comes to its end for. -/
theorem requestHandler_isSome_iff (json : Bytes → Request) (env : Env R) (call : ReqCall)
    (s : Server p R × StratumClient) (line : Bytes) :
    (requestHandler json env call s line).isSome ↔ Returns env s.1 s.2 (json line) call := by
  rw [← handleReq_returned_iff]
  simp only [requestHandler]
  split <;> simp_all

end Handler

/-! ## The receiver -/

namespace Receiver

/-- A new connection; its buffer is not initialised. -/
def new (buff : List.Vector UInt8 REQ_BUFF_SIZE) (s : σ) : Receiver σ where
  reqPos := 0
  reqBuff := buff.toList
  closed := false
  server := some s
  requests := []
  written := []
  moves := []

def write (c : Receiver σ) (pos : Nat) (src : Bytes) : Receiver σ :=
  { c with
    reqBuff := writeAt c.reqBuff pos src
    written := c.written ++ List.range' pos src.length }

/-- The length `recv` is asked for. -/
def requested (c : Receiver σ) : Nat := sizeSub (sizeSub REQ_BUFF_SIZE_REAL c.reqPos) 1

/-- A receive, with the NUL put behind it. -/
def receive (c : Receiver σ) (data : Bytes) : Receiver σ :=
  let c := { c.write c.reqPos data with reqPos := c.reqPos + data.length }
  c.write c.reqPos [0]

/-- `std::strchr`: the offset of the first such character before the first NUL. -/
def strchr : Bytes → UInt8 → Option Nat
  | [], _ => none
  | b :: bs, ch => if b = ch then some 0 else if b = 0 then none else (strchr bs ch).map (· + 1)

theorem strchr_some {s : Bytes} {ch : UInt8} {off : Nat} (h : strchr s ch = some off) :
    ∃ as bs, s = as ++ ch :: bs ∧ as.length = off ∧ ch ∉ as ∧ 0 ∉ as := by
  induction s generalizing off with
  | nil => simp [strchr] at h
  | cons b bs ih =>
    rw [strchr] at h
    split at h
    · rename_i hb
      obtain rfl := Option.some.inj h
      exact ⟨[], bs, by rw [hb, List.nil_append], rfl, by simp, by simp⟩
    · rename_i hb
      split at h
      · simp at h
      · rename_i h0
        obtain ⟨k, hk, rfl⟩ := Option.map_eq_some_iff.mp h
        obtain ⟨as, cs, rfl, hlen, hch, hnul⟩ := ih hk
        refine ⟨b :: as, cs, rfl, by simp [hlen], ?_, ?_⟩
        · simp [hch, Ne.symm hb]
        · simp [hnul, Ne.symm h0]

theorem strchr_lt {s : Bytes} {ch : UInt8} {off : Nat} (h : strchr s ch = some off) :
    off < s.length := by
  obtain ⟨as, bs, rfl, rfl, -⟩ := strchr_some h
  simp

/-- What the loop of `HandleConsumeable` does: the requests it hands over, what `HandleReq`
leaves, and the index of the last newline behind a request. -/
structure Consumed (σ : Type*) where
  requests : List Bytes
  server : Option σ
  lastReqEnd : Option Nat

/-- The loop of `HandleConsumeable` from one request start on. -/
def handleRequests (handleReq : σ → Bytes → Option σ) (s : σ) (buffer : Bytes) (reqStart : Nat) :
    Consumed σ :=
  match _h : strchr (buffer.drop reqStart) newline with
  | none => ⟨[], some s, none⟩
  | some reqLen =>
    let req := (buffer.drop reqStart).take reqLen
    match handleReq s req with
    | none => ⟨[req], none, none⟩
    | some s' =>
      let next := handleRequests handleReq s' buffer (reqStart + reqLen + 1)
      ⟨req :: next.requests, next.server, some (next.lastReqEnd.getD (reqStart + reqLen))⟩
termination_by buffer.length - reqStart
decreasing_by
  have hlt := strchr_lt _h
  rw [List.length_drop] at hlt
  omega

/-- The end of `HandleConsumeable`: without a full request the buffer is not touched, else
what lies behind the last one is moved to the front. -/
def moveTail (c : Receiver σ) : Option Nat → Receiver σ
  | none => c
  | some lastReqEnd =>
    let nextReqLen := sizeSub c.reqPos (lastReqEnd + 1)
    let moved := c.write 0 ((c.reqBuff.drop (lastReqEnd + 1)).take nextReqLen)
    { moved.write nextReqLen [0] with
      reqPos := nextReqLen
      moves := c.moves ++ [(c.reqPos, lastReqEnd + 1)] }

/-- `HandleConsumeable`; a call of `HandleReq` that does not come to its end is its last step. -/
def handleConsumeable (handleReq : σ → Bytes → Option σ) (c : Receiver σ) (s : σ) : Receiver σ :=
  let r := handleRequests handleReq s c.reqBuff 0
  let c := { c with requests := c.requests ++ r.requests, server := r.server }
  match r.server with
  | none => c
  | some _ => c.moveTail r.lastReqEnd

/-- One turn of the loop of `HandleReadable`. A connection is read until it is closed or a
call of `HandleReq` does not come to its end. -/
def step (handleReq : σ → Bytes → Option σ) (c : Receiver σ) (r : RecvResult) : Receiver σ :=
  if c.closed then c
  else match c.server with
    | none => c
    | some s => match r with
      | .error => { c with closed := true }
      | .again rearmed => { c with closed := !rearmed }
      | .bytes data =>
        { (c.receive data).handleConsumeable handleReq s with
          closed := decide (data.length = 0) }

/-- A result `recv` can have: the connection is read, and no more comes than was asked for. -/
structure Fits (c : Receiver σ) (r : RecvResult) : Prop where
  reads : c.closed = false
  returns : c.server.isSome
  length : r.data.length ≤ c.requested

/-! ## The text in the buffer -/

/-- The buffer holds `text`, ended by a NUL at `req_pos`. -/
def Holds (c : Receiver σ) (text : Bytes) : Prop :=
  text.length = c.reqPos ∧ ∃ tail, c.reqBuff = text ++ 0 :: tail

/-- `req_buff[req_pos]` is NUL. -/
def Sentinel (c : Receiver σ) : Prop := c.reqBuff[c.reqPos]? = some 0

theorem Holds.sentinel {c : Receiver σ} {text : Bytes} (h : c.Holds text) : c.Sentinel := by
  obtain ⟨hlen, tail, hb⟩ := h
  rw [Sentinel, hb, ← hlen]
  simp

theorem Holds.take {c : Receiver σ} {text : Bytes} (h : c.Holds text) :
    c.reqBuff.take c.reqPos = text := by
  obtain ⟨hlen, tail, hb⟩ := h
  rw [hb, ← hlen, List.take_left]

theorem strchr_notMem {text tail : Bytes} {ch : UInt8} (h : strchr (text ++ 0 :: tail) ch = none)
    (h0 : 0 ∉ text) : ch ∉ text := by
  induction text with
  | nil => simp
  | cons b bs ih =>
    rw [List.cons_append, strchr] at h
    rw [List.mem_cons, not_or] at h0
    split at h
    · simp at h
    · rename_i hb
      rw [if_neg (Ne.symm h0.1), Option.map_eq_none_iff] at h
      simp [Ne.symm hb, ih h h0.2]

/-- A newline found lies in the text: the search does not pass the NUL behind it. -/
theorem strchr_text {text tail : Bytes} {off : Nat}
    (h : strchr (text ++ 0 :: tail) newline = some off) :
    ∃ line rest, text = line ++ newline :: rest ∧ line.length = off ∧ newline ∉ line := by
  obtain ⟨as, bs, he, hlen, hn, h0⟩ := strchr_some h
  rcases List.append_eq_append_iff.mp he with ⟨cs, rfl, htail⟩ | ⟨cs, rfl, htail⟩
  · -- the text ends before the newline, so its NUL is in the line or is the newline
    cases cs with
    | nil => exact absurd (List.cons.inj htail).1 (by decide)
    | cons c cs =>
      obtain ⟨rfl, -⟩ := List.cons.inj htail
      exact absurd (by simp) h0
  · cases cs with
    | nil => exact absurd (List.cons.inj htail).1.symm (by decide)
    | cons c cs =>
      obtain ⟨rfl, -⟩ := List.cons.inj htail
      exact ⟨as, cs, rfl, hlen, hn⟩

/-- The loop on a text ended by a NUL: the last newline found lies in the text, and if there
is no other NUL the lines of the text are handed over, with the rest behind the last. -/
theorem handleRequests_spec (handleReq : σ → Bytes → Option σ) (s : σ) {buffer text tail : Bytes}
    {start : Nat} (hb : buffer.drop start = text ++ 0 :: tail) :
    let r := handleRequests handleReq s buffer start
    (∀ last, r.lastReqEnd = some last → start ≤ last ∧ last < start + text.length) ∧
      (r.server = none → newline ∈ text) ∧
      (0 ∉ text → r.requests = handed handleReq s (terminated newline text) ∧
        r.server = (terminated newline text).foldlM handleReq s ∧
        (r.server.isSome → text.drop ((r.lastReqEnd.map (· + 1 - start)).getD 0) =
          unterminated newline text)) := by
  fun_induction handleRequests handleReq s buffer start generalizing text with
  | case1 s start hs =>
    refine ⟨by simp, by simp, fun h0 => ?_⟩
    have hn := strchr_notMem (hb ▸ hs) h0
    simp [terminated_of_notMem hn, unterminated_of_notMem hn]
  | case2 s start reqLen hs req =>
    rename_i hreq
    obtain ⟨line, rest, rfl, rfl, hn⟩ := strchr_text (hb ▸ hs)
    refine ⟨by simp, by simp, fun h0 => ?_⟩
    have hline : req = line := by simp [req, hb]
    rw [hline] at hreq ⊢
    rw [terminated_cut, terminated_of_notMem hn, unterminated_of_notMem hn, List.nil_append,
      List.foldlM_cons, handed, hreq]
    exact ⟨rfl, rfl, fun hsome => absurd hsome (by simp)⟩
  | case3 s start reqLen hs req s' hreq next =>
    rename_i ih
    obtain ⟨line, rest, rfl, rfl, hn⟩ := strchr_text (hb ▸ hs)
    have hrest : buffer.drop (start + line.length + 1) = rest ++ 0 :: tail := by
      rw [Nat.add_assoc, ← List.drop_drop, hb]
      simp
    have hbehind : ∀ m, (line ++ newline :: rest).drop (line.length + 1 + m) = rest.drop m := by
      intro m
      rw [← List.drop_drop]
      simp
    have hline : req = line := by simp [req, hb]
    rw [hline] at hreq
    obtain ⟨ihlast, ihstuck, ihlines⟩ := ih hrest
    have htext : (line ++ newline :: rest).length = line.length + 1 + rest.length := by
      simp
      omega
    refine ⟨?_, fun _ => by simp, ?_⟩
    · intro last hl
      rw [htext]
      cases hnext : next.lastReqEnd with
      | none =>
        obtain rfl : start + line.length = last := by simpa [hnext] using hl
        omega
      | some k =>
        obtain rfl : k = last := by simpa [hnext] using hl
        have hk := ihlast k hnext
        omega
    · intro h0
      have h0' : 0 ∉ rest := fun hm => h0 (by simp [hm])
      obtain ⟨hreqs, hserver, hdrop⟩ := ihlines h0'
      rw [terminated_cut, unterminated_cut, terminated_of_notMem hn, unterminated_of_notMem hn,
        List.nil_append, List.foldlM_cons, handed, hreq]
      refine ⟨by simp [next, hreqs, hline], hserver, fun hsome => ?_⟩
      rw [← hdrop hsome]
      cases hnext : next.lastReqEnd with
      | none =>
        have hlast : start + line.length + 1 - start = line.length + 1 + 0 := by omega
        simp only [Option.getD_none, Option.map_some, Option.getD_some, Option.map_none, hlast,
          hbehind]
      | some k =>
        have hk := (ihlast k hnext).1
        have hlast : k + 1 - start = line.length + 1 + (k + 1 - (start + line.length + 1)) := by
          omega
        simp only [Option.getD_some, Option.map_some, hlast, hbehind]

/-! ## Where the buffer is written -/

theorem sizeSub_eq {a b : Nat} (h : b ≤ a) (ha : a < 2 ^ 64) : sizeSub a b = a - b := by
  unfold sizeSub
  omega

/-- The buffer keeps its size and its bytes from `REQ_BUFF_SIZE_REAL` on, what was written lies
below, there is room for a NUL, and no length passed to `memmove` was the result of an
underflow. -/
structure InBounds (buff : List.Vector UInt8 REQ_BUFF_SIZE) (c : Receiver σ) : Prop where
  size : c.reqBuff.length = REQ_BUFF_SIZE
  beyond : c.reqBuff.drop REQ_BUFF_SIZE_REAL = buff.toList.drop REQ_BUFF_SIZE_REAL
  room : c.reqPos < REQ_BUFF_SIZE_REAL
  bounds : ∀ i ∈ c.written, i < REQ_BUFF_SIZE_REAL
  moves : ∀ m ∈ c.moves, m.2 ≤ m.1

theorem real_lt_size : REQ_BUFF_SIZE_REAL < REQ_BUFF_SIZE := by decide

variable {buff : List.Vector UInt8 REQ_BUFF_SIZE} {handleReq : σ → Bytes → Option σ}

theorem InBounds.write {c : Receiver σ} (h : c.InBounds buff) (pos : Nat) (src : Bytes)
    (hfit : pos + src.length ≤ REQ_BUFF_SIZE_REAL) : (c.write pos src).InBounds buff where
  size := by
    have hsize := h.size
    have hreal := real_lt_size
    simp only [Receiver.write, writeAt, List.length_append, List.length_take, List.length_drop]
    omega
  beyond := by
    have hsize := h.size
    have hreal := real_lt_size
    have hfront : (c.reqBuff.take pos ++ src).length ≤ REQ_BUFF_SIZE_REAL := by
      rw [List.length_append, List.length_take]
      omega
    have hat : pos + src.length + (REQ_BUFF_SIZE_REAL - (c.reqBuff.take pos ++ src).length) =
        REQ_BUFF_SIZE_REAL := by
      rw [List.length_append, List.length_take]
      omega
    simp only [Receiver.write, writeAt]
    rw [List.drop_append, List.drop_of_length_le hfront, List.nil_append, List.drop_drop, hat,
      h.beyond]
  room := h.room
  bounds := by
    intro i hi
    rcases List.mem_append.mp hi with hi | hi
    · exact h.bounds i hi
    · have hrange := (List.mem_range'_1.mp hi).2
      omega
  moves := h.moves

theorem requested_eq {c : Receiver σ} (h : c.InBounds buff) :
    c.requested = REQ_BUFF_SIZE_REAL - c.reqPos - 1 := by
  have hroom := h.room
  have hreal : REQ_BUFF_SIZE_REAL < 2 ^ 64 := by decide
  rw [requested, sizeSub_eq (Nat.le_of_lt hroom) hreal, sizeSub_eq (by omega) (by omega)]

theorem InBounds.receive {c : Receiver σ} (h : c.InBounds buff) {data : Bytes}
    (hlen : data.length ≤ c.requested) : (c.receive data).InBounds buff := by
  have hroom := h.room
  rw [requested_eq h] at hlen
  have hw := h.write c.reqPos data (by omega)
  have hmoved : InBounds buff { c.write c.reqPos data with reqPos := c.reqPos + data.length } :=
    ⟨hw.size, hw.beyond, show c.reqPos + data.length < _ by omega, hw.bounds, hw.moves⟩
  exact hmoved.write _ [0] (show c.reqPos + data.length + 1 ≤ _ by omega)

/-- After a receive the buffer holds what it held before and the bytes received. -/
theorem holds_receive {c : Receiver σ} (h : c.InBounds buff) (data : Bytes) :
    (c.receive data).Holds (c.reqBuff.take c.reqPos ++ data) := by
  have hpos : (c.reqBuff.take c.reqPos).length = c.reqPos := by
    have hroom := h.room
    have hsize := h.size
    have hreal := real_lt_size
    rw [List.length_take]
    omega
  have hlen : (c.reqBuff.take c.reqPos ++ data).length = c.reqPos + data.length := by
    rw [List.length_append, hpos]
  refine ⟨hlen, (c.reqBuff.drop (c.reqPos + data.length)).drop 1, ?_⟩
  change writeAt (c.reqBuff.take c.reqPos ++ data ++ _) (c.reqPos + data.length) [0] = _
  rw [← hlen, writeAt_behind]
  simp

/-- The tail behind a newline of the text is moved to the front and ended with a NUL. -/
theorem moveTail_spec {c : Receiver σ} {text : Bytes} (h : c.InBounds buff) (ht : c.Holds text)
    (last : Option Nat) (hlast : ∀ k, last = some k → k < text.length) :
    (c.moveTail last).InBounds buff ∧
      (c.moveTail last).Holds (text.drop ((last.map (· + 1)).getD 0)) ∧
      (c.moveTail last).server = c.server ∧ (c.moveTail last).requests = c.requests := by
  cases last with
  | none => exact ⟨h, ht, rfl, rfl⟩
  | some k =>
    obtain ⟨hlen, tail, hb⟩ := ht
    have hlt := hlast k rfl
    have hroom := h.room
    have hreal : REQ_BUFF_SIZE_REAL < 2 ^ 64 := by decide
    have hnext : sizeSub c.reqPos (k + 1) = c.reqPos - (k + 1) := sizeSub_eq (by omega) (by omega)
    have hrest : (text.drop (k + 1)).length = c.reqPos - (k + 1) := by rw [List.length_drop, hlen]
    have hmove : (c.reqBuff.drop (k + 1)).take (c.reqPos - (k + 1)) = text.drop (k + 1) := by
      rw [hb, List.drop_append_of_le_length (by omega), ← hrest, List.take_left]
    simp only [moveTail, hnext, hmove, Option.map_some, Option.getD_some]
    refine ⟨?_, ⟨hrest, (c.reqBuff.drop (text.drop (k + 1)).length).drop 1, ?_⟩, rfl, rfl⟩
    · have hw := (h.write 0 (text.drop (k + 1)) (by omega)).write (c.reqPos - (k + 1)) [0]
        (by simp; omega)
      refine ⟨hw.size, hw.beyond, Nat.lt_of_le_of_lt (Nat.sub_le _ _) hroom, hw.bounds, ?_⟩
      intro m hm
      rcases List.mem_append.mp hm with hm | hm
      · exact h.moves m hm
      · obtain rfl := List.mem_singleton.mp hm
        exact hlen ▸ hlt
    · change writeAt (writeAt c.reqBuff 0 (text.drop (k + 1))) (c.reqPos - (k + 1)) [0] = _
      have hfront : writeAt c.reqBuff 0 (text.drop (k + 1)) =
          text.drop (k + 1) ++ c.reqBuff.drop (text.drop (k + 1)).length := by
        simp [writeAt]
      rw [hfront, ← hrest, writeAt_behind]
      simp

/-- What `HandleConsumeable` makes of a text without another NUL. When the calls come to their
end the rest is held, else a newline is left in the buffer. -/
structure Consumes (handleReq : σ → Bytes → Option σ) (s : σ) (text : Bytes) (c c' : Receiver σ) :
    Prop where
  requests : c'.requests = c.requests ++ handed handleReq s (terminated newline text)
  server : c'.server = (terminated newline text).foldlM handleReq s
  rest : c'.server.isSome → c'.reqBuff.take c'.reqPos = unterminated newline text
  stuck : c'.server = none → newline ∈ c'.reqBuff.take c'.reqPos

/-- `HandleConsumeable` on a buffer ended by a NUL. -/
theorem handleConsumeable_spec (handleReq : σ → Bytes → Option σ) {c : Receiver σ} {text : Bytes}
    (s : σ) (h : c.InBounds buff) (ht : c.Holds text) :
    (c.handleConsumeable handleReq s).InBounds buff ∧
      ((c.handleConsumeable handleReq s).server.isSome →
        (c.handleConsumeable handleReq s).Sentinel) ∧
      (0 ∉ text → Consumes handleReq s text c (c.handleConsumeable handleReq s)) := by
  obtain ⟨hlen, tail, hb⟩ := ht
  obtain ⟨hlast, hstuck, hlines⟩ :=
    handleRequests_spec handleReq s (show c.reqBuff.drop 0 = text ++ 0 :: tail from hb)
  simp only [handleConsumeable]
  generalize handleRequests handleReq s c.reqBuff 0 = r at hlast hstuck hlines ⊢
  obtain ⟨requests, server, last⟩ := r
  have hc : InBounds buff { c with requests := c.requests ++ requests, server := server } :=
    ⟨h.size, h.beyond, h.room, h.bounds, h.moves⟩
  have hholds : Holds { c with requests := c.requests ++ requests, server := server } text :=
    ⟨hlen, tail, hb⟩
  cases server with
  | none =>
    dsimp only
    refine ⟨hc, by simp, fun h0 => ?_⟩
    obtain ⟨hrequests, hserver, -⟩ := hlines h0
    refine ⟨congrArg (c.requests ++ ·) hrequests, hserver, by simp, fun _ => ?_⟩
    rw [hholds.take]
    exact hstuck rfl
  | some s' =>
    dsimp only
    obtain ⟨hbounds, hholds', hserver', hrequests'⟩ := moveTail_spec hc hholds last
      (fun k hk => by simpa using (hlast k hk).2)
    refine ⟨hbounds, fun _ => hholds'.sentinel, fun h0 => ?_⟩
    obtain ⟨hrequests, hserver, hrest⟩ := hlines h0
    refine ⟨hrequests'.trans (congrArg (c.requests ++ ·) hrequests), hserver'.trans hserver,
      fun _ => hholds'.take.trans (hrest rfl), fun hnone => ?_⟩
    rw [hserver'] at hnone
    cases hnone

/-! ## Runs -/

/-- The lines of a stream without a NUL have been handed over, up to the first that did not
come back; the buffer holds the rest, or a newline is left in it. -/
def HandsOver (handleReq : σ → Bytes → Option σ) (s : σ) (stream : Bytes) (c : Receiver σ) : Prop :=
  0 ∉ stream → Consumes handleReq s stream { c with requests := [] } c

/-- An error or `EAGAIN` decides whether the connection is read on. -/
theorem step_quiet (handleReq : σ → Bytes → Option σ) {c : Receiver σ} {r : RecvResult}
    (hfit : c.Fits r) (hr : ∀ data, r ≠ .bytes data) :
    ∃ closed, c.step handleReq r = { c with closed := closed } := by
  obtain ⟨s, hs⟩ := Option.isSome_iff_exists.mp hfit.returns
  rw [step, if_neg (by simp [hfit.reads]), hs]
  cases r with
  | bytes data => exact absurd rfl (hr data)
  | again rearmed => exact ⟨!rearmed, rfl⟩
  | error => exact ⟨true, rfl⟩

theorem step_bytes {c : Receiver σ} {s : σ} (hopen : c.closed = false) (hs : c.server = some s)
    (data : Bytes) :
    c.step handleReq (.bytes data) = { (c.receive data).handleConsumeable handleReq s with
      closed := decide (data.length = 0) } := by
  simp [step, hopen, hs]

theorem data_of_quiet {r : RecvResult} (hr : ∀ data, r ≠ .bytes data) : r.data = [] := by
  cases r with
  | bytes data => exact absurd rfl (hr data)
  | again rearmed => rfl
  | error => rfl

theorem step_inBounds (handleReq : σ → Bytes → Option σ) {c : Receiver σ} {r : RecvResult}
    (h : c.InBounds buff) (hfit : c.Fits r) : (c.step handleReq r).InBounds buff := by
  by_cases hr : ∀ data, r ≠ .bytes data
  · obtain ⟨closed, hstep⟩ := step_quiet handleReq hfit hr
    rw [hstep]
    exact ⟨h.size, h.beyond, h.room, h.bounds, h.moves⟩
  · push Not at hr
    obtain ⟨data, rfl⟩ := hr
    obtain ⟨s, hs⟩ := Option.isSome_iff_exists.mp hfit.returns
    have hlen : data.length ≤ c.requested := hfit.length
    obtain ⟨hb, -⟩ := handleConsumeable_spec handleReq s (h.receive hlen)
      (holds_receive h data)
    rw [step_bytes hfit.reads hs]
    exact ⟨hb.size, hb.beyond, hb.room, hb.bounds, hb.moves⟩

/-- The lines of a stream and of the bytes behind it are those of the stream, and those of its
rest with the bytes. -/
theorem step_handsOver {c : Receiver σ} {s₀ : σ} {stream : Bytes} {r : RecvResult}
    (h : c.InBounds buff) (hl : HandsOver handleReq s₀ stream c) (hfit : c.Fits r) :
    HandsOver handleReq s₀ (stream ++ r.data) (c.step handleReq r) := by
  by_cases hr : ∀ data, r ≠ .bytes data
  · obtain ⟨closed, hstep⟩ := step_quiet handleReq hfit hr
    rw [hstep, data_of_quiet hr, List.append_nil]
    exact fun h0 => ⟨(hl h0).requests, (hl h0).server, (hl h0).rest, (hl h0).stuck⟩
  · push Not at hr
    obtain ⟨data, rfl⟩ := hr
    obtain ⟨s, hs⟩ := Option.isSome_iff_exists.mp hfit.returns
    have hlen : data.length ≤ c.requested := hfit.length
    change HandsOver handleReq s₀ (stream ++ data) _
    intro h0
    rw [List.mem_append, not_or] at h0
    obtain ⟨hrequests, hserver, hrest, -⟩ := hl h0.1
    have hbuff := hrest hfit.returns
    rw [hs] at hserver
    have htext : 0 ∉ c.reqBuff.take c.reqPos ++ data := by
      rw [hbuff, List.mem_append, not_or]
      exact ⟨fun hm => h0.1 (mem_of_mem_unterminated hm), h0.2⟩
    obtain ⟨-, -, hconsumes⟩ := handleConsumeable_spec handleReq s
      (h.receive hlen) (holds_receive h data)
    obtain ⟨hreqs, hnext, htail, hstuck⟩ := hconsumes htext
    rw [hbuff] at hreqs hnext htail
    have hpieces := @append_pieces UInt8 _ newline stream data
    rw [step_bytes hfit.reads hs]
    refine ⟨?_, ?_, ?_, hstuck⟩
    · have hbefore : (c.receive data).requests = terminated newline stream := by
        rw [show (c.receive data).requests = c.requests from rfl, hrequests,
          handed_of_foldlM hserver.symm, List.nil_append]
      rw [hpieces.1, handed_append hserver.symm, ← hbefore]
      exact hreqs
    · rw [hpieces.1, List.foldlM_append, ← hserver]
      exact hnext
    · rw [hpieces.2]
      exact htail

theorem new_inBounds (buff : List.Vector UInt8 REQ_BUFF_SIZE) (s : σ) : (new buff s).InBounds buff :=
  ⟨buff.toList_length, rfl, show 0 < REQ_BUFF_SIZE_REAL by decide, by simp [new], by simp [new]⟩

theorem new_handsOver (handleReq : σ → Bytes → Option σ) (buff : List.Vector UInt8 REQ_BUFF_SIZE)
    (s : σ) : HandsOver handleReq s [] (new buff s) :=
  fun _ => ⟨rfl, rfl, fun _ => rfl, fun h => nomatch h⟩

/-- Whatever `recv` returns, one receive after the other. -/
theorem run_invariant {s₀ : σ} {c : Receiver σ} {stream : Bytes} {results : List RecvResult}
    (h : c.InBounds buff) (hl : HandsOver handleReq s₀ stream c)
    (hfit : Guarded (step handleReq) Fits c results) :
    (run (step handleReq) c results).InBounds buff ∧
      HandsOver handleReq s₀ (stream ++ received results) (run (step handleReq) c results) := by
  induction results generalizing c stream with
  | nil => simpa [received] using ⟨h, hl⟩
  | cons r results ih =>
    have hstep := ih (step_inBounds handleReq h hfit.1) (step_handsOver h hl hfit.1) hfit.2
    simpa [received, List.flatMap_cons] using hstep

/-- The lines of a stream without a NUL are the requests, in order and each once, and
`HandleReq` has worked on them; the buffer holds the rest. -/
def Lines (handleReq : σ → Bytes → Option σ) (s : σ) (stream : Bytes) (c : Receiver σ) : Prop :=
  c.requests = terminated newline stream ∧
    c.server = (terminated newline stream).foldlM handleReq s ∧
    c.reqBuff.take c.reqPos = unterminated newline stream

/-- What holds of a connection behind a sequence of results of `recv`: nothing is written from
`REQ_BUFF_SIZE_REAL` on and no length passed to `memmove` underflows; after any receive, and
after a `HandleConsumeable` on it, the buffer has a NUL at `req_pos`; without a NUL in the
stream the requests are its lines and the buffer holds the rest, which are the same however
the stream is cut; and when the rest fills the buffer no byte is received any more, and
whatever `recv` returns but `EAGAIN` ends the connection. -/
structure Framed (handleReq : σ → Bytes → Option σ) (buff : List.Vector UInt8 REQ_BUFF_SIZE)
    (s : σ) (results : List RecvResult) (c : Receiver σ) : Prop where
  bounds : ∀ i ∈ c.written, i < REQ_BUFF_SIZE_REAL
  beyond : c.reqBuff.drop REQ_BUFF_SIZE_REAL = buff.toList.drop REQ_BUFF_SIZE_REAL
  moves : ∀ m ∈ c.moves, m.2 ≤ m.1
  sentinel : ∀ data, c.Fits (.bytes data) → (c.receive data).Sentinel ∧
    ∀ s' ∈ c.server, ((c.receive data).handleConsumeable handleReq s').server.isSome →
      ((c.receive data).handleConsumeable handleReq s').Sentinel
  lines : 0 ∉ received results → Lines handleReq s (received results) c
  cut : 0 ∉ received results → ∀ buff' results',
    Guarded (step handleReq) Fits (new buff' s) results' → received results' = received results →
      (run (step handleReq) (new buff' s) results').requests = c.requests ∧
      (run (step handleReq) (new buff' s) results').reqBuff.take
        (run (step handleReq) (new buff' s) results').reqPos = c.reqBuff.take c.reqPos
  full : c.reqPos < REQ_BUFF_SIZE_REAL ∧ (c.reqPos + 1 = REQ_BUFF_SIZE_REAL →
    ∀ r, c.Fits r → r.data = [] ∧ (r = .again true ∨ (c.step handleReq r).closed = true))

/-- Without a NUL, the requests are the lines exactly when the calls of `HandleReq` come to
their end: else a line is left in the buffer. -/
theorem lines_iff {s : σ} {stream : Bytes} {c : Receiver σ} (h : HandsOver handleReq s stream c)
    (h0 : 0 ∉ stream) :
    Lines handleReq s stream c ↔ ((terminated newline stream).foldlM handleReq s).isSome := by
  obtain ⟨hrequests, hserver, hrest, hstuck⟩ := h h0
  constructor
  · rintro ⟨-, -, hbuff⟩
    rw [← hserver, Option.isSome_iff_ne_none]
    intro hnone
    have hleft := hstuck hnone
    rw [hbuff] at hleft
    exact notMem_unterminated newline stream hleft
  · intro hreturns
    obtain ⟨s', hs'⟩ := Option.isSome_iff_exists.mp hreturns
    refine ⟨?_, hserver, hrest (hserver ▸ hreturns)⟩
    rw [hrequests, handed_of_foldlM hs', List.nil_append]

theorem full_closes {c : Receiver σ} (h : c.InBounds buff)
    (hfull : c.reqPos + 1 = REQ_BUFF_SIZE_REAL) {r : RecvResult} (hfit : c.Fits r) :
    r.data = [] ∧ (r = .again true ∨ (c.step handleReq r).closed = true) := by
  obtain ⟨s, hs⟩ := Option.isSome_iff_exists.mp hfit.returns
  have hnone : r.data = [] := by
    have hlen := hfit.length
    rw [requested_eq h] at hlen
    exact List.eq_nil_of_length_eq_zero (by omega)
  refine ⟨hnone, ?_⟩
  cases r with
  | bytes data =>
    obtain rfl : data = [] := hnone
    exact .inr (by simp [step_bytes hfit.reads hs])
  | again rearmed => cases rearmed <;> simp [step, hfit.reads, hs]
  | error => simp [step, hfit.reads, hs]

/-- **When a connection is framed.** Whatever its buffer held and however `recv` cut its stream,
exactly if the stream has a NUL, or `HandleReq` comes to its end for every line of it. -/
theorem requests_framed_iff (handleReq : σ → Bytes → Option σ)
    (buff : List.Vector UInt8 REQ_BUFF_SIZE) (s : σ) (results : List RecvResult)
    (hfit : Guarded (step handleReq) Fits (new buff s) results) :
    Framed handleReq buff s results (run (step handleReq) (new buff s) results) ↔
      (0 ∉ received results →
        ((terminated newline (received results)).foldlM handleReq s).isSome) := by
  have hrun : ∀ buff' results', Guarded (step handleReq) Fits (new buff' s) results' →
      (run (step handleReq) (new buff' s) results').InBounds buff' ∧
        HandsOver handleReq s (received results') (run (step handleReq) (new buff' s) results') :=
    fun buff' results' hfit' => by
      simpa using run_invariant (new_inBounds buff' s) (new_handsOver handleReq buff' s) hfit'
  obtain ⟨h, hl⟩ := hrun buff results hfit
  constructor
  · exact fun hframed h0 => (lines_iff hl h0).mp (hframed.lines h0)
  · intro hreturns
    refine ⟨h.bounds, h.beyond, h.moves, ?_, fun h0 => (lines_iff hl h0).mpr (hreturns h0), ?_,
      h.room, fun hfull r hfit' => full_closes h hfull hfit'⟩
    · intro data hfit'
      have hholds := holds_receive h data
      refine ⟨hholds.sentinel, fun s' _ => ?_⟩
      exact (handleConsumeable_spec handleReq s' (h.receive hfit'.length) hholds).2.1
    · intro h0 buff' results' hfit' hsame
      obtain ⟨-, hl'⟩ := hrun buff' results' hfit'
      rw [hsame] at hl'
      obtain ⟨hrequests, -, hrest⟩ := (lines_iff hl h0).mpr (hreturns h0)
      obtain ⟨hrequests', -, hrest'⟩ := (lines_iff hl' h0).mpr (hreturns h0)
      exact ⟨hrequests'.trans hrequests.symm, hrest'.trans hrest.symm⟩

/-! ## Two connections -/

/-- More bytes come as long as there is room for them behind the rest. -/
theorem fits_of_room {s : σ} {stream data : Bytes} {c : Receiver σ} (h : c.InBounds buff)
    (hl : HandsOver handleReq s stream c) (h0 : 0 ∉ stream) (hopen : c.closed = false)
    (hreturns : ((terminated newline stream).foldlM handleReq s).isSome)
    (hroom : (unterminated newline stream).length + data.length < REQ_BUFF_SIZE_REAL) :
    c.Fits (.bytes data) := by
  obtain ⟨-, hserver, hrest, -⟩ := hl h0
  have hsome : c.server.isSome := by rw [hserver]; exact hreturns
  refine ⟨hopen, hsome, ?_⟩
  have hpos := congrArg List.length (hrest hsome)
  have hsize := h.size
  have hbelow := h.room
  have hreal := real_lt_size
  rw [List.length_take] at hpos
  rw [requested_eq h]
  change data.length ≤ _
  omega

def zeroBuff : List.Vector UInt8 REQ_BUFF_SIZE := List.Vector.replicate _ 0

/-- A server and a client of the CN protocol. -/
def cnStart : Server .CN Round.RoundDb × StratumClient :=
  (freshServer (constHashes maxHash) sampleTemplate, sampleClient)

def getWorkLine : Bytes :=
  ascii "\x7b\"id\":7,\"method\":\"eth_getWork\",\"params\":[]\x7d"

/-- `HandleReq` for a stream of `getWorkLine`. -/
def getWorkHandler : Server .CN Round.RoundDb × StratumClient → Bytes →
    Option (Server .CN Round.RoundDb × StratumClient) :=
  requestHandler (fun _ => getWorkRequest) (sampleEnv maxHash) ⟨sampleCall, 0, 0, 0⟩

/-- Two requests in two receives, of which the first ends within a request. -/
def getWorkReceives : List RecvResult :=
  [.bytes (getWorkLine.take 9), .bytes (getWorkLine.drop 9 ++ newline :: getWorkLine ++ [newline])]

theorem requests_framed_two :
    Framed getWorkHandler zeroBuff cnStart getWorkReceives
      (run (step getWorkHandler) (new zeroBuff cnStart) getWorkReceives) := by
  have hfirst : (new zeroBuff cnStart).Fits (.bytes (getWorkLine.take 9)) :=
    ⟨rfl, rfl, by decide +kernel⟩
  have hbounds := step_inBounds getWorkHandler (new_inBounds zeroBuff cnStart) hfirst
  have hlines := step_handsOver (new_inBounds zeroBuff cnStart)
    (new_handsOver getWorkHandler zeroBuff cnStart) hfirst
  have hroom : (unterminated newline ([] ++ getWorkLine.take 9)).length +
      (getWorkLine.drop 9 ++ newline :: getWorkLine ++ [newline]).length < REQ_BUFF_SIZE_REAL := by
    decide +kernel
  have hsecond := fits_of_room hbounds hlines (by decide +kernel)
    (by rw [step_bytes rfl rfl]; decide +kernel) (by decide +kernel) hroom
  exact (requests_framed_iff getWorkHandler zeroBuff cnStart getWorkReceives
    ⟨hfirst, hsecond, trivial⟩).mpr (fun _ => by decide +kernel)

def submitRequest : Request := ⟨some 1, some (ascii "eth_submitWork"), some (ascii "w"), some []⟩

def submitLine : Bytes :=
  ascii "\x7b\"id\":1,\"method\":\"eth_submitWork\",\"worker\":\"w\",\"params\":[]\x7d"

/-- Two submits without parameters in one receive: the exception of `substr` leaves the loop at
the first, the second is never handed over, and both stay in the buffer. -/
theorem second_line_lost :
    let handler := requestHandler (fun _ => submitRequest) (sampleEnv maxHash)
      ⟨sampleCall, 0, 0, 0⟩
    let results := [RecvResult.bytes (submitLine ++ newline :: submitLine ++ [newline])]
    Guarded (step handler) Fits (new zeroBuff cnStart) results ∧
      ¬ Framed handler zeroBuff cnStart results
        (run (step handler) (new zeroBuff cnStart) results) ∧
      (run (step handler) (new zeroBuff cnStart) results).requests = [submitLine] := by
  intro handler results
  have hfit : Guarded (step handler) Fits (new zeroBuff cnStart) results :=
    ⟨⟨rfl, rfl, by decide +kernel⟩, trivial⟩
  obtain ⟨-, hl⟩ := run_invariant (new_inBounds zeroBuff cnStart)
    (new_handsOver handler zeroBuff cnStart) hfit
  have h0 : 0 ∉ [] ++ received results := by decide +kernel
  refine ⟨hfit, fun hframed => ?_, ?_⟩
  · have hreturns := (lines_iff hl h0).mp (hframed.lines h0)
    exact absurd hreturns (by decide +kernel)
  · exact ((hl h0).requests).trans (by decide +kernel)

end Receiver
end SickPool.Stratum
