import SickPool.Daemon.SendRequest

/-!
# When the reply is put together again

What a reply of status 200 is, said of the bytes received, and when `SendRequest` returns
200 for just these. The header loop writes its NUL behind the buffer when it fills up, the
search for the length goes beyond the header or finds nothing, and a body that breaks off is
returned as if it were whole.
-/
namespace SickPool.Daemon

open SickPool.Library SickPool.Library.Bytes SickPool.Library.CString

/-! ## Replies -/

/-- The bytes up to the first empty line, that included. -/
structure HeaderBlock (block : Bytes) : Prop where
  noNul : 0 ∉ block
  ends : find emptyLine block = some (block.length - 4)

/-- A header block of status 200 that announces `n` bytes. -/
structure Ok200 (block : Bytes) (n : Nat) : Prop where
  header : HeaderBlock block
  version : ascii "HTTP/1." <+: block
  space : block[8]? = some 32
  status : number? (block.drop 9) = some 200
  length : ∃ pos, find (ascii "\r\n" ++ contentLengthKey) block = some pos ∧
    number? (block.drop (pos + 18)) = some n

/-- The bytes received start with a reply of status 200 and this body. -/
def ReplyOf (received body : Bytes) : Prop :=
  ∃ block rest, received = block ++ body ++ rest ∧ Ok200 block body.length

/-- The call returns, with 200 exactly if a reply of status 200 was received, and then with its
body. -/
def Reassembles (net : Net) (result : Bytes) : Prop :=
  ∃ code text rest received, receiveReply net result = .returned code text rest ∧
    net.stream = received ++ rest ∧ (code = 200 ↔ ∃ body, ReplyOf received body) ∧
    (code = 200 → ReplyOf received text)

theorem HeaderBlock.length_le {block : Bytes} (h : HeaderBlock block) : 4 ≤ block.length := by
  have hlen := (find_eq_some h.ends).1.length_le
  rw [List.length_drop] at hlen
  have h4 : emptyLine.length = 4 := by decide
  omega

/-- The first empty line of a text that starts with a header block is the end of the block. -/
theorem HeaderBlock.find_text {block : Bytes} (h : HeaderBlock block) (rest : Bytes) :
    find emptyLine (text (block ++ rest)) = some (block.length - 4) := by
  have h4 : emptyLine.length = 4 := by decide
  have hlen := h.length_le
  rw [text_append_of_notMem h.noNul]
  exact find_append h.ends (by omega) _

/-- The status of a block is the number at offset 9 of a buffer that starts with it. -/
theorem HeaderBlock.atoi_eq {block : Bytes} (h : HeaderBlock block) {status : Nat}
    (hstatus : number? (block.drop 9) = some status) (hlt : status < 2 ^ 31) (rest : Bytes) :
    atoi ((block ++ rest).drop 9) = status := by
  have hne : block.drop 9 ≠ [] := by
    intro hnil
    rw [hnil] at hstatus
    exact absurd hstatus (by decide +revert)
  have hnine : 9 < block.length := by
    by_contra hle
    exact hne (List.drop_eq_nil_of_le (by omega))
  -- the block ends with a line feed, which is no digit
  have hend : ∃ c ∈ block.drop 9, Json.isDigit c = false := by
    have hlen := h.length_le
    obtain ⟨t, ht⟩ := (find_eq_some h.ends).1
    have hlast : (10 : UInt8) ∈ block.drop (block.length - 1) := by
      have hdrop : block.drop (block.length - 1) = (block.drop (block.length - 4)).drop 3 := by
        rw [List.drop_drop]
        congr 1
        omega
      rw [hdrop, ← ht]
      simp [emptyLine, ascii]
    refine ⟨10, ?_, by decide⟩
    have hsplit : block.drop (block.length - 1) = (block.drop 9).drop (block.length - 1 - 9) := by
      rw [List.drop_drop]
      congr 1
      omega
    rw [hsplit] at hlast
    exact List.mem_of_mem_drop hlast
  rw [List.drop_append_of_le_length (by omega)]
  exact atoi_of_number hstatus hlt hend rest

theorem Ok200.atoi_eq {block : Bytes} {n : Nat} (h : Ok200 block n) (rest : Bytes) :
    atoi ((block ++ rest).drop 9) = 200 :=
  h.header.atoi_eq h.status (by decide) rest

/-! ## The header phase -/

/-- The states the header loop goes through: the number of the next `recv`, what has been
received, in which there is no empty line yet, and what is to come. -/
inductive HeaderPhase (net : Net) : Nat → Bytes → Bytes → Prop where
  | start : HeaderPhase net 0 [] net.stream
  | next {i : Nat} {buf rest data rest' : Bytes} (h : HeaderPhase net i buf rest)
      (hrecv : net.recv i rest (HTTP_HEADER_SIZE - buf.length) = .bytes data rest')
      (hfits : (buf ++ data).length < HTTP_HEADER_SIZE)
      (hnone : find emptyLine (text (buf ++ data)) = none) :
      HeaderPhase net (i + 1) (buf ++ data) rest'

/-- The buffer fills up before an empty line has come. -/
def Overfull (net : Net) : Prop :=
  ∃ i buf rest data rest', HeaderPhase net i buf rest ∧
    net.recv i rest (HTTP_HEADER_SIZE - buf.length) = .bytes data rest' ∧
    HTTP_HEADER_SIZE ≤ (buf ++ data).length

/-- `buf` has been received, with the first empty line at `pos` in it. -/
def HeaderRead (net : Net) (i : Nat) (buf rest : Bytes) (pos : Nat) : Prop :=
  ∃ i' buf' rest' data, HeaderPhase net i' buf' rest' ∧
    net.recv i' rest' (HTTP_HEADER_SIZE - buf'.length) = .bytes data rest ∧ i = i' + 1 ∧
    buf = buf' ++ data ∧ buf.length < HTTP_HEADER_SIZE ∧ find emptyLine (text buf) = some pos

/-- The header buffer with `buf` received into it. -/
def bufferOf (net : Net) (buf : Bytes) : Bytes :=
  buf ++ 0 :: net.headerBuff.toList.drop (buf.length + 1)

/-- The buffer before a `recv`: the received bytes in front, behind the next one what was there
from the start. -/
def Holds (net : Net) (buf headerBuff : Bytes) : Prop :=
  ∃ tail, headerBuff = buf ++ tail ∧ headerBuff.length = HTTP_HEADER_SIZE ∧
    tail.drop 1 = net.headerBuff.toList.drop (buf.length + 1)

theorem holds_start (net : Net) : Holds net [] net.headerBuff.toList :=
  ⟨net.headerBuff.toList, rfl, net.headerBuff.toList_length, rfl⟩

theorem holds_bufferOf {net : Net} {buf : Bytes} (h : buf.length < HTTP_HEADER_SIZE) :
    Holds net buf (bufferOf net buf) := by
  refine ⟨0 :: net.headerBuff.toList.drop (buf.length + 1), rfl, ?_, rfl⟩
  rw [bufferOf, List.length_append, List.length_cons, List.length_drop,
    net.headerBuff.toList_length]
  omega

/-- A receive and the NUL behind it, when there is room for both. -/
theorem Holds.receive {net : Net} {buf headerBuff data : Bytes} (h : Holds net buf headerBuff)
    (hfits : (buf ++ data).length < HTTP_HEADER_SIZE) :
    (store headerBuff buf.length data).bind
        (fun buff => store buff (buf.length + data.length) [0]) =
      some (bufferOf net (buf ++ data)) := by
  obtain ⟨tail, rfl, hlen, htail⟩ := h
  rw [List.length_append] at hfits hlen
  have hdrop : (tail.drop data.length).drop 1 =
      net.headerBuff.toList.drop ((buf ++ data).length + 1) := by
    rw [List.drop_drop, Nat.add_comm data.length 1, ← List.drop_drop, htail, List.drop_drop,
      List.length_append]
    congr 1
    omega
  have hfirst : store (buf ++ tail) buf.length data =
      some ((buf ++ data) ++ tail.drop data.length) := by
    rw [store, if_pos (by rw [List.length_append]; omega), writeAt_behind]
  have hroom : (buf ++ data).length + [(0 : UInt8)].length ≤
      ((buf ++ data) ++ tail.drop data.length).length := by
    simp only [List.length_append, List.length_drop, List.length_singleton]
    omega
  rw [hfirst, Option.bind_some, ← List.length_append, store, if_pos hroom,
    writeAt_behind, List.length_singleton, hdrop, bufferOf, List.append_assoc]
  rfl

/-- A receive that fills the buffer leaves no room for the NUL. -/
theorem Holds.receive_none {net : Net} {buf headerBuff data : Bytes} (h : Holds net buf headerBuff)
    (hfull : HTTP_HEADER_SIZE ≤ (buf ++ data).length) :
    (store headerBuff buf.length data).bind
        (fun buff => store buff (buf.length + data.length) [0]) = none := by
  obtain ⟨tail, rfl, hlen, -⟩ := h
  rw [List.length_append] at hfull
  by_cases hdata : buf.length + data.length ≤ (buf ++ tail).length
  · rw [store, if_pos hdata, Option.bind_some, store, if_neg]
    rw [writeAt_behind, List.length_append, List.length_append, List.length_drop]
    rw [List.length_append] at hlen hdata
    simp only [List.length_singleton]
    omega
  · rw [store, if_neg hdata]
    rfl

theorem strstr_bufferOf (net : Net) (buf needle : Bytes) :
    strstr (bufferOf net buf) needle = find needle (text buf) := by
  rw [strstr, bufferOf, text_append_nul]

section HeaderLoop

variable {net : Net} {i : Nat} {buf rest headerBuff data rest' : Bytes}

theorem headerLoop_failed (headerBuff : Bytes) (hrecv : ∀ data rest',
      net.recv i rest (HTTP_HEADER_SIZE - buf.length) ≠ .bytes data rest') :
    ∃ errno, headerLoop net i rest headerBuff buf.length = .failed errno rest := by
  rw [headerLoop]
  split
  · exact ⟨_, rfl⟩
  · exact ⟨_, rfl⟩
  · rename_i h
    exact absurd h (hrecv _ _)

theorem headerLoop_recv (headerBuff : Bytes)
    (hrecv : net.recv i rest (HTTP_HEADER_SIZE - buf.length) = .bytes data rest') :
    headerLoop net i rest headerBuff buf.length =
      match (store headerBuff buf.length data).bind
          (fun buff => store buff (buf.length + data.length) [0]) with
      | none => .overrun
      | some buff =>
        match strstr buff emptyLine with
        | some pos => .found buff (buf.length + data.length) (pos + 4) (i + 1) rest'
        | none => headerLoop net (i + 1) rest' buff (buf.length + data.length) := by
  rw [headerLoop]
  split
  · rename_i hfailed
    rw [hrecv] at hfailed
    exact absurd hfailed (by simp)
  · rename_i hclosed
    rw [hrecv] at hclosed
    exact absurd hclosed (by simp)
  · rename_i hbytes
    obtain ⟨rfl, rfl⟩ := RecvRes.bytes.inj (hrecv.symm.trans hbytes)
    rfl

theorem headerLoop_overrun (h : Holds net buf headerBuff)
    (hrecv : net.recv i rest (HTTP_HEADER_SIZE - buf.length) = .bytes data rest')
    (hfull : HTTP_HEADER_SIZE ≤ (buf ++ data).length) :
    headerLoop net i rest headerBuff buf.length = .overrun := by
  rw [headerLoop_recv headerBuff hrecv, h.receive_none hfull]

theorem headerLoop_bytes (h : Holds net buf headerBuff)
    (hrecv : net.recv i rest (HTTP_HEADER_SIZE - buf.length) = .bytes data rest')
    (hfits : (buf ++ data).length < HTTP_HEADER_SIZE) :
    headerLoop net i rest headerBuff buf.length =
      match find emptyLine (text (buf ++ data)) with
      | some pos =>
        .found (bufferOf net (buf ++ data)) (buf ++ data).length (pos + 4) (i + 1) rest'
      | none => headerLoop net (i + 1) rest' (bufferOf net (buf ++ data)) (buf ++ data).length := by
  rw [headerLoop_recv headerBuff hrecv, h.receive hfits]
  cases hfind : find emptyLine (text (buf ++ data)) with
  | none => simp only [strstr_bufferOf, hfind, List.length_append]
  | some pos => simp only [strstr_bufferOf, hfind, List.length_append]

/-- The header loop as it runs from the start of the stream. -/
def headerEnd (net : Net) : HeaderEnd := headerLoop net 0 net.stream net.headerBuff.toList 0

/-- The loop goes through the states of the header phase. -/
theorem HeaderPhase.headerEnd_eq (h : HeaderPhase net i buf rest) :
    ∃ headerBuff, Holds net buf headerBuff ∧
      headerEnd net = headerLoop net i rest headerBuff buf.length := by
  induction h with
  | start => exact ⟨net.headerBuff.toList, holds_start net, rfl⟩
  | next h hrecv hfits hnone ih =>
    obtain ⟨headerBuff, hholds, heq⟩ := ih
    refine ⟨_, holds_bufferOf hfits, ?_⟩
    rw [heq, headerLoop_bytes hholds hrecv hfits, hnone]

theorem HeaderPhase.stream_eq (h : HeaderPhase net i buf rest) : net.stream = buf ++ rest := by
  induction h with
  | start => rfl
  | next h hrecv hfits hnone ih =>
    rw [ih, (net.recv_bytes hrecv).1, List.append_assoc]

theorem HeaderPhase.find_none (h : HeaderPhase net i buf rest) :
    find emptyLine (text buf) = none := by
  cases h with
  | start => decide
  | next h hrecv hfits hnone => exact hnone

theorem Overfull.headerEnd_eq (h : Overfull net) : headerEnd net = .overrun := by
  obtain ⟨i, buf, rest, data, rest', hphase, hrecv, hfull⟩ := h
  obtain ⟨headerBuff, hholds, heq⟩ := hphase.headerEnd_eq
  rw [heq, headerLoop_overrun hholds hrecv hfull]

theorem HeaderRead.headerEnd_eq {pos : Nat} (h : HeaderRead net i buf rest pos) :
    headerEnd net = .found (bufferOf net buf) buf.length (pos + 4) i rest := by
  obtain ⟨i', buf', rest', data, hphase, hrecv, rfl, rfl, hfits, hfind⟩ := h
  obtain ⟨headerBuff, hholds, heq⟩ := hphase.headerEnd_eq
  rw [heq, headerLoop_bytes hholds hrecv hfits, hfind]

theorem HeaderRead.stream_eq {pos : Nat} (h : HeaderRead net i buf rest pos) :
    net.stream = buf ++ rest := by
  obtain ⟨i', buf', rest', data, hphase, hrecv, rfl, rfl, -, -⟩ := h
  rw [hphase.stream_eq, (net.recv_bytes hrecv).1, List.append_assoc]

/-- The header is read in one way. -/
theorem HeaderRead.unique {i' pos pos' : Nat} {buf' : Bytes} (h : HeaderRead net i buf rest pos)
    (h' : HeaderRead net i' buf' rest' pos') : i' = i ∧ buf' = buf ∧ rest' = rest ∧ pos' = pos := by
  have hend := h'.headerEnd_eq.symm.trans h.headerEnd_eq
  obtain ⟨-, -, hpos, hi, rfl⟩ := HeaderEnd.found.inj hend
  have hstream := h'.stream_eq.symm.trans h.stream_eq
  exact ⟨hi, List.append_cancel_right hstream, rfl, by omega⟩

theorem HeaderPhase.room (h : HeaderPhase net i buf rest) : buf.length < HTTP_HEADER_SIZE := by
  cases h with
  | start => exact Nat.zero_lt_of_ne_zero (by decide)
  | next h hrecv hfits hnone => exact hfits

/-- A `recv` of the header that delivers nothing ends the loop. -/
theorem HeaderPhase.headerEnd_failed (h : HeaderPhase net i buf rest)
    (hrecv : ∀ data rest', net.recv i rest (HTTP_HEADER_SIZE - buf.length) ≠ .bytes data rest') :
    ∃ errno, headerEnd net = .failed errno rest := by
  obtain ⟨headerBuff, -, heq⟩ := h.headerEnd_eq
  obtain ⟨errno, hloop⟩ := headerLoop_failed headerBuff hrecv
  exact ⟨errno, heq.trans hloop⟩

/-- The three ways the header phase ends. Each receive shortens what is to come. -/
theorem HeaderPhase.ends {i : Nat} {buf rest : Bytes} (h : HeaderPhase net i buf rest) :
    (∃ i buf rest, HeaderPhase net i buf rest ∧
        ∀ data rest', net.recv i rest (HTTP_HEADER_SIZE - buf.length) ≠ .bytes data rest') ∨
      Overfull net ∨ ∃ i buf rest pos, HeaderRead net i buf rest pos := by
  cases hrecv : net.recv i rest (HTTP_HEADER_SIZE - buf.length) with
  | failed errno => exact .inl ⟨i, buf, rest, h, by simp [hrecv]⟩
  | closed => exact .inl ⟨i, buf, rest, h, by simp [hrecv]⟩
  | bytes data rest' =>
    by_cases hfits : (buf ++ data).length < HTTP_HEADER_SIZE
    · cases hfind : find emptyLine (text (buf ++ data)) with
      | none => exact (HeaderPhase.next h hrecv hfits hfind).ends
      | some pos =>
        exact .inr (.inr ⟨i + 1, buf ++ data, rest', pos, i, buf, rest, data, h, hrecv, rfl, rfl,
          hfits, hfind⟩)
    · exact .inr (.inl ⟨i, buf, rest, data, rest', h, hrecv, Nat.le_of_not_lt hfits⟩)
  termination_by rest.length
  decreasing_by exact net.recv_bytes_lt hrecv

end HeaderLoop

/-! ## The body -/

/-- The next `need` bytes arrive without a `recv` that fails or delivers nothing. -/
inductive Arrives (net : Net) : Nat → Bytes → Nat → Prop where
  | done {i : Nat} {rest : Bytes} : Arrives net i rest 0
  | more {i need : Nat} {rest data rest' : Bytes} (hneed : 0 < need)
      (hrecv : net.recv i rest need = .bytes data rest')
      (h : Arrives net (i + 1) rest' (need - data.length)) : Arrives net i rest need

theorem store_length {buff src buff' : Bytes} {pos : Nat} (h : store buff pos src = some buff') :
    buff'.length = buff.length := by
  unfold store at h
  split at h
  · rename_i hfits
    obtain rfl := Option.some.inj h
    simp only [writeAt, List.length_append, List.length_take, List.length_drop]
    omega
  · exact absurd h (by simp)

theorem store_none_iff {buff src : Bytes} {pos : Nat} :
    store buff pos src = none ↔ buff.length < pos + src.length := by
  unfold store
  split <;> simp <;> omega

/-- From the `i`-th on no `recv` fails. -/
def NeverFails (net : Net) (i : Nat) : Prop := ∀ j, i ≤ j → ∃ more, net.cuts j = .ready more

theorem NeverFails.recv_ne {net : Net} {i : Nat} (h : NeverFails net i) (rest : Bytes) (len : Nat)
    (errno : Errno) : net.recv i rest len ≠ .failed errno := by
  obtain ⟨more, hcut⟩ := h i (Nat.le_refl i)
  rw [Net.recv, hcut]
  dsimp only
  split <;> simp

section BodyLoop

variable {contentLength : Fin (2 ^ 31)}

/-- Every write of the body loop is in the result, which keeps its length, and what the loop
receives is the next part of the stream. Where no `recv` fails, receiving as much as is missing
means that the body arrives. -/
theorem bodyLoop_some (net : Net) (i : Nat) (rest result : Bytes) (contentReceived : Nat)
    (hresult : result.length = contentLength) :
    ∃ text more rest', bodyLoop net contentLength i rest result contentReceived =
      some (text, rest') ∧ text.length = contentLength ∧ rest = more ++ rest' ∧
      (NeverFails net i → contentLength - contentReceived ≤ more.length →
        Arrives net i rest (contentLength - contentReceived)) := by
  fun_induction bodyLoop net contentLength i rest result contentReceived with
  | case1 i rest result contentReceived hlt hclosed =>
    refine ⟨result, [], rest, rfl, hresult, rfl, ?_⟩
    intro _ hle
    rw [List.length_nil] at hle
    omega
  | case2 i rest result contentReceived hlt errno hfailed ih =>
    obtain ⟨text, more, rest', heq, hlen, hrest, -⟩ := ih hresult
    refine ⟨text, more, rest', heq, hlen, hrest, ?_⟩
    intro hnever _
    exact absurd hfailed (hnever.recv_ne rest _ errno)
  | case3 i rest result contentReceived hlt data rest' hbytes hnone =>
    have hle := (net.recv_bytes hbytes).2.2
    rw [store_none_iff] at hnone
    omega
  | case4 i rest result contentReceived hlt data rest' hbytes buff hstore ih =>
    obtain ⟨hrest, hne, hle⟩ := net.recv_bytes hbytes
    obtain ⟨text, more, rest'', heq, hlen, hrest', harrives⟩ :=
      ih ((store_length hstore).trans hresult)
    refine ⟨text, data ++ more, rest'', heq, hlen, by rw [hrest, hrest', List.append_assoc], ?_⟩
    intro hnever hlong
    rw [List.length_append] at hlong
    refine .more (by omega) hbytes ?_
    rw [Nat.sub_sub]
    exact harrives (fun j hj => hnever j (by omega)) (by omega)
  | case5 i rest result contentReceived hge =>
    refine ⟨result, [], rest, rfl, hresult, rfl, ?_⟩
    intro _ _
    rw [Nat.sub_eq_zero_of_le (Nat.le_of_not_lt hge)]
    exact .done

theorem Arrives.le_length {net : Net} {i need : Nat} {rest : Bytes}
    (h : Arrives net i rest need) : need ≤ rest.length := by
  induction h with
  | done => exact Nat.zero_le _
  | more hneed hrecv h ih =>
    obtain ⟨hrest, -, -⟩ := Net.recv_bytes hrecv
    rw [hrest, List.length_append]
    omega

/-- A body that arrives is put behind what has been received of it. -/
theorem Arrives.bodyLoop_eq {net : Net} {i need : Nat} {rest : Bytes} (h : Arrives net i rest need) :
    ∀ got tail : Bytes, got.length + need = contentLength → (got ++ tail).length = contentLength →
      bodyLoop net contentLength i rest (got ++ tail) got.length =
        some (got ++ rest.take need, rest.drop need) := by
  induction h with
  | done =>
    intro got tail hneed hlen
    rw [bodyLoop, if_neg (by omega)]
    rw [List.length_append] at hlen
    rw [List.eq_nil_of_length_eq_zero (l := tail) (by omega), List.take_zero, List.drop_zero]
  | @more i need rest data rest' hneed hrecv h ih =>
    intro got tail hsum hlen
    obtain ⟨hrest, hne, hle⟩ := net.recv_bytes hrecv
    have hask : (contentLength : Nat) - got.length = need := by omega
    have hstore : store (got ++ tail) got.length data =
        some ((got ++ data) ++ tail.drop data.length) := by
      rw [store, if_pos (by omega), writeAt_behind]
    have htail : ((got ++ data) ++ tail.drop data.length).length = contentLength := by
      rw [store_length hstore, hlen]
    have hloop := ih (got ++ data) _ (by rw [List.length_append]; omega) htail
    have htake : rest.take need = data ++ rest'.take (need - data.length) := by
      rw [hrest, List.take_append, List.take_of_length_le hle]
    have hdrop : rest.drop need = rest'.drop (need - data.length) := by
      rw [hrest, List.drop_append, List.drop_eq_nil_of_le hle, List.nil_append]
    rw [htake, hdrop, ← List.append_assoc, ← hloop, List.length_append, bodyLoop,
      if_pos (by omega)]
    split
    · rename_i hclosed
      rw [hask, hrecv] at hclosed
      exact absurd hclosed (by simp)
    · rename_i hfailed
      rw [hask, hrecv] at hfailed
      exact absurd hfailed (by simp)
    · rename_i hbytes
      rw [hask, hrecv] at hbytes
      obtain ⟨rfl, rfl⟩ := RecvRes.bytes.inj hbytes
      rw [hstore]

end BodyLoop

/-! ## The whole call -/

section Reply

variable {net : Net} {i pos : Nat} {buf rest : Bytes}

theorem HeaderRead.pos_le (h : HeaderRead net i buf rest pos) :
    pos + 4 ≤ (text buf).length ∧ (text buf).length ≤ buf.length := by
  obtain ⟨-, -, -, -, -, -, -, -, -, hfind⟩ := h
  have hlen := (find_eq_some hfind).1.length_le
  rw [List.length_drop] at hlen
  have h4 : emptyLine.length = 4 := by decide
  exact ⟨by omega, (List.takeWhile_prefix _).length_le⟩

theorem HeaderRead.find_eq (h : HeaderRead net i buf rest pos) :
    find emptyLine (text buf) = some pos := by
  obtain ⟨-, -, -, -, -, -, -, -, -, hfind⟩ := h
  exact hfind

theorem HeaderRead.receiveReply_eq (h : HeaderRead net i buf rest pos) (result : Bytes) :
    receiveReply net result =
      readReply net result (bufferOf net buf) buf.length (pos + 4) i rest := by
  have hend := h.headerEnd_eq
  rw [headerEnd] at hend
  rw [receiveReply, hend]

theorem Overfull.receiveReply_eq (h : Overfull net) (result : Bytes) :
    receiveReply net result = .overrun := by
  have hend := h.headerEnd_eq
  rw [headerEnd] at hend
  rw [receiveReply, hend]

/-- What is received of the body with the header. -/
def gotWithHeader (buf : Bytes) (pos n : Nat) : Bytes := (buf.drop (pos + 4)).take n

/-- The body loop starts behind what came with the header, in a result of the announced length. -/
theorem HeaderRead.receiveBody_eq (h : HeaderRead net i buf rest pos) (result : Bytes)
    (n : Fin (2 ^ 31)) :
    ∃ tail, (gotWithHeader buf pos n ++ tail).length = n ∧
      receiveBody net result (bufferOf net buf) buf.length (pos + 4) i rest n =
        match bodyLoop net n i rest (gotWithHeader buf pos n ++ tail)
          (gotWithHeader buf pos n).length with
        | none => .overrun
        | some (result, rest) => .returned 200 result rest := by
  have hpos := h.pos_le
  have hgot : (gotWithHeader buf pos n).length = min (buf.length - (pos + 4)) n := by
    rw [gotWithHeader, List.length_take, List.length_drop, Nat.min_comm]
  have htake : ((bufferOf net buf).drop (pos + 4)).take (min (buf.length - (pos + 4)) n) =
      gotWithHeader buf pos n := by
    rw [bufferOf, List.drop_append_of_le_length (by omega), List.take_append_of_le_length
      (by rw [List.length_drop]; omega), gotWithHeader, List.take_eq_take_iff, List.length_drop]
    omega
  have hresize : (resize result n).length = n := by
    rw [resize, List.length_take, List.length_append, List.length_replicate]
    omega
  have hstore : store (resize result n) 0 (gotWithHeader buf pos n) =
      some (gotWithHeader buf pos n ++ (resize result n).drop (gotWithHeader buf pos n).length) := by
    rw [store, if_pos (by omega)]
    exact congrArg some (writeAt_behind [] _ _)
  refine ⟨(resize result n).drop (gotWithHeader buf pos n).length, ?_, ?_⟩
  · exact (store_length hstore).trans hresize
  · rw [← hgot] at htake
    cases hloop : bodyLoop net n i rest
        (gotWithHeader buf pos n ++ (resize result n).drop (gotWithHeader buf pos n).length)
        (gotWithHeader buf pos n).length with
    | none => simp only [receiveBody, htake, hstore, Option.bind_some, ← hgot, hloop]
    | some received => simp only [receiveBody, htake, hstore, Option.bind_some, ← hgot, hloop]

/-- No reply of status 200 is in what was received before the first empty line. -/
theorem HeaderPhase.no_reply (h : HeaderPhase net i buf rest) (body : Bytes) :
    ¬ ReplyOf buf body := by
  rintro ⟨block, behind, rfl, hok⟩
  have hfind := hok.header.find_text (body ++ behind)
  rw [← List.append_assoc, h.find_none] at hfind
  exact absurd hfind (by simp)

/-- The block of a reply in what has been received is the part up to the first empty line. -/
theorem HeaderRead.block_eq (h : HeaderRead net i buf rest pos) {block : Bytes}
    (hblock : HeaderBlock block) (more behind : Bytes) (heq : buf ++ more = block ++ behind) :
    block = buf.take (pos + 4) := by
  have hpos := h.pos_le
  have hlen := hblock.length_le
  have hfind : find emptyLine (text (buf ++ more)) = some pos := by
    obtain ⟨t, ht⟩ := text_prefix_append buf more
    have h4 : emptyLine.length = 4 := by decide
    rw [← ht]
    exact find_append h.find_eq (by omega) t
  rw [heq, hblock.find_text behind] at hfind
  have hend : block.length = pos + 4 := by
    have := Option.some.inj hfind
    omega
  have htake := congrArg (List.take (pos + 4)) heq
  rw [List.take_append_of_le_length (by omega), ← hend, List.take_left] at htake
  rw [hend] at htake
  exact htake.symm

/-- The number the code takes for the status of what it has received. -/
def readStatus (net : Net) (buf : Bytes) : Int := atoi ((bufferOf net buf).drop 9)

/-- The number it takes for the length when the key stands at `keyPos`. -/
def readLength (net : Net) (buf : Bytes) (keyPos : Nat) : Int :=
  atoi ((bufferOf net buf).drop (keyPos + 16))

/-- The length is an `int`. -/
theorem readLength_lt {keyPos n : Nat} (hn : readLength net buf keyPos = n) : n < 2 ^ 31 := by
  have hatoi := atoi_lt ((bufferOf net buf).drop (keyPos + 16))
  rw [← readLength, hn] at hatoi
  omega

theorem readStatus_of_reply {body : Bytes} (h : ReplyOf buf body) : readStatus net buf = 200 := by
  obtain ⟨block, behind, rfl, hok⟩ := h
  rw [readStatus, bufferOf, List.append_assoc, List.append_assoc]
  exact hok.atoi_eq _

/-- What the connection has to do for a reply to be put together: the header ends before the
buffer is full; the key of the length has been received with it; and if the status read is 200,
the header is that of such a reply, with the length read, and its body arrives. -/
structure Orderly (net : Net) : Prop where
  fits : ¬ Overfull net
  reads : ∀ i buf rest pos, HeaderRead net i buf rest pos →
    ∃ keyPos, find contentLengthKey (text buf) = some keyPos ∧
      (readStatus net buf = 200 → ∃ n : Nat, readLength net buf keyPos = n ∧
        Ok200 (buf.take (pos + 4)) n ∧ Arrives net i rest (n - (buf.length - (pos + 4))))

theorem HeaderRead.readReply_other (h : HeaderRead net i buf rest pos) (result : Bytes)
    {keyPos : Nat} (hkey : find contentLengthKey (text buf) = some keyPos)
    (hstatus : readStatus net buf ≠ 200) :
    receiveReply net result = .returned (readStatus net buf) buf rest := by
  have htake : (bufferOf net buf).take buf.length = buf := List.take_left
  rw [h.receiveReply_eq, readReply, strstr_bufferOf, hkey]
  dsimp only
  rw [← readStatus, if_pos hstatus, htake]

theorem HeaderRead.readReply_ok (h : HeaderRead net i buf rest pos) (result : Bytes)
    {keyPos : Nat} (hkey : find contentLengthKey (text buf) = some keyPos)
    (hstatus : readStatus net buf = 200) {n : Fin (2 ^ 31)} (hn : readLength net buf keyPos = n) :
    receiveReply net result =
      receiveBody net result (bufferOf net buf) buf.length (pos + 4) i rest n := by
  rw [h.receiveReply_eq, readReply, strstr_bufferOf, hkey]
  dsimp only
  rw [← readStatus, if_neg (not_not.mpr hstatus)]
  rw [readLength] at hn
  rw [if_pos (by rw [hn]; exact Int.natCast_nonneg _)]
  congr 1
  apply Fin.ext
  show (atoi _).toNat = n.val
  rw [hn, Int.toNat_natCast]

/-- A body that arrives is what the call returns, whatever `result` held. -/
theorem HeaderRead.receiveReply_ok (h : HeaderRead net i buf rest pos) {keyPos : Nat}
    (hkey : find contentLengthKey (text buf) = some keyPos) (hstatus : readStatus net buf = 200)
    {n : Fin (2 ^ 31)} (hn : readLength net buf keyPos = n)
    (harrives : Arrives net i rest (n - (buf.length - (pos + 4)))) (result : Bytes) :
    receiveReply net result = .returned 200
      (gotWithHeader buf pos n ++ rest.take (n - (buf.length - (pos + 4))))
      (rest.drop (n - (buf.length - (pos + 4)))) := by
  have hgot : (gotWithHeader buf pos n).length = min (n : Nat) (buf.length - (pos + 4)) := by
    rw [gotWithHeader, List.length_take, List.length_drop]
  obtain ⟨tail, htail, hbody⟩ := h.receiveBody_eq result n
  rw [h.readReply_ok result hkey hstatus hn, hbody,
    harrives.bodyLoop_eq (gotWithHeader buf pos n) tail (by omega) htail]

/-- What is returned once the header has been read: its status, with the bytes received so far, or
with as many as the header was taken to announce. -/
theorem HeaderRead.returned_cases (h : HeaderRead net i buf rest pos) {result got rest' : Bytes}
    {code : Int} (hreturned : receiveReply net result = .returned code got rest') :
    ∃ keyPos, find contentLengthKey (text buf) = some keyPos ∧ code = readStatus net buf ∧
      (readStatus net buf ≠ 200 → got = buf) ∧
      (readStatus net buf = 200 → readLength net buf keyPos = got.length) := by
  cases hkey : find contentLengthKey (text buf) with
  | none =>
    rw [h.receiveReply_eq, readReply, strstr_bufferOf, hkey] at hreturned
    exact absurd hreturned (by simp)
  | some keyPos =>
    refine ⟨keyPos, rfl, ?_⟩
    by_cases hstatus : readStatus net buf = 200
    · by_cases hlen : 0 ≤ readLength net buf keyPos
      · obtain ⟨n, hn⟩ := Int.eq_ofNat_of_zero_le hlen
        have hlt := readLength_lt hn
        obtain ⟨tail, htail, hbody⟩ := h.receiveBody_eq result ⟨n, hlt⟩
        obtain ⟨body, more, rest'', hloop, hbodyLen, -, -⟩ :=
          bodyLoop_some net i rest _ (gotWithHeader buf pos n).length htail
        rw [h.readReply_ok result hkey hstatus (n := ⟨n, hlt⟩) hn, hbody, hloop] at hreturned
        obtain ⟨rfl, rfl, rfl⟩ := Reply.returned.inj hreturned
        refine ⟨hstatus.symm, fun hne => absurd hstatus hne, fun _ => ?_⟩
        rw [hn, hbodyLen]
      · rw [h.receiveReply_eq, readReply, strstr_bufferOf, hkey] at hreturned
        dsimp only at hreturned
        rw [readLength] at hlen
        rw [← readStatus, if_neg (not_not.mpr hstatus), if_neg hlen] at hreturned
        exact absurd hreturned (by simp)
    · rw [h.readReply_other result hkey hstatus] at hreturned
      obtain ⟨rfl, rfl, rfl⟩ := Reply.returned.inj hreturned
      exact ⟨rfl, fun _ => rfl, fun hok => absurd hok hstatus⟩

theorem HeaderRead.reassembles_ok (h : HeaderRead net i buf rest pos) (result : Bytes)
    {keyPos : Nat} (hkey : find contentLengthKey (text buf) = some keyPos)
    (hstatus : readStatus net buf = 200) {n : Fin (2 ^ 31)} (hn : readLength net buf keyPos = n)
    (hok : Ok200 (buf.take (pos + 4)) n)
    (harrives : Arrives net i rest (n - (buf.length - (pos + 4)))) : Reassembles net result := by
  have hreturned := h.receiveReply_ok hkey hstatus hn harrives result
  have hle := harrives.le_length
  have hpos := h.pos_le
  generalize hneed : (n : Nat) - (buf.length - (pos + 4)) = need at hreturned hle
  have hreply : ReplyOf (buf ++ rest.take need) (gotWithHeader buf pos n ++ rest.take need) := by
    refine ⟨buf.take (pos + 4), (buf.drop (pos + 4)).drop n, ?_, ?_⟩
    · -- either the body came with the header, or all of `buf` behind the header is of the body
      rw [gotWithHeader, List.append_assoc, List.append_assoc]
      by_cases hwhole : (n : Nat) ≤ buf.length - (pos + 4)
      · have hzero : need = 0 := by omega
        rw [hzero, List.take_zero, List.nil_append, List.append_nil, List.take_append_drop,
          List.take_append_drop]
      · have hdrop : (buf.drop (pos + 4)).length ≤ n := by
          rw [List.length_drop]
          omega
        rw [List.take_of_length_le hdrop, List.drop_eq_nil_of_le hdrop, List.append_nil,
          ← List.append_assoc, List.take_append_drop]
    · have hlen : (gotWithHeader buf pos n ++ rest.take need).length = n := by
        rw [List.length_append, gotWithHeader, List.length_take, List.length_drop,
          List.length_take]
        omega
      rw [hlen]
      exact hok
  refine ⟨200, _, _, buf ++ rest.take need, hreturned, ?_, ?_, fun _ => hreply⟩
  · rw [h.stream_eq, List.append_assoc, List.take_append_drop]
  · exact iff_of_true rfl ⟨_, hreply⟩

/-- A reply that arrives in order is put together again. -/
theorem Orderly.reassembles (h : Orderly net) (result : Bytes) : Reassembles net result := by
  have hstart : HeaderPhase net 0 [] net.stream := .start
  rcases hstart.ends with
    ⟨i, buf, rest, hphase, hrecv⟩ | hfull | ⟨i, buf, rest, pos, hread⟩
  · obtain ⟨errno, hend⟩ := hphase.headerEnd_failed hrecv
    rw [headerEnd] at hend
    refine ⟨errno.val, result, rest, buf, by rw [receiveReply, hend], hphase.stream_eq, ?_, ?_⟩
    · apply iff_of_false
      · have hlt := errno.isLt
        omega
      · rintro ⟨body, hreply⟩
        exact hphase.no_reply body hreply
    · intro h200
      have hlt := errno.isLt
      omega
  · exact absurd hfull h.fits
  · obtain ⟨keyPos, hkey, hok⟩ := h.reads i buf rest pos hread
    by_cases hstatus : readStatus net buf = 200
    · obtain ⟨n, hn, hok200, harrives⟩ := hok hstatus
      exact hread.reassembles_ok result hkey hstatus (n := ⟨n, readLength_lt hn⟩) hn hok200
        harrives
    · refine ⟨_, _, _, buf, hread.readReply_other result hkey hstatus, hread.stream_eq, ?_, ?_⟩
      · apply iff_of_false hstatus
        rintro ⟨body, hreply⟩
        exact hstatus (readStatus_of_reply hreply)
      · intro h200
        exact absurd h200 hstatus

/-- Where no `recv` of the body fails, a body that is put together again has arrived. -/
theorem HeaderRead.ok_of_reassembles (h : HeaderRead net i buf rest pos) {result : Bytes}
    {keyPos : Nat} (hkey : find contentLengthKey (text buf) = some keyPos)
    (hstatus : readStatus net buf = 200) {n : Fin (2 ^ 31)} (hn : readLength net buf keyPos = n)
    (hnever : NeverFails net i) (hre : Reassembles net result) :
    Ok200 (buf.take (pos + 4)) n ∧ Arrives net i rest (n - (buf.length - (pos + 4))) := by
  have hpos := h.pos_le
  have hgot : (gotWithHeader buf pos n).length = min (n : Nat) (buf.length - (pos + 4)) := by
    rw [gotWithHeader, List.length_take, List.length_drop]
  obtain ⟨tail, htail, hbody⟩ := h.receiveBody_eq result n
  obtain ⟨body, more, rest', hloop, hlen, hrest, harrives⟩ :=
    bodyLoop_some net i rest _ (gotWithHeader buf pos n).length htail
  rw [hloop] at hbody
  obtain ⟨code, body', rest'', received, hreturned, hstream, -, hreply⟩ := hre
  rw [h.readReply_ok result hkey hstatus hn, hbody] at hreturned
  obtain ⟨rfl, rfl, rfl⟩ := Reply.returned.inj hreturned
  obtain ⟨block, behind, hreceived, hok⟩ := hreply rfl
  -- what was received is the buffer and what the body loop took
  have hall : received = buf ++ more := by
    rw [h.stream_eq, hrest, ← List.append_assoc] at hstream
    exact (List.append_cancel_right hstream).symm
  have hblock : block = buf.take (pos + 4) :=
    h.block_eq hok.header more (body ++ behind) (by rw [← hall, hreceived, List.append_assoc])
  rw [hlen, hblock] at hok
  refine ⟨hok, ?_⟩
  have hneed : (n : Nat) - (gotWithHeader buf pos n).length = n - (buf.length - (pos + 4)) := by
    omega
  rw [← hneed]
  apply harrives hnever
  have hcount := congrArg List.length (hall.symm.trans hreceived)
  simp only [hblock, List.length_append, List.length_take] at hcount
  omega

theorem Reassembles.orderly {result : Bytes}
    (hnever : ∀ i buf rest pos, HeaderRead net i buf rest pos → NeverFails net i)
    (h : Reassembles net result) : Orderly net := by
  constructor
  · intro hfull
    obtain ⟨code, body, rest, received, hreturned, -⟩ := h
    rw [hfull.receiveReply_eq] at hreturned
    exact absurd hreturned (by simp)
  · intro i buf rest pos hread
    obtain ⟨code, got, rest', received, hreturned, -⟩ := id h
    obtain ⟨keyPos, hkey, -, -, hlength⟩ := hread.returned_cases hreturned
    refine ⟨keyPos, hkey, ?_⟩
    intro hstatus
    have hn := hlength hstatus
    have hok := hread.ok_of_reassembles (n := ⟨got.length, readLength_lt hn⟩) hkey hstatus hn
      (hnever i buf rest pos hread) h
    exact ⟨got.length, hn, hok⟩

/-- An orderly connection is enough for the reply to be put together again, and where no `recv`
of the body fails it is needed. -/
theorem reassembles_orderly (net : Net) (result : Bytes) :
    (Orderly net → Reassembles net result) ∧
      ((∀ i buf rest pos, HeaderRead net i buf rest pos → NeverFails net i) →
        Reassembles net result → Orderly net) :=
  ⟨fun h => h.reassembles result, fun hnever h => h.orderly hnever⟩

end Reply

/-! ## Two replies that come in one piece -/

theorem emptyLine_eq : emptyLine = [13, 10, 13, 10] := by decide +kernel

theorem contentLengthKey_eq : contentLengthKey =
    [67, 111, 110, 116, 101, 110, 116, 45, 76, 101, 110, 103, 116, 104, 58, 32] := by
  decide +kernel

/-- The header of a reply of status 200 that announces two bytes. -/
def sampleHeader : Bytes :=
  [72, 84, 84, 80, 47, 49, 46, 49, 32, 50, 48, 48, 32, 79, 75, 13, 10] ++
    [67, 111, 110, 116, 101, 110, 116, 45, 76, 101, 110, 103, 116, 104, 58, 32] ++
    [50, 13, 10, 13, 10]

example : sampleHeader = ascii "HTTP/1.1 200 OK\r\nContent-Length: 2\r\n\r\n" := by decide +kernel

/-- A daemon that sends it and a body, all of it at hand at the first `recv`. -/
def sampleNet (body : Bytes) : Net where
  stream := sampleHeader ++ body
  cuts := fun _ => .ready 1000
  errno := 0
  headerBuff := List.Vector.replicate HTTP_HEADER_SIZE 0

/-- The parts of such a reply are where they are whatever follows the header. -/
theorem sampleHeader_parts :
    ((0 : UInt8) ∉ sampleHeader ∧ find emptyLine sampleHeader = some 34) ∧
      (ascii "HTTP/1." <+: sampleHeader ∧ sampleHeader[8]? = some 32) ∧
      number? (sampleHeader.drop 9) = some 200 ∧
      (find (ascii "\r\n" ++ contentLengthKey) sampleHeader = some 15 ∧
        find contentLengthKey sampleHeader = some 17) ∧
      number? (sampleHeader.drop 33) = some 2 := by
  rw [emptyLine_eq, contentLengthKey_eq]
  decide +kernel

theorem sampleHeader_ok : Ok200 sampleHeader 2 := by
  obtain ⟨⟨hnul, hempty⟩, ⟨hversion, hspace⟩, hstatus, ⟨hfield, -⟩, hnumber⟩ :=
    sampleHeader_parts
  exact ⟨⟨hnul, hempty⟩, hversion, hspace, hstatus, 15, hfield, hnumber⟩

/-- The first `recv` of such a daemon delivers everything. -/
theorem sampleNet_recv {body : Bytes} (hbody : body.length ≤ 2) (i : Nat) :
    (sampleNet body).recv i (sampleNet body).stream (HTTP_HEADER_SIZE - ([] : Bytes).length) =
      .bytes (sampleNet body).stream [] := by
  have hlen : (sampleNet body).stream.length = 38 + body.length :=
    List.length_append
  have hpos : (sampleNet body).stream ≠ [] := by
    intro hnil
    rw [hnil, List.length_nil] at hlen
    omega
  have hmin : min (1000 + 1) (HTTP_HEADER_SIZE - ([] : Bytes).length) = 1001 := by decide
  have hroom : ¬ (HTTP_HEADER_SIZE - ([] : Bytes).length = 0 ∨ (sampleNet body).stream = []) :=
    not_or.mpr ⟨by decide, hpos⟩
  show (if HTTP_HEADER_SIZE - ([] : Bytes).length = 0 ∨ (sampleNet body).stream = [] then
      RecvRes.closed
    else .bytes ((sampleNet body).stream.take (min (1000 + 1) _))
      ((sampleNet body).stream.drop (min (1000 + 1) _))) = _
  rw [if_neg hroom, hmin, List.take_of_length_le (by omega), List.drop_eq_nil_of_le (by omega)]

section Sample

variable {body : Bytes}

theorem sampleNet_read (body : Bytes) (hbody : body.length ≤ 2) :
    HeaderRead (sampleNet body) 1 (sampleHeader ++ body) [] 34 := by
  refine ⟨0, [], (sampleNet body).stream, sampleHeader ++ body, .start, sampleNet_recv hbody 0, rfl,
    rfl, ?_, sampleHeader_ok.header.find_text body⟩
  rw [List.length_append]
  show 38 + body.length < 1024 * 16
  omega

theorem sampleNet_key : find contentLengthKey (text (sampleHeader ++ body)) = some 17 := by
  obtain ⟨⟨hnul, -⟩, -, -, ⟨-, hkey⟩, -⟩ := sampleHeader_parts
  have hlen : contentLengthKey.length = 16 := by
    rw [contentLengthKey_eq]
    rfl
  rw [text_append_of_notMem hnul]
  exact find_append hkey (by rw [hlen]; decide) _

theorem sampleNet_status : readStatus (sampleNet body) (sampleHeader ++ body) = 200 := by
  rw [readStatus, bufferOf, List.append_assoc]
  exact sampleHeader_ok.atoi_eq _

theorem sampleNet_length : readLength (sampleNet body) (sampleHeader ++ body) 17 = 2 := by
  obtain ⟨-, -, -, -, hnumber⟩ := sampleHeader_parts
  rw [readLength, bufferOf, List.append_assoc, List.drop_append_of_le_length (by decide)]
  exact atoi_of_number hnumber (by decide) ⟨13, by decide, by decide⟩ _

/-- With the whole body behind the header the connection is orderly. -/
theorem sampleNet_orderly : Orderly (sampleNet [49, 50]) := by
  have hread := sampleNet_read [49, 50] (by decide)
  constructor
  · intro hfull
    exact absurd (hfull.headerEnd_eq.symm.trans hread.headerEnd_eq) (by simp)
  · intro i buf rest pos h
    obtain ⟨rfl, rfl, rfl, rfl⟩ := hread.unique h
    refine ⟨17, sampleNet_key, fun _ => ⟨2, sampleNet_length, ?_, ?_⟩⟩
    · exact sampleHeader_ok
    · exact .done

end Sample

theorem reassembles_whole : Reassembles (sampleNet [49, 50]) [] :=
  (reassembles_orderly _ []).1 sampleNet_orderly

/-- A daemon that closes after one of two bytes: the call returns 200 and a body ending in NUL. -/
theorem not_reassembles_broken_off :
    receiveReply (sampleNet [49]) [] = .returned 200 [49, 0] [] ∧
      ¬ Reassembles (sampleNet [49]) [] := by
  have hread := sampleNet_read [49] (by decide)
  constructor
  · rw [hread.readReply_ok [] sampleNet_key sampleNet_status (n := 2) sampleNet_length]
    have hstore : store (resize [] (2 : Fin (2 ^ 31))) 0
        (((bufferOf (sampleNet [49]) (sampleHeader ++ [49])).drop (34 + 4)).take
          (min ((sampleHeader ++ [49]).length - (34 + 4)) (2 : Fin (2 ^ 31)))) =
        some [49, 0] := by
      rfl
    rw [receiveBody, hstore, Option.bind_some, bodyLoop, if_pos (by decide)]
    rfl
  · intro h
    have horderly := h.orderly (fun i buf rest pos _ j _ => ⟨1000, rfl⟩)
    obtain ⟨keyPos, hkey, hok⟩ := horderly.reads _ _ _ _ hread
    obtain rfl : 17 = keyPos := Option.some.inj (sampleNet_key.symm.trans hkey)
    obtain ⟨n, hn, -, harrives⟩ := hok sampleNet_status
    obtain rfl : 2 = n := Int.ofNat_inj.mp (sampleNet_length.symm.trans hn)
    -- one byte is missing, and there is none left to receive
    cases harrives with
    | more hneed hrecv h =>
      have hnone := (Net.recv_bytes hrecv).1
      exact (Net.recv_bytes hrecv).2.1 (List.append_eq_nil_iff.mp hnone.symm).1

end SickPool.Daemon
