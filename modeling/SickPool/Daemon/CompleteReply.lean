import SickPool.Daemon.HttpReply
import SickPool.Library.Http

/-!
# What is handed on of a complete reply

A reply as the daemon sends it, its content framed in any of the ways of HTTP, and when
`SendRequest` returns its status and its body. The length is looked for under one spelling, in
whatever was received with the header, and of a reply of another status than 200 the bytes
received so far are handed on in the place of the body.
-/
namespace SickPool.Daemon

open SickPool.Library SickPool.Library.Bytes SickPool.Library.CString SickPool.Library.Http

/-! ## Replies -/

/-- A stream that starts with a reply, and what it carries behind the reply. -/
structure Message (stream : Bytes) (status : Nat) (block content body behind : Bytes) : Prop where
  stream_eq : stream = block ++ content ++ behind
  header : HeaderBlock block
  version : ascii "HTTP/1." <+: block
  space : block[8]? = some 32
  status_eq : number? (block.drop 9) = some status
  range : 100 ≤ status ∧ status < 600
  framed : Framed block status content body behind

/-- So many bytes come without an error: no `recv` of the header fails, and what is missing behind
the part received with the header arrives. -/
structure ArrivesWhole (net : Net) (size : Nat) : Prop where
  header : ∀ i buf rest, HeaderPhase net i buf rest → ∃ more, net.cuts i = .ready more
  rest : ∀ i buf rest pos, HeaderRead net i buf rest pos →
    Arrives net i rest (size - buf.length)

/-- The daemon sends a complete reply. -/
def Replies (net : Net) (status : Nat) (body : Bytes) : Prop :=
  ∃ block content behind, Message net.stream status block content body behind ∧
    ArrivesWhole net (block ++ content).length

/-- What `SendRequest` makes of the bytes is the reply: the header ends before the buffer is full;
the text of the length has been received with it; for the status 200 the number behind that text
is the length of the body, and the body stands behind the header as it is; for another status the
bytes received with the header are the body. -/
structure ReadAsSent (net : Net) (status : Nat) (body : Bytes) : Prop where
  fits : ¬ Overfull net
  reads : ∀ i buf rest pos, HeaderRead net i buf rest pos →
    ∃ keyPos, find contentLengthKey (text buf) = some keyPos ∧
      (status = 200 → readLength net buf keyPos = body.length ∧
        body <+: net.stream.drop (pos + 4)) ∧
      (status ≠ 200 → buf = body)

/-! ## What is received -/

/-- When fewer bytes are asked for, they arrive as well. -/
theorem Arrives.mono {net : Net} {i need : Nat} {rest : Bytes} (h : Arrives net i rest need)
    {fewer : Nat} (hle : fewer ≤ need) : Arrives net i rest fewer := by
  induction h generalizing fewer with
  | done =>
    obtain rfl := Nat.le_zero.mp hle
    exact .done
  | @more i need rest data rest' hneed hrecv h ih =>
    obtain rfl | hpos := Nat.eq_zero_or_pos fewer
    · exact .done
    · obtain ⟨hrest, hne, -⟩ := Net.recv_bytes hrecv
      have hlen := (Arrives.more hneed hrecv h).le_length
      unfold Net.recv at hrecv
      split at hrecv
      · exact absurd hrecv (by simp)
      · rename_i more hcut
        split at hrecv
        · exact absurd hrecv (by simp)
        · obtain ⟨rfl, rfl⟩ := RecvRes.bytes.inj hrecv
          have hask : net.recv i rest fewer =
              .bytes (rest.take (min (more + 1) fewer)) (rest.drop (min (more + 1) fewer)) := by
            rw [Net.recv, hcut]
            apply if_neg
            rintro (hzero | hnil)
            · omega
            · rw [hnil, List.length_nil] at hlen
              omega
          refine .more hpos hask ?_
          rw [List.length_take] at ih ⊢
          by_cases hshort : more + 1 ≤ fewer
          · -- as much is received as before
            rw [min_eq_left hshort]
            rw [min_eq_left (hshort.trans hle)] at ih
            exact ih (by omega)
          · rw [Nat.sub_eq_zero_of_le (by omega)]
            exact .done

section HeaderRead

variable {net : Net} {i pos : Nat} {buf rest : Bytes}

/-- The part of the body that came with the header and the next bytes are what the stream carries
behind the header. -/
theorem HeaderRead.body_eq (h : HeaderRead net i buf rest pos) (n : Nat) :
    gotWithHeader buf pos n ++ rest.take (n - (buf.length - (pos + 4))) =
      (net.stream.drop (pos + 4)).take n := by
  have hpos := h.pos_le
  rw [h.stream_eq, List.drop_append_of_le_length (by omega), List.take_append, List.length_drop,
    gotWithHeader]

end HeaderRead

/-! ## A reply that is read as it was sent -/

section Message

variable {net : Net} {status : Nat} {block content body behind : Bytes}

/-- As long as the header is not complete the reply goes on. -/
theorem Message.recv_bytes (h : Message net.stream status block content body behind) {size : Nat}
    (harrives : ArrivesWhole net size) {i : Nat} {buf rest : Bytes}
    (hphase : HeaderPhase net i buf rest) :
    ∃ data rest', net.recv i rest (HTTP_HEADER_SIZE - buf.length) = .bytes data rest' := by
  obtain ⟨more, hcut⟩ := harrives.header i buf rest hphase
  have hrest : rest ≠ [] := by
    rintro rfl
    have hfind := hphase.find_none
    rw [← List.append_nil buf, ← hphase.stream_eq, h.stream_eq, List.append_assoc,
      h.header.find_text] at hfind
    exact absurd hfind (by simp)
  have hroom := hphase.room
  rw [Net.recv, hcut]
  exact ⟨_, _, if_neg (not_or.mpr ⟨by omega, hrest⟩)⟩

theorem Message.header_ends (h : Message net.stream status block content body behind) {size : Nat}
    (harrives : ArrivesWhole net size) :
    Overfull net ∨ ∃ i buf rest pos, HeaderRead net i buf rest pos := by
  have hstart : HeaderPhase net 0 [] net.stream := .start
  rcases hstart.ends with ⟨i, buf, rest, hphase, hrecv⟩ | hends
  · obtain ⟨data, rest', hbytes⟩ := h.recv_bytes harrives hphase
    exact absurd hbytes (hrecv data rest')
  · exact hends

/-- The header that is read is the one of the reply. -/
theorem Message.block_eq (h : Message net.stream status block content body behind) {i pos : Nat}
    {buf rest : Bytes} (hread : HeaderRead net i buf rest pos) :
    block = buf.take (pos + 4) ∧ block.length = pos + 4 := by
  have hstream := hread.stream_eq
  rw [h.stream_eq, List.append_assoc] at hstream
  have hblock := hread.block_eq h.header rest (content ++ behind) hstream.symm
  refine ⟨hblock, ?_⟩
  have hpos := hread.pos_le
  rw [hblock, List.length_take]
  omega

theorem Message.readStatus_eq (h : Message net.stream status block content body behind)
    {i pos : Nat} {buf rest : Bytes} (hread : HeaderRead net i buf rest pos) :
    readStatus net buf = status := by
  have hbuf : bufferOf net buf =
      block ++ (buf.drop (pos + 4) ++ 0 :: net.headerBuff.toList.drop (buf.length + 1)) := by
    rw [(h.block_eq hread).1, ← List.append_assoc, List.take_append_drop, bufferOf]
  have hlt := h.range.2
  rw [readStatus, hbuf]
  exact h.header.atoi_eq h.status_eq (by omega) _

/-- What a body of the reply's length needs behind the header arrives. -/
theorem Message.arrives (h : Message net.stream status block content body behind)
    (harrives : ArrivesWhole net (block ++ content).length) {i pos : Nat} {buf rest : Bytes}
    (hread : HeaderRead net i buf rest pos) :
    Arrives net i rest (body.length - (buf.length - (pos + 4))) := by
  apply (harrives.rest i buf rest pos hread).mono
  have hframed := h.framed.length_le
  have hblock := (h.block_eq hread).2
  have hpos := hread.pos_le
  rw [List.length_append]
  omega

/-- When the number read is the length of the body, so many bytes behind the header are returned. -/
theorem Message.receiveReply_ok (h : Message net.stream status block content body behind)
    (harrives : ArrivesWhole net (block ++ content).length) {i pos : Nat} {buf rest : Bytes}
    (hread : HeaderRead net i buf rest pos) {keyPos : Nat}
    (hkey : find contentLengthKey (text buf) = some keyPos) (hstatus : status = 200)
    (hlength : readLength net buf keyPos = body.length) (result : Bytes) :
    ∃ rest', receiveReply net result =
      .returned 200 ((net.stream.drop (pos + 4)).take body.length) rest' := by
  have hread200 := h.readStatus_eq hread
  have hreturned := hread.receiveReply_ok hkey (by omega)
    (n := ⟨body.length, readLength_lt hlength⟩) hlength (h.arrives harrives hread) result
  rw [hread.body_eq] at hreturned
  exact ⟨_, hreturned⟩

end Message

section Replies

variable {net : Net} {status : Nat} {body : Bytes}

theorem Replies.range (h : Replies net status body) : 100 ≤ status ∧ status < 600 := by
  obtain ⟨block, content, behind, hmessage, -⟩ := h
  exact hmessage.range

/-- No other status is returned. -/
theorem Replies.code_eq (h : Replies net status body) {result got rest : Bytes} {code : Int}
    (hreturned : receiveReply net result = .returned code got rest) : code = status := by
  obtain ⟨block, content, behind, hmessage, harrives⟩ := h
  rcases hmessage.header_ends harrives with hfull | ⟨i, buf, rest', pos, hread⟩
  · rw [hfull.receiveReply_eq] at hreturned
    exact absurd hreturned (by simp)
  · obtain ⟨keyPos, -, hcode, -⟩ := hread.returned_cases hreturned
    rw [hcode, hmessage.readStatus_eq hread]

/-- The status and the body are returned exactly if the bytes are read as they were sent. -/
theorem Replies.returned_iff (h : Replies net status body) (result : Bytes) :
    (∃ rest, receiveReply net result = .returned status body rest) ↔
      ReadAsSent net status body := by
  obtain ⟨block, content, behind, hmessage, harrives⟩ := h
  constructor
  · rintro ⟨rest', hreturned⟩
    refine ⟨?_, ?_⟩
    · intro hfull
      rw [hfull.receiveReply_eq] at hreturned
      exact absurd hreturned (by simp)
    · intro i buf rest pos hread
      obtain ⟨keyPos, hkey, -, hother, hok⟩ := hread.returned_cases hreturned
      rw [hmessage.readStatus_eq hread] at hother hok
      refine ⟨keyPos, hkey, ?_, fun hne => (hother (by omega)).symm⟩
      intro hstatus
      have hlength := hok (by omega)
      refine ⟨hlength, ?_⟩
      obtain ⟨_, hbody⟩ :=
        hmessage.receiveReply_ok harrives hread hkey hstatus hlength result
      obtain ⟨-, hbody, -⟩ := Reply.returned.inj (hreturned.symm.trans hbody)
      rw [hbody]
      exact List.take_prefix _ _
  · intro hsent
    obtain ⟨i, buf, rest, pos, hread⟩ := (hmessage.header_ends harrives).resolve_left hsent.fits
    obtain ⟨keyPos, hkey, hok, hother⟩ := hsent.reads i buf rest pos hread
    by_cases hstatus : status = 200
    · obtain ⟨hlength, hprefix⟩ := hok hstatus
      obtain ⟨rest', hbody⟩ :=
        hmessage.receiveReply_ok harrives hread hkey hstatus hlength result
      rw [← List.prefix_iff_eq_take.mp hprefix] at hbody
      rw [hstatus]
      exact ⟨rest', hbody⟩
    · have hread200 := hmessage.readStatus_eq hread
      have hreturned := hread.readReply_other result hkey (by omega)
      rw [hread200, hother hstatus] at hreturned
      exact ⟨rest, hreturned⟩

end Replies

/-! ## A reply whose length is announced as it is looked for -/

theorem sampleHeader_fields : values sampleHeader contentLength = [[50]] ∧
    values sampleHeader transferEncoding = [] := by
  decide +kernel

theorem sampleNet_arrives :
    ArrivesWhole (sampleNet [49, 50]) (sampleHeader ++ [49, 50]).length := by
  have hread := sampleNet_read [49, 50] (by decide)
  refine ⟨fun i buf rest _ => ⟨1000, rfl⟩, ?_⟩
  intro i buf rest pos h
  obtain ⟨rfl, rfl, rfl, rfl⟩ := hread.unique h
  rw [Nat.sub_self]
  exact .done

theorem sampleNet_replies : Replies (sampleNet [49, 50]) 200 [49, 50] := by
  obtain ⟨-, ⟨hversion, hspace⟩, hstatus, -⟩ := sampleHeader_parts
  obtain ⟨hlength, hencoding⟩ := sampleHeader_fields
  refine ⟨sampleHeader, [49, 50], [], ⟨(List.append_nil _).symm, sampleHeader_ok.header, hversion,
    hspace, hstatus, by decide, ?_⟩, sampleNet_arrives⟩
  refine .length (by decide) hencoding ⟨by simp [hlength], ?_⟩
  intro value hvalue
  rw [hlength, List.mem_singleton] at hvalue
  rw [hvalue]
  decide +kernel

/-- It is the only reply on this connection. -/
theorem sampleNet_unique {status : Nat} {body : Bytes}
    (h : Replies (sampleNet [49, 50]) status body) : status = 200 ∧ body = [49, 50] := by
  obtain ⟨block, content, behind, hmessage, -⟩ := h
  have hread := sampleNet_read [49, 50] (by decide)
  obtain ⟨hlength, hencoding⟩ := sampleHeader_fields
  have hblock : block = sampleHeader := (hmessage.block_eq hread).1
  have hstatus : status = 200 := by
    have hread := hmessage.readStatus_eq hread
    rw [sampleNet_status] at hread
    omega
  have hcontent : content ++ behind = [49, 50] := by
    have hstream := hmessage.stream_eq
    rw [hblock, List.append_assoc] at hstream
    exact (List.append_cancel_left hstream).symm
  refine ⟨hstatus, ?_⟩
  have hframed := hmessage.framed
  rw [hblock, hstatus] at hframed
  cases hframed with
  | contentless h => exact absurd h (by decide)
  | chunked _ hvalue => exact absurd (hencoding.symm.trans hvalue) (by simp)
  | length _ _ hannounces =>
    have htwo := (hannounces.2 [50] (by simp [hlength])).2.2
    exact List.append_inj_left (hcontent.trans (List.append_nil _).symm) htwo.symm
  | untilClose _ _ hnone => exact absurd (hlength.symm.trans hnone) (by simp)

theorem sampleNet_readAsSent : ReadAsSent (sampleNet [49, 50]) 200 [49, 50] := by
  have hread := sampleNet_read [49, 50] (by decide)
  refine ⟨sampleNet_orderly.fits, ?_⟩
  intro i buf rest pos h
  obtain ⟨rfl, rfl, rfl, rfl⟩ := hread.unique h
  refine ⟨17, sampleNet_key, fun _ => ⟨sampleNet_length, ?_⟩, fun hne => absurd rfl hne⟩
  exact List.prefix_refl _

end SickPool.Daemon
