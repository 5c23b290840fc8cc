import SickPool.Library.CString
import Mathlib.Data.List.DropRight

/-!
# What a reply of HTTP carries

The content of a reply is framed by what its header says: a length, chunks, or nothing, and then
it lasts until the connection is closed. The body is what the content stands for.
-/
namespace SickPool.Library.Http

open SickPool.Library.Json

def crlf : Bytes := [13, 10]

/-! ## Fields -/

/-- A letter of a field's name; its case does not matter. -/
def lower (c : UInt8) : UInt8 := if 65 ≤ c ∧ c ≤ 90 then c + 32 else c

def isBlank (c : UInt8) : Bool := c = 32 || c = 9 || c = 13

/-- A line of the header: the name in lower case, the value without the blanks around it. -/
def fieldOf (line : Bytes) : Bytes × Bytes :=
  ((line.takeWhile (· ≠ 58)).map lower,
    (((line.dropWhile (· ≠ 58)).drop 1).dropWhile isBlank).rdropWhile isBlank)

/-- The fields of a header block, behind the status line. -/
def fields (block : Bytes) : List (Bytes × Bytes) := ((block.splitOn 10).drop 1).map fieldOf

/-- The values a field has in a header block. -/
def values (block name : Bytes) : List Bytes :=
  ((fields block).filter (fun field => field.1 = name)).map Prod.snd

def contentLength : Bytes := Bytes.ascii "content-length"

def transferEncoding : Bytes := Bytes.ascii "transfer-encoding"

/-- The header says, and says nothing else, that the content has so many bytes. -/
def Announces (block : Bytes) (n : Nat) : Prop :=
  values block contentLength ≠ [] ∧ ∀ value ∈ values block contentLength,
    value ≠ [] ∧ (∀ c ∈ value, isDigit c = true) ∧ decValue value = n

/-! ## Chunks -/

/-- A number in hex digits. -/
def hexNumber? (s : Bytes) : Option Nat :=
  if s = [] then none else s.foldlM (fun v c => (hexDigit? c).map (16 * v + ·)) 0

/-- What may stand behind the size of a chunk on its line. -/
def Extension (ext : Bytes) : Prop := ext = [] ∨ ext.head? = some 59 ∧ 10 ∉ ext

/-- A content in chunks and the body it stands for. -/
inductive Chunks : Bytes → Bytes → Prop where
  | last {size ext : Bytes} {trailers : List Bytes} (hsize : hexNumber? size = some 0)
      (hext : Extension ext) (htrailers : ∀ line ∈ trailers, line ≠ [] ∧ 10 ∉ line) :
      Chunks (size ++ ext ++ crlf ++ (trailers.map (· ++ crlf)).flatten ++ crlf) []
  | chunk {size ext data content body : Bytes} (hdata : data ≠ [])
      (hsize : hexNumber? size = some data.length) (hext : Extension ext)
      (h : Chunks content body) :
      Chunks (size ++ ext ++ crlf ++ data ++ crlf ++ content) (data ++ body)

theorem Chunks.length_le {content body : Bytes} (h : Chunks content body) :
    body.length ≤ content.length := by
  induction h with
  | last hsize hext htrailers => exact Nat.zero_le _
  | chunk hdata hsize hext h ih =>
    simp only [List.length_append]
    omega

/-! ## Framing -/

/-- Replies of some statuses have no content whatever the header says. -/
def Contentless (status : Nat) : Prop := status < 200 ∨ status = 204 ∨ status = 304

instance (status : Nat) : Decidable (Contentless status) :=
  inferInstanceAs (Decidable (status < 200 ∨ status = 204 ∨ status = 304))

/-- The content of a reply with this header and status, the body it stands for, and what the
connection carries behind it. -/
inductive Framed (block : Bytes) (status : Nat) : Bytes → Bytes → Bytes → Prop where
  | contentless {behind : Bytes} (h : Contentless status) : Framed block status [] [] behind
  | chunked {content body behind value : Bytes} (h : ¬ Contentless status)
      (hencoding : values block transferEncoding = [value])
      (hvalue : value.map lower = Bytes.ascii "chunked") (hchunks : Chunks content body) :
      Framed block status content body behind
  | length {content behind : Bytes} (h : ¬ Contentless status)
      (hencoding : values block transferEncoding = []) (hlength : Announces block content.length) :
      Framed block status content content behind
  | untilClose {content : Bytes} (h : ¬ Contentless status)
      (hencoding : values block transferEncoding = []) (hlength : values block contentLength = []) :
      Framed block status content content []

/-- No framing makes a body longer than its content. -/
theorem Framed.length_le {block content body behind : Bytes} {status : Nat}
    (h : Framed block status content body behind) : body.length ≤ content.length := by
  cases h with
  | contentless => exact Nat.le_refl _
  | chunked _ _ _ hchunks => exact hchunks.length_le
  | length => exact Nat.le_refl _
  | untilClose => exact Nat.le_refl _

end SickPool.Library.Http
