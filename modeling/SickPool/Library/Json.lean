import SickPool.Library.Bytes

/-!
# JSON texts

A reader of JSON texts by the grammar of RFC 8259, on the bytes of the text: white space
between tokens, escapes in strings, no control characters in strings, no leading zeros.
A number is a mantissa and a decimal exponent. The rules say which value a text built
from smaller texts reads as, and when it is rejected whatever follows.
-/
namespace SickPool.Library

inductive Json where
  | null
  | bool (b : Bool)
  | num (mantissa exponent : Int)
  | str (s : Bytes)
  | arr (items : List Json)
  | obj (members : List (Bytes × Json))

namespace Json

open Bytes

/-! ## Tokens -/

/-- Space, tab, line feed and carriage return. -/
def isWs (c : UInt8) : Bool := c = 32 || c = 9 || c = 10 || c = 13

def skipWs (s : Bytes) : Bytes := s.dropWhile isWs

def isDigit (c : UInt8) : Bool := 48 ≤ c && c ≤ 57

def decValue (digits : Bytes) : Nat := digits.foldl (fun v c => v * 10 + (c.toNat - 48)) 0

def readDigits (s : Bytes) : Option (Bytes × Bytes) :=
  if s.takeWhile isDigit = [] then none else some (s.takeWhile isDigit, s.dropWhile isDigit)

def readInt (s : Bytes) : Option (Bytes × Bytes) :=
  match readDigits s with
  | some (digits, rest) =>
    if digits.head? = some 48 ∧ 1 < digits.length then none else some (digits, rest)
  | none => none

/-- The digits of a fraction, if there is one. -/
def readFrac : Bytes → Option (Bytes × Bytes)
  | c :: rest => if c = 46 then readDigits rest else some ([], c :: rest)
  | [] => some ([], [])

def readSigned : Bytes → Option (Int × Bytes)
  | c :: rest =>
    if c = 45 then (readDigits rest).map (fun r => (-decValue r.1, r.2))
    else if c = 43 then (readDigits rest).map (fun r => (decValue r.1, r.2))
    else (readDigits (c :: rest)).map (fun r => (decValue r.1, r.2))
  | [] => none

def readExp : Bytes → Option (Int × Bytes)
  | c :: rest => if c = 101 ∨ c = 69 then readSigned rest else some (0, c :: rest)
  | [] => some (0, [])

def readUnsigned (s : Bytes) : Option ((Nat × Int) × Bytes) :=
  match readInt s with
  | none => none
  | some (int, rest) => match readFrac rest with
    | none => none
    | some (frac, rest) => (readExp rest).map (fun r =>
        ((decValue (int ++ frac), r.1 - frac.length), r.2))

def readNumber : Bytes → Option (Json × Bytes)
  | c :: rest =>
    if c = 45 then (readUnsigned rest).map (fun r => (.num (-r.1.1) r.1.2, r.2))
    else (readUnsigned (c :: rest)).map (fun r => (.num r.1.1 r.1.2, r.2))
  | [] => none

def hexDigit? (c : UInt8) : Option Nat :=
  if isDigit c then some (c.toNat - 48)
  else if 97 ≤ c && c ≤ 102 then some (c.toNat - 87)
  else if 65 ≤ c && c ≤ 70 then some (c.toNat - 55)
  else none

def readHex4 : Bytes → Option (Nat × Bytes)
  | a :: b :: c :: d :: rest =>
    match hexDigit? a, hexDigit? b, hexDigit? c, hexDigit? d with
    | some a, some b, some c, some d => some (((a * 16 + b) * 16 + c) * 16 + d, rest)
    | _, _, _, _ => none
  | _ => none

def utf8 (point : Nat) : Bytes :=
  if point < 0x80 then [UInt8.ofNat point]
  else if point < 0x800 then [UInt8.ofNat (0xC0 + point / 64), UInt8.ofNat (0x80 + point % 64)]
  else if point < 0x10000 then
    [UInt8.ofNat (0xE0 + point / 4096), UInt8.ofNat (0x80 + point / 64 % 64),
      UInt8.ofNat (0x80 + point % 64)]
  else
    [UInt8.ofNat (0xF0 + point / 262144), UInt8.ofNat (0x80 + point / 4096 % 64),
      UInt8.ofNat (0x80 + point / 64 % 64), UInt8.ofNat (0x80 + point % 64)]

/-- What is behind `\u`: a code point, or a pair of surrogates. -/
def readUnicode (s : Bytes) : Option (Bytes × Bytes) :=
  match readHex4 s with
  | none => none
  | some (high, rest) =>
    if high < 0xD800 ∨ 0xE000 ≤ high then some (utf8 high, rest)
    else match rest with
      | 92 :: 117 :: rest => match readHex4 rest with
        | some (low, rest) =>
          if high < 0xDC00 ∧ 0xDC00 ≤ low ∧ low < 0xE000
          then some (utf8 (0x10000 + (high - 0xD800) * 0x400 + (low - 0xDC00)), rest) else none
        | none => none
      | _ => none

/-- The character a one-letter escape stands for. -/
def simpleEscape (c : UInt8) : Option UInt8 :=
  if c = 34 ∨ c = 92 ∨ c = 47 then some c
  else if c = 98 then some 8
  else if c = 102 then some 12
  else if c = 110 then some 10
  else if c = 114 then some 13
  else if c = 116 then some 9
  else none

def readEscape : Bytes → Option (Bytes × Bytes)
  | c :: rest => if c = 117 then readUnicode rest
      else (simpleEscape c).map (fun e => ([e], rest))
  | [] => none

def readChars : Nat → Bytes → Option (Bytes × Bytes)
  | n + 1, c :: rest =>
    if c = 34 then some ([], rest)
    else if c = 92 then
      match readEscape rest with
      | some (out, rest) => (readChars n rest).map (fun r => (out ++ r.1, r.2))
      | none => none
    else if c < 32 then none
    else (readChars n rest).map (fun r => (c :: r.1, r.2))
  | _, _ => none

def readString (s : Bytes) : Option (Bytes × Bytes) := readChars s.length s

def readLiteral (text : Bytes) (v : Json) (s : Bytes) : Option (Json × Bytes) :=
  if text.isPrefixOf s then some (v, s.drop text.length) else none

/-! ## Values -/

mutual

def readValue : Nat → Bytes → Option (Json × Bytes)
  | 0, _ => none
  | n + 1, s => match skipWs s with
    | [] => none
    | c :: rest =>
      if c = 34 then (readString rest).map (fun r => (.str r.1, r.2))
      else if c = 91 then
        match skipWs rest with
        | [] => none
        | d :: more => if d = 93 then some (.arr [], more)
            else (readItems n rest).map (fun r => (.arr r.1, r.2))
      else if c = 123 then
        match skipWs rest with
        | [] => none
        | d :: more => if d = 125 then some (.obj [], more)
            else (readMembers n rest).map (fun r => (.obj r.1, r.2))
      else if c = 116 then readLiteral (ascii "true") (.bool true) (c :: rest)
      else if c = 102 then readLiteral (ascii "false") (.bool false) (c :: rest)
      else if c = 110 then readLiteral (ascii "null") .null (c :: rest)
      else readNumber (c :: rest)

def readItems : Nat → Bytes → Option (List Json × Bytes)
  | 0, _ => none
  | n + 1, s => match readValue n s with
    | none => none
    | some (v, rest) => match skipWs rest with
      | [] => none
      | c :: more =>
        if c = 93 then some ([v], more)
        else if c = 44 then (readItems n more).map (fun r => (v :: r.1, r.2))
        else none

def readMembers : Nat → Bytes → Option (List (Bytes × Json) × Bytes)
  | 0, _ => none
  | n + 1, s => match skipWs s with
    | [] => none
    | q :: rest => if q ≠ 34 then none else match readString rest with
      | none => none
      | some (key, rest) => match skipWs rest with
        | [] => none
        | d :: rest => if d ≠ 58 then none else match readValue n rest with
          | none => none
          | some (v, rest) => match skipWs rest with
            | [] => none
            | c :: more =>
              if c = 125 then some ([(key, v)], more)
              else if c = 44 then (readMembers n more).map (fun r => ((key, v) :: r.1, r.2))
              else none

end

/-- A JSON text: one value with white space around it. A value needs at most two calls for
each character. -/
def parse (s : Bytes) : Option Json :=
  match readValue (2 * s.length) s with
  | some (v, rest) => if skipWs rest = [] then some v else none
  | none => none

/-- The value of a member of an object; the first counts. -/
def field? (key : Bytes) : Json → Option Json
  | .obj members => members.lookup key
  | _ => none

end Json
end SickPool.Library
