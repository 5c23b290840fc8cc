import SickPool.Library.Json
import Mathlib.Data.List.TakeWhile

/-!
# Rules for JSON texts

`Reads v text`: the reader takes `v` from `text` and leaves what follows. `Rejects text`:
the reader fails on everything that starts with `text`. There is one rule for each way to
build a text.
-/
namespace SickPool.Library.Json

open Bytes

/-- A text that starts with a token other than the end of an array. -/
def Starts (text : Bytes) : Prop := ∃ c rest, text = c :: rest ∧ isWs c = false ∧ c ≠ 93

/-- What may follow a value inside a text. -/
def Ends (rest : Bytes) : Prop := ∀ c ∈ rest.head?, c = 44 ∨ c = 93 ∨ c = 125

/-- A value is read from the text, whatever value separator follows. -/
structure Reads (v : Json) (text : Bytes) : Prop where
  starts : Starts text
  reads : ∀ rest fuel, Ends rest → 2 * text.length ≤ fuel →
    readValue fuel (text ++ rest) = some (v, rest)

/-- No value is read from the text, whatever follows. -/
structure Rejects (text : Bytes) : Prop where
  starts : Starts text
  rejects : ∀ rest fuel, 2 * text.length ≤ fuel → readValue fuel (text ++ rest) = none

theorem skipWs_cons {c : UInt8} (h : isWs c = false) (rest : Bytes) :
    skipWs (c :: rest) = c :: rest := by
  rw [skipWs, List.dropWhile_cons_of_neg (by simp [h])]

theorem Reads.parse_eq {v : Json} {text : Bytes} (h : Reads v text) : parse text = some v := by
  have hr := h.reads [] (2 * text.length) (by simp [Ends]) le_rfl
  rw [List.append_nil] at hr
  rw [parse, hr]
  rfl

theorem Rejects.parse_eq {text : Bytes} (h : Rejects text) (rest : Bytes) :
    parse (text ++ rest) = none := by
  have hr := h.rejects rest (2 * (text ++ rest).length) (by simp)
  rw [parse, hr]

theorem Rejects.append {text : Bytes} (h : Rejects text) (more : Bytes) :
    Rejects (text ++ more) where
  starts := by
    obtain ⟨c, rest, rfl, hc⟩ := h.starts
    exact ⟨c, rest ++ more, rfl, hc⟩
  rejects := by
    intro rest fuel hf
    rw [List.length_append] at hf
    rw [List.append_assoc]
    exact h.rejects _ fuel (by omega)

/-! ## Strings -/

/-- A character that stands for itself in a string. -/
def isPlain (c : UInt8) : Bool := c ≠ 34 && c ≠ 92 && 32 ≤ c

theorem readChars_plain {s : Bytes} (h : ∀ c ∈ s, isPlain c = true) (fuel : Nat) (rest : Bytes) :
    readChars (s.length + fuel) (s ++ rest) =
      (readChars fuel rest).map (fun r => (s ++ r.1, r.2)) := by
  induction s with
  | nil => simp
  | cons c s ih =>
    have hc := h c (by simp)
    simp only [isPlain, ne_eq, decide_not, Bool.and_eq_true, Bool.not_eq_eq_eq_not, Bool.not_true,
      decide_eq_false_iff_not, decide_eq_true_eq] at hc
    have hlow : ¬ c < 32 := UInt8.not_lt.mpr hc.2
    rw [List.length_cons, show s.length + 1 + fuel = (s.length + fuel) + 1 by omega]
    simp only [List.cons_append, readChars, hc.1.1, hc.1.2, hlow, ↓reduceIte]
    rw [ih (fun x hx => h x (by simp [hx]))]
    simp [Option.map_map, Function.comp_def]

theorem readString_plain {s : Bytes} (h : ∀ c ∈ s, isPlain c = true) (rest : Bytes) :
    readString (s ++ 34 :: rest) = some (s, rest) := by
  have hl : (s ++ 34 :: rest).length = s.length + (rest.length + 1) := by simp
  rw [readString, hl, readChars_plain h]
  simp [readChars]

theorem readString_control {s : Bytes} (h : ∀ c ∈ s, isPlain c = true) {c : UInt8} (hc : c < 32)
    (rest : Bytes) : readString (s ++ c :: rest) = none := by
  have hl : (s ++ c :: rest).length = s.length + (rest.length + 1) := by simp
  have h34 : c ≠ 34 := by
    rintro rfl
    exact absurd hc (by decide)
  have h92 : c ≠ 92 := by
    rintro rfl
    exact absurd hc (by decide)
  rw [readString, hl, readChars_plain h]
  simp [readChars, h34, h92, hc]

theorem Reads.str {s : Bytes} (h : ∀ c ∈ s, isPlain c = true) :
    Reads (.str s) (34 :: (s ++ [34])) where
  starts := ⟨34, s ++ [34], rfl, by decide, by decide⟩
  reads := by
    intro rest fuel _ hf
    obtain ⟨n, rfl⟩ : ∃ n, fuel = n + 1 := ⟨fuel - 1, by simp at hf; omega⟩
    simp only [List.cons_append, List.append_assoc, readValue, skipWs_cons (c := 34) (by decide),
      ↓reduceIte, List.nil_append, readString_plain h, Option.map_some]

theorem Rejects.str {s : Bytes} (h : ∀ c ∈ s, isPlain c = true) {c : UInt8} (hc : c < 32) :
    Rejects (34 :: (s ++ [c])) where
  starts := ⟨34, s ++ [c], rfl, by decide, by decide⟩
  rejects := by
    intro rest fuel hf
    obtain ⟨n, rfl⟩ : ∃ n, fuel = n + 1 := ⟨fuel - 1, by simp at hf; omega⟩
    simp only [List.cons_append, List.append_assoc, readValue, skipWs_cons (c := 34) (by decide),
      ↓reduceIte, List.nil_append, readString_control h hc, Option.map_none]

/-! ## Numbers -/

/-- The digits of a whole number without leading zeros. -/
structure Numeral (digits : Bytes) : Prop where
  ne_nil : digits ≠ []
  all : ∀ c ∈ digits, isDigit c = true
  lead : ¬ (digits.head? = some 48 ∧ 1 < digits.length)

theorem isDigit_ends : ∀ c : UInt8, c = 44 ∨ c = 93 ∨ c = 125 →
    isDigit c = false ∧ c ≠ 46 ∧ ¬ (c = 101 ∨ c = 69) := by
  rintro c (rfl | rfl | rfl) <;> decide

theorem readInt_numeral {digits rest : Bytes} (h : Numeral digits) (he : Ends rest) :
    readInt (digits ++ rest) = some (digits, rest) := by
  have hrest : rest.takeWhile isDigit = [] ∧ rest.dropWhile isDigit = rest := by
    cases rest with
    | nil => exact ⟨rfl, rfl⟩
    | cons c rest => simp [isDigit_ends c (he c rfl)]
  have htake : (digits ++ rest).takeWhile isDigit = digits := by
    rw [List.takeWhile_append_of_pos h.all, hrest.1, List.append_nil]
  have hdrop : (digits ++ rest).dropWhile isDigit = rest := by
    rw [List.dropWhile_append_of_pos h.all, hrest.2]
  simp only [readInt, readDigits, htake, hdrop, h.ne_nil, ↓reduceIte, h.lead]

theorem readUnsigned_numeral {digits rest : Bytes} (h : Numeral digits) (he : Ends rest) :
    readUnsigned (digits ++ rest) = some ((decValue digits, 0), rest) := by
  rw [readUnsigned, readInt_numeral h he]
  cases rest with
  | nil => simp [readFrac, readExp]
  | cons c rest =>
    obtain ⟨-, hdot, hexp⟩ := isDigit_ends c (he c rfl)
    simp [readFrac, readExp, hdot, hexp]

theorem isDigit_start : ∀ c : UInt8, isDigit c = true → isWs c = false ∧ c ≠ 93 ∧ c ≠ 34 ∧ c ≠ 91 ∧
    c ≠ 123 ∧ c ≠ 116 ∧ c ≠ 102 ∧ c ≠ 110 ∧ c ≠ 45 := by
  apply forall_byte
  decide +kernel

theorem Numeral.cons {digits : Bytes} (h : Numeral digits) :
    ∃ c rest, digits = c :: rest ∧ isDigit c = true := by
  cases digits with
  | nil => exact absurd rfl h.ne_nil
  | cons c rest => exact ⟨c, rest, rfl, h.all c (by simp)⟩

theorem Reads.num {digits : Bytes} (h : Numeral digits) :
    Reads (.num (decValue digits) 0) digits := by
  obtain ⟨c, tail, hdigits, hc⟩ := h.cons
  obtain ⟨hws, h93, h34, h91, h123, h116, h102, h110, h45⟩ := isDigit_start c hc
  refine ⟨⟨c, tail, hdigits, hws, h93⟩, ?_⟩
  intro rest fuel he hf
  obtain ⟨n, rfl⟩ : ∃ n, fuel = n + 1 := ⟨fuel - 1, by simp [hdigits] at hf; omega⟩
  have hread := readUnsigned_numeral h he
  rw [hdigits, List.cons_append] at hread ⊢
  simp only [readValue, skipWs_cons hws, h34, h91, h123, h116, h102, h110, ↓reduceIte, readNumber,
    h45, hread, Option.map_some]

theorem Reads.neg {digits : Bytes} (h : Numeral digits) :
    Reads (.num (-decValue digits) 0) (45 :: digits) where
  starts := ⟨45, digits, rfl, by decide, by decide⟩
  reads := by
    intro rest fuel he hf
    obtain ⟨n, rfl⟩ : ∃ n, fuel = n + 1 := ⟨fuel - 1, by simp at hf; omega⟩
    rw [List.cons_append, readValue, skipWs_cons (by decide)]
    simp [readNumber, readUnsigned_numeral h he]

/-! ## Arrays -/

def commaSeparated : List Bytes → Bytes
  | [] => []
  | [text] => text
  | text :: more :: texts => text ++ 44 :: commaSeparated (more :: texts)

/-- Texts that each end in a comma, without the last one. -/
theorem dropLast_flatten_commas {texts : List Bytes} (hne : texts ≠ []) :
    ((texts.map (· ++ [44])).flatten).dropLast = commaSeparated texts := by
  induction texts with
  | nil => exact absurd rfl hne
  | cons text texts ih =>
    cases texts with
    | nil => simp [commaSeparated]
    | cons more texts =>
      rw [List.map_cons, List.flatten_cons, List.dropLast_append_of_ne_nil (by simp), ih (by simp)]
      simp [commaSeparated]

theorem commaSeparated_append (texts : List Bytes) (text : Bytes) (more : List Bytes) :
    ∃ rest, commaSeparated (texts ++ text :: more) =
      (texts.map (· ++ [44])).flatten ++ text ++ rest := by
  induction texts with
  | nil =>
    cases more with
    | nil => exact ⟨[], by simp [commaSeparated]⟩
    | cons next more => exact ⟨44 :: commaSeparated (next :: more), by simp [commaSeparated]⟩
  | cons first texts ih =>
    obtain ⟨rest, hrest⟩ := ih
    obtain ⟨second, tail, htail⟩ : ∃ second tail, texts ++ text :: more = second :: tail := by
      cases texts with
      | nil => exact ⟨text, more, rfl⟩
      | cons second texts => exact ⟨second, texts ++ text :: more, rfl⟩
    refine ⟨rest, ?_⟩
    rw [List.cons_append, htail, commaSeparated, ← htail, hrest]
    simp

theorem ends_cons {c : UInt8} (h : c = 44 ∨ c = 93 ∨ c = 125) (rest : Bytes) : Ends (c :: rest) := by
  intro d hd
  obtain rfl := Option.some.inj hd
  exact h

theorem Starts.length_pos {text : Bytes} (h : Starts text) : 0 < text.length := by
  obtain ⟨c, rest, rfl, -⟩ := h
  simp

theorem isWs_ends {c : UInt8} (h : c = 44 ∨ c = 93 ∨ c = 125) : isWs c = false := by
  rcases h with rfl | rfl | rfl <;> decide

theorem readItems_cons {v : Json} {text : Bytes} (h : Reads v text) {c : UInt8}
    (hc : c = 44 ∨ c = 93 ∨ c = 125) (rest : Bytes) {n : Nat} (hn : 2 * text.length ≤ n) :
    readItems (n + 1) (text ++ c :: rest) = if c = 93 then some ([v], rest)
      else if c = 44 then (readItems n rest).map (fun r => (v :: r.1, r.2)) else none := by
  rw [readItems, h.reads (c :: rest) n (ends_cons hc rest) hn]
  simp only [skipWs_cons (isWs_ends hc)]

/-- The items of an array are read one after the other. -/
theorem readItems_commaSeparated {vs : List Json} {texts : List Bytes}
    (h : List.Forall₂ Reads vs texts) (hne : texts ≠ []) (rest : Bytes) (fuel : Nat)
    (hf : 2 * (commaSeparated texts).length + 1 ≤ fuel) :
    readItems fuel (commaSeparated texts ++ 93 :: rest) = some (vs, rest) := by
  induction h generalizing fuel with
  | nil => exact absurd rfl hne
  | @cons v text vs texts hread hreads ih =>
    obtain ⟨n, rfl⟩ : ∃ n, fuel = n + 1 := ⟨fuel - 1, by omega⟩
    cases hreads with
    | nil =>
      rw [commaSeparated] at hf ⊢
      rw [readItems_cons hread (by simp) rest (by omega), if_pos rfl]
    | @cons v' more vs' texts' hread' hreads' =>
      have hpos := hread.starts.length_pos
      simp only [commaSeparated, List.length_append, List.length_cons] at hf
      rw [commaSeparated, List.append_assoc, List.cons_append,
        readItems_cons hread (by simp) _ (by omega), if_neg (by decide), if_pos rfl,
        ih (by simp) n (by omega)]
      rfl

theorem Starts.commaSeparated {text : Bytes} (h : Starts text) (texts : List Bytes) :
    ∃ c rest, Json.commaSeparated (text :: texts) = c :: rest ∧ isWs c = false ∧ c ≠ 93 := by
  obtain ⟨c, rest, rfl, hc⟩ := h
  cases texts with
  | nil => exact ⟨c, rest, rfl, hc⟩
  | cons more texts => exact ⟨c, rest ++ 44 :: Json.commaSeparated (more :: texts), rfl, hc⟩

theorem Reads.arr {vs : List Json} {texts : List Bytes} (h : List.Forall₂ Reads vs texts) :
    Reads (.arr vs) (91 :: (commaSeparated texts ++ [93])) where
  starts := ⟨91, _, rfl, by decide, by decide⟩
  reads := by
    intro rest fuel _ hf
    simp only [List.length_cons, List.length_append, List.length_nil] at hf
    obtain ⟨n, rfl⟩ : ∃ n, fuel = n + 1 := ⟨fuel - 1, by omega⟩
    rw [List.cons_append, List.append_assoc, readValue, skipWs_cons (by decide)]
    simp only [List.cons_append, List.nil_append, ↓reduceIte]
    rw [if_neg (by decide)]
    cases h with
    | nil => simp [commaSeparated, skipWs_cons (c := 93) (by decide)]
    | @cons v text vs texts hread hreads =>
      obtain ⟨c, tail, htext, hws, h93⟩ := hread.starts.commaSeparated texts
      have hitems := readItems_commaSeparated (.cons hread hreads) (by simp) rest n (by omega)
      rw [htext, List.cons_append] at hitems ⊢
      simp only [skipWs_cons hws, h93, ↓reduceIte, hitems, Option.map_some]

/-- A bad item after good ones. -/
theorem readItems_rejects {vs : List Json} {texts : List Bytes}
    (h : List.Forall₂ Reads vs texts) {bad : Bytes} (hbad : Rejects bad) (rest : Bytes) (fuel : Nat)
    (hf : 2 * ((texts.map (· ++ [44])).flatten ++ bad).length + 1 ≤ fuel) :
    readItems fuel ((texts.map (· ++ [44])).flatten ++ bad ++ rest) = none := by
  induction h generalizing fuel with
  | nil =>
    obtain ⟨n, rfl⟩ : ∃ n, fuel = n + 1 := ⟨fuel - 1, by omega⟩
    simp only [List.map_nil, List.flatten_nil, List.nil_append] at hf ⊢
    rw [readItems, hbad.rejects rest n (by omega)]
  | @cons v text vs texts hread hreads ih =>
    obtain ⟨n, rfl⟩ : ∃ n, fuel = n + 1 := ⟨fuel - 1, by omega⟩
    simp only [List.map_cons, List.flatten_cons, List.length_append, List.length_cons,
      List.length_nil] at hf
    simp only [List.map_cons, List.flatten_cons, List.append_assoc, List.cons_append,
      List.nil_append]
    rw [readItems_cons hread (by simp) _ (by omega), if_neg (by decide), if_pos rfl,
      ← List.append_assoc, ih n (by rw [List.length_append]; omega)]
    rfl

theorem Rejects.arr {vs : List Json} {texts : List Bytes} (h : List.Forall₂ Reads vs texts)
    {bad : Bytes} (hbad : Rejects bad) :
    Rejects (91 :: ((texts.map (· ++ [44])).flatten ++ bad)) where
  starts := ⟨91, _, rfl, by decide, by decide⟩
  rejects := by
    intro rest fuel hf
    rw [List.length_cons] at hf
    obtain ⟨n, rfl⟩ : ∃ n, fuel = n + 1 := ⟨fuel - 1, by omega⟩
    have hstarts : Starts ((texts.map (· ++ [44])).flatten ++ bad) := by
      cases h with
      | nil => exact hbad.starts
      | @cons v text vs texts hread hreads =>
        obtain ⟨c, tail, rfl, hc⟩ := hread.starts
        exact ⟨c, _, rfl, hc⟩
    have hitems := readItems_rejects h hbad rest n (by omega)
    obtain ⟨c, tail, htext, hws, h93⟩ := hstarts
    rw [htext, List.cons_append] at hitems
    rw [List.cons_append, readValue, skipWs_cons (by decide), htext, List.cons_append]
    simp only [↓reduceIte, skipWs_cons hws, h93, hitems, Option.map_none]
    rw [if_neg (by decide)]

/-! ## Objects -/

def memberText (key text : Bytes) : Bytes := 34 :: (key ++ 34 :: 58 :: text)

def ReadsMember (member : Bytes × Json) (text : Bytes) : Prop :=
  ∃ value, text = memberText member.1 value ∧ (∀ c ∈ member.1, isPlain c = true) ∧
    Reads member.2 value

theorem readMembers_cons {key value : Bytes} {v : Json} (hkey : ∀ c ∈ key, isPlain c = true)
    (h : Reads v value) {c : UInt8} (hc : c = 44 ∨ c = 93 ∨ c = 125) (rest : Bytes) {n : Nat}
    (hn : 2 * value.length ≤ n) :
    readMembers (n + 1) (memberText key value ++ c :: rest) =
      if c = 125 then some ([(key, v)], rest)
      else if c = 44 then (readMembers n rest).map (fun r => ((key, v) :: r.1, r.2)) else none := by
  simp only [memberText, List.cons_append, List.append_assoc, readMembers,
    skipWs_cons (c := 34) (by decide), ne_eq, not_true_eq_false, ↓reduceIte,
    readString_plain hkey, skipWs_cons (c := 58) (by decide),
    h.reads (c :: rest) n (ends_cons hc rest) hn, skipWs_cons (isWs_ends hc)]

/-- The members of an object are read one after the other. -/
theorem readMembers_commaSeparated {members : List (Bytes × Json)} {texts : List Bytes}
    (h : List.Forall₂ ReadsMember members texts) (hne : texts ≠ []) (rest : Bytes) (fuel : Nat)
    (hf : 2 * (commaSeparated texts).length + 1 ≤ fuel) :
    readMembers fuel (commaSeparated texts ++ 125 :: rest) = some (members, rest) := by
  induction h generalizing fuel with
  | nil => exact absurd rfl hne
  | @cons member text members texts hmember hmembers ih =>
    obtain ⟨n, rfl⟩ : ∃ n, fuel = n + 1 := ⟨fuel - 1, by omega⟩
    obtain ⟨value, rfl, hkey, hread⟩ := hmember
    have hlen : (memberText member.1 value).length = member.1.length + value.length + 3 := by
      simp [memberText]
      omega
    cases hmembers with
    | nil =>
      simp only [commaSeparated, hlen] at hf
      rw [commaSeparated, readMembers_cons hkey hread (by simp) rest (by omega), if_pos rfl]
    | @cons member' more members' texts' hmember' hmembers' =>
      simp only [commaSeparated, List.length_append, List.length_cons, hlen] at hf
      rw [commaSeparated, List.append_assoc, List.cons_append,
        readMembers_cons hkey hread (by simp) _ (by omega), if_neg (by decide), if_pos rfl,
        ih (by simp) n (by omega)]
      rfl

theorem Reads.obj {members : List (Bytes × Json)} {texts : List Bytes}
    (h : List.Forall₂ ReadsMember members texts) (hne : texts ≠ []) :
    Reads (.obj members) (123 :: (commaSeparated texts ++ [125])) where
  starts := ⟨123, _, rfl, by decide, by decide⟩
  reads := by
    intro rest fuel _ hf
    simp only [List.length_cons, List.length_append, List.length_nil] at hf
    obtain ⟨n, rfl⟩ : ∃ n, fuel = n + 1 := ⟨fuel - 1, by omega⟩
    have hitems := readMembers_commaSeparated h hne rest n (by omega)
    obtain ⟨tail, htext⟩ : ∃ tail, commaSeparated texts = 34 :: tail := by
      cases h with
      | nil => exact absurd rfl hne
      | @cons member text members texts hmember hmembers =>
        obtain ⟨value, rfl, -, -⟩ := hmember
        cases texts with
        | nil => exact ⟨_, rfl⟩
        | cons more texts => exact ⟨_, rfl⟩
    rw [htext, List.cons_append] at hitems
    rw [List.cons_append, List.append_assoc, readValue, skipWs_cons (by decide), htext]
    simp only [List.cons_append, List.nil_append, ↓reduceIte, skipWs_cons (c := 34) (by decide),
      hitems, Option.map_some]
    rw [if_neg (by decide), if_neg (by decide), if_neg (by decide)]

theorem Rejects.obj {key bad : Bytes} (hkey : ∀ c ∈ key, isPlain c = true) (hbad : Rejects bad) :
    Rejects (123 :: memberText key bad) where
  starts := ⟨123, _, rfl, by decide, by decide⟩
  rejects := by
    intro rest fuel hf
    simp only [memberText, List.length_cons, List.length_append] at hf
    obtain ⟨n, rfl⟩ : ∃ n, fuel = n + 2 := ⟨fuel - 2, by omega⟩
    have hvalue := hbad.rejects rest n (by omega)
    simp only [memberText, List.cons_append, List.append_assoc, readValue, readMembers,
      skipWs_cons (c := 123) (by decide), skipWs_cons (c := 34) (by decide), ne_eq,
      not_true_eq_false, ↓reduceIte, readString_plain hkey, skipWs_cons (c := 58) (by decide),
      hvalue, Option.map_none]
    rw [if_neg (by decide), if_neg (by decide), if_neg (by decide)]

end SickPool.Library.Json
