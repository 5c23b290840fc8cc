import SickPool.Library.JsonRules
import SickPool.Utils.HexUtils

/-!
# Requests to the daemon

The functions of `DaemonRpc` that build the parameters of a request. A text is put
between quotes as it is.
-/
namespace SickPool.Daemon

open SickPool.Library SickPool.Library.Bytes SickPool.Library.Json SickPool.Utils

/-- The three argument types of `ToJsonStr`: `int64_t`, `std::string_view` and `JsonStr`. -/
inductive Arg where
  | int (arg : Int)
  | text (arg : Bytes)
  | json (arg : Bytes)

def toString64 (arg : Int) : Bytes :=
  if arg < 0 then 45 :: fmtDec arg.natAbs else fmtDec arg.natAbs

def toJsonStr : Arg → Bytes
  | .int arg => toString64 arg
  | .text arg => ascii "\"" ++ arg ++ ascii "\""
  | .json arg => arg

def toJsonKeyVal (key : Bytes) (val : Arg) : Bytes :=
  ascii "\"" ++ key ++ ascii "\":" ++ toJsonStr val

/-- `ToJsonObj`: the last character, a comma, is overwritten. -/
def toJsonObj (obj : List (Bytes × Arg)) : Bytes :=
  let res := obj.foldl (fun res x => res ++ toJsonKeyVal x.1 x.2 ++ ascii ",") (ascii "\x7b")
  res.dropLast ++ ascii "\x7d"

def getArrayStr (args : List Arg) : Bytes :=
  let params := args.foldl (fun params s => params ++ toJsonStr s ++ ascii ",") (ascii "[")
  if args.isEmpty then params ++ ascii "]" else params.dropLast ++ ascii "]"

/-! ## Texts with commas -/

theorem foldl_commas (texts : List Bytes) (start : Bytes) :
    texts.foldl (fun res text => res ++ text ++ [44]) start =
      start ++ (texts.map (· ++ [44])).flatten := by
  induction texts generalizing start with
  | nil => simp
  | cons text texts ih => rw [List.foldl_cons, ih]; simp

theorem ascii_comma : ascii "," = [44] := rfl

theorem toJsonObj_eq {obj : List (Bytes × Arg)} (hne : obj ≠ []) :
    toJsonObj obj = 123 :: (commaSeparated (obj.map (fun x => memberText x.1 (toJsonStr x.2))) ++
      [125]) := by
  have hmember : ∀ x : Bytes × Arg, toJsonKeyVal x.1 x.2 = memberText x.1 (toJsonStr x.2) := by
    intro x
    simp only [toJsonKeyVal, memberText, List.append_assoc]
    rfl
  have hfold := foldl_commas (obj.map (fun x => memberText x.1 (toJsonStr x.2))) [123]
  rw [List.foldl_map] at hfold
  have hnil : ((obj.map (fun x => memberText x.1 (toJsonStr x.2))).map (· ++ [44])).flatten ≠ [] := by
    cases obj with
    | nil => exact absurd rfl hne
    | cons x obj => simp
  simp only [toJsonObj, hmember, ascii_comma]
  rw [show ascii "\x7b" = [123] from rfl, hfold, List.dropLast_append_of_ne_nil hnil,
    dropLast_flatten_commas (by simpa using hne)]
  rfl

theorem getArrayStr_eq (args : List Arg) :
    getArrayStr args = 91 :: (commaSeparated (args.map toJsonStr) ++ [93]) := by
  cases args with
  | nil => rfl
  | cons arg args =>
    have hfold := foldl_commas ((arg :: args).map toJsonStr) [91]
    rw [List.foldl_map] at hfold
    have hnil : (((arg :: args).map toJsonStr).map (· ++ [44])).flatten ≠ [] := by simp
    simp only [getArrayStr, ascii_comma, List.isEmpty_cons, Bool.false_eq_true, ↓reduceIte]
    rw [show ascii "[" = [91] from rfl, hfold, List.dropLast_append_of_ne_nil hnil,
      dropLast_flatten_commas (by simp)]
    rfl

/-! ## Decimal numbers -/

theorem digitChar_byte : ∀ n : Fin 10, (Nat.digitChar n).toNat.toUInt8 = UInt8.ofNat (48 + n) := by
  decide

theorem fmtDec_eq (n : Nat) :
    fmtDec n = (Nat.toDigits 10 n).map (fun c => c.toNat.toUInt8) := by
  rw [fmtDec, ascii, Nat.toString_eq_repr, Nat.toList_repr]

theorem fmtDec_of_lt {n : Nat} (h : n < 10) : fmtDec n = [UInt8.ofNat (48 + n)] := by
  rw [fmtDec_eq, Nat.toDigits_of_lt_base h, List.map_singleton, digitChar_byte ⟨n, h⟩]

theorem fmtDec_of_le {n : Nat} (h : 10 ≤ n) :
    fmtDec n = fmtDec (n / 10) ++ [UInt8.ofNat (48 + n % 10)] := by
  rw [fmtDec_eq, Nat.toDigits_of_base_le (by decide) h, List.map_append, List.map_singleton,
    digitChar_byte ⟨n % 10, Nat.mod_lt n (by decide)⟩, ← fmtDec_eq]

theorem digit_facts : ∀ n : Fin 10, isDigit (UInt8.ofNat (48 + n)) = true ∧
    (UInt8.ofNat (48 + n)).toNat - 48 = n ∧ (UInt8.ofNat (48 + n) = 48 → n = 0) := by
  decide

theorem decValue_append (digits : Bytes) (c : UInt8) :
    decValue (digits ++ [c]) = decValue digits * 10 + (c.toNat - 48) := by
  simp [decValue]

/-- A number is printed as its digits, and a number other than 0 without a leading 0. -/
theorem fmtDec_spec (n : Nat) :
    Numeral (fmtDec n) ∧ decValue (fmtDec n) = n ∧ (n ≠ 0 → (fmtDec n).head? ≠ some 48) := by
  induction n using Nat.strongRecOn with
  | ind n ih =>
    by_cases h : n < 10
    · obtain ⟨hdigit, hvalue, hzero⟩ := digit_facts ⟨n, h⟩
      rw [fmtDec_of_lt h]
      refine ⟨⟨by simp, by simpa using hdigit, by simp⟩, by simpa [decValue] using hvalue, ?_⟩
      intro hn hhead
      exact hn (congrArg Fin.val (hzero (Option.some.inj hhead)))
    · obtain ⟨hnum, hvalue, hlead⟩ := ih (n / 10) (by omega)
      obtain ⟨hdigit, hlast, -⟩ := digit_facts ⟨n % 10, Nat.mod_lt n (by decide)⟩
      have hhead : (fmtDec n).head? ≠ some 48 := by
        obtain ⟨c, rest, hcons, -⟩ := hnum.cons
        have := hlead (by omega)
        rw [fmtDec_of_le (by omega), hcons]
        rwa [hcons] at this
      refine ⟨⟨?_, ?_, fun hc => hhead hc.1⟩, ?_, fun _ => hhead⟩
      · rw [fmtDec_of_le (by omega)]
        simp
      · rw [fmtDec_of_le (by omega)]
        intro c hc
        rcases List.mem_append.mp hc with hc | hc
        · exact hnum.all c hc
        · rw [List.mem_singleton.mp hc]
          exact hdigit
      · rw [fmtDec_of_le (by omega), decValue_append, hvalue, hlast]
        change n / 10 * 10 + n % 10 = n
        omega

theorem reads_int (arg : Int) : Reads (.num arg 0) (toJsonStr (.int arg)) := by
  obtain ⟨hnum, hvalue, -⟩ := fmtDec_spec arg.natAbs
  simp only [toJsonStr, toString64]
  split
  · have h := Reads.neg hnum
    rw [hvalue] at h
    rwa [show -(arg.natAbs : Int) = arg by omega] at h
  · have h := Reads.num hnum
    rw [hvalue] at h
    rwa [show (arg.natAbs : Int) = arg by omega] at h

theorem reads_text {arg : Bytes} (h : ∀ c ∈ arg, isPlain c = true) :
    Reads (.str arg) (toJsonStr (.text arg)) := Reads.str h

end SickPool.Daemon
