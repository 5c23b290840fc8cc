import SickPool.Crypto.Base58
import SickPool.Daemon.DaemonRpc
import SickPool.Library.Lines
import SickPool.Payouts.RoundShare

/-!
# Payouts

The parameters that `DaemonManagerT<ZANO>::Transfer` sends to the wallet. An address got
into the database because `DecodeBase58` took it, which looks at the C string in it and
skips white space. So an address may hold tabs and line breaks, or a NUL and anything
behind it, and these go into the JSON text unescaped.
-/
namespace SickPool.Daemon

open SickPool.Library SickPool.Library.Bytes SickPool.Library.Json SickPool.Utils SickPool.Crypto
open SickPool.Payouts (Payee)

/-- The conversion of a `uint64_t` to `int64_t`. -/
def toInt64 (n : Nat) : Int :=
  if n % 2 ^ 64 < 2 ^ 63 then (n % 2 ^ 64 : Nat) else (n % 2 ^ 64 : Nat) - 2 ^ 64

def destStr (dest : Payee) : Bytes :=
  toJsonObj [(ascii "address", .text dest.address),
    (ascii "amount", .int (toInt64 dest.amountClean))]

def transferParams (dests : List Payee) (fee : Int) : Bytes :=
  toJsonObj [(ascii "destinations", .json (getArrayStr (dests.map (fun d => .json (destStr d))))),
    (ascii "fee", .int fee), (ascii "mixin", .int 0)]

/-! ## What the wallet reads -/

def destination? (v : Json) : Option (Bytes × Int) :=
  match v.field? (ascii "address"), v.field? (ascii "amount") with
  | some (.str address), some (.num amount 0) => some (address, amount)
  | _, _ => none

def destinations? (v : Json) : Option (List (Bytes × Int)) :=
  match v.field? (ascii "destinations") with
  | some (.arr items) => items.mapM destination?
  | _ => none

/-- The text is JSON and asks for these payments with this fee. -/
def CarriesPayment (text : Bytes) (dests : List Payee) (fee : Int) : Prop :=
  ∃ v, parse text = some v ∧
    destinations? v = some (dests.map (fun d => (d.address, (d.amountClean : Int)))) ∧
    v.field? (ascii "fee") = some (.num fee 0)

/-! ## Addresses -/

theorem isPlain_of_mem_pszBase58 : ∀ c ∈ Base58.pszBase58, isPlain c = true := by
  decide +kernel

theorem isPlain_of_isAddressChar {c : UInt8} (h : Base58.isAddressChar c) (hc : 32 ≤ c) :
    isPlain c = true := by
  rcases h with h | h
  · simp only [Base58.isspace, Bool.or_eq_true, decide_eq_true_eq, Bool.and_eq_true] at h
    rcases h with rfl | ⟨-, h⟩
    · decide
    · exact absurd (UInt8.le_trans hc h) (by decide)
  · exact isPlain_of_mem_pszBase58 c h

theorem plain_of_accepted {pre : Bytes} (rest : Bytes) (h : (Base58.decodeBase58 (pre ++ rest)).isSome)
    (hpre : ∀ c ∈ pre, 32 ≤ c) : ∀ c ∈ pre, isPlain c = true := by
  obtain ⟨out, hout⟩ := Option.isSome_iff_exists.mp h
  have hne : ∀ c ∈ pre, (fun c : UInt8 => decide (c ≠ 0)) c = true := by
    intro c hc
    refine decide_eq_true ?_
    rintro rfl
    exact absurd (hpre 0 hc) (by decide)
  intro c hc
  refine isPlain_of_isAddressChar (Base58.decodeBase58_chars hout c ?_) (hpre c hc)
  rw [Base58.cString, List.takeWhile_append_of_pos hne]
  exact List.mem_append_left _ hc

theorem plain_of_clean {address : Bytes} (h : (Base58.decodeBase58 address).isSome)
    (hclean : ∀ c ∈ address, 32 ≤ c) : ∀ c ∈ address, isPlain c = true :=
  plain_of_accepted [] (by rwa [List.append_nil]) hclean

/-! ## The request -/

theorem keys_plain : (∀ c ∈ ascii "address", isPlain c = true) ∧
    (∀ c ∈ ascii "amount", isPlain c = true) ∧ (∀ c ∈ ascii "destinations", isPlain c = true) ∧
    (∀ c ∈ ascii "fee", isPlain c = true) ∧ ∀ c ∈ ascii "mixin", isPlain c = true := by
  decide +kernel

def destJson (dest : Payee) : Json :=
  .obj [(ascii "address", .str dest.address), (ascii "amount", .num (toInt64 dest.amountClean) 0)]

theorem reads_dest {dest : Payee} (h : ∀ c ∈ dest.address, isPlain c = true) :
    Reads (destJson dest) (destStr dest) := by
  obtain ⟨haddress, hamount, -⟩ := keys_plain
  rw [destStr, toJsonObj_eq (by simp)]
  refine Reads.obj (.cons ⟨_, rfl, haddress, reads_text h⟩ (.cons ⟨_, rfl, hamount, reads_int _⟩
    .nil)) (by simp)

theorem rejects_dest {dest : Payee} {plain rest : Bytes} {c : UInt8}
    (haddress : dest.address = plain ++ c :: rest) (h : ∀ c ∈ plain, isPlain c = true)
    (hc : c < 32) : Rejects (destStr dest) := by
  obtain ⟨hkey, -⟩ := keys_plain
  have htext : destStr dest = 123 :: memberText (ascii "address") (34 :: (plain ++ [c])) ++
      (rest ++ 34 :: 44 :: (memberText (ascii "amount")
        (toJsonStr (.int (toInt64 dest.amountClean))) ++ [125])) := by
    rw [destStr, toJsonObj_eq (by simp)]
    simp only [List.map_cons, List.map_nil, commaSeparated, memberText, toJsonStr, haddress,
      show ascii "\"" = [34] from rfl, List.cons_append, List.nil_append, List.append_assoc]
  rw [htext]
  exact (Rejects.obj hkey (Rejects.str h hc)).append _

theorem transferParams_eq (dests : List Payee) (fee : Int) :
    transferParams dests fee = 123 :: (commaSeparated
      [memberText (ascii "destinations") (91 :: (commaSeparated (dests.map destStr) ++ [93])),
        memberText (ascii "fee") (toJsonStr (.int fee)),
        memberText (ascii "mixin") (toJsonStr (.int 0))] ++ [125]) := by
  rw [transferParams, toJsonObj_eq (by simp)]
  simp only [List.map_cons, List.map_nil, toJsonStr, getArrayStr_eq, List.map_map]
  rfl

/-- Clean addresses: the wallet reads what was meant. -/
theorem reads_transferParams {dests : List Payee} (fee : Int)
    (h : ∀ d ∈ dests, ∀ c ∈ d.address, isPlain c = true) :
    Reads (.obj [(ascii "destinations", .arr (dests.map destJson)), (ascii "fee", .num fee 0),
      (ascii "mixin", .num 0 0)]) (transferParams dests fee) := by
  obtain ⟨-, -, hdest, hfee, hmixin⟩ := keys_plain
  have hdests : List.Forall₂ Reads (dests.map destJson) (dests.map destStr) := by
    rw [List.forall₂_map_left_iff, List.forall₂_map_right_iff, List.forall₂_same]
    exact fun d hd => reads_dest (h d hd)
  rw [transferParams_eq]
  exact Reads.obj (.cons ⟨_, rfl, hdest, Reads.arr hdests⟩ (.cons ⟨_, rfl, hfee, reads_int fee⟩
    (.cons ⟨_, rfl, hmixin, reads_int 0⟩ .nil))) (by simp)

/-- One address with a control character spoils the text. -/
theorem rejects_transferParams {good : List Payee} {dest : Payee} (more : List Payee) (fee : Int)
    (hgood : ∀ d ∈ good, ∀ c ∈ d.address, isPlain c = true) (hbad : Rejects (destStr dest)) :
    Rejects (transferParams (good ++ dest :: more) fee) := by
  obtain ⟨-, -, hdest, -⟩ := keys_plain
  have hdests : List.Forall₂ Reads (good.map destJson) (good.map destStr) := by
    rw [List.forall₂_map_left_iff, List.forall₂_map_right_iff, List.forall₂_same]
    exact fun d hd => reads_dest (hgood d hd)
  obtain ⟨rest, hrest⟩ := commaSeparated_append (good.map destStr) (destStr dest) (more.map destStr)
  have hreject := (Rejects.obj hdest (Rejects.arr hdests hbad)).append (rest ++ 93 :: 44 ::
    (memberText (ascii "fee") (toJsonStr (.int fee)) ++ 44 ::
      (memberText (ascii "mixin") (toJsonStr (.int 0)) ++ [125])))
  rw [transferParams_eq, List.map_append, List.map_cons, hrest]
  simpa only [commaSeparated, memberText, List.cons_append, List.append_assoc, List.nil_append]
    using hreject

theorem toInt64_of_lt {n : Nat} (h : n < 2 ^ 63) : toInt64 n = n := by
  rw [toInt64, Nat.mod_eq_of_lt (by omega), if_pos h]

theorem destination?_destJson {dest : Payee} (h : dest.amountClean < 2 ^ 63) :
    destination? (destJson dest) = some (dest.address, (dest.amountClean : Int)) := by
  rw [← toInt64_of_lt h]
  rfl

theorem mapM_destination? {dests : List Payee} (h : ∀ d ∈ dests, d.amountClean < 2 ^ 63) :
    (dests.map destJson).mapM destination? =
      some (dests.map (fun d => (d.address, (d.amountClean : Int)))) := by
  induction dests with
  | nil => rfl
  | cons d dests ih =>
    rw [List.map_cons, List.mapM_cons, destination?_destJson (h d (by simp)),
      ih (fun x hx => h x (by simp [hx]))]
    rfl

/-- **When a payout is asked for as meant.** For payees with accepted addresses the
parameters are a JSON text with exactly these destinations and this fee if and only if no
address holds a control character. -/
theorem transfer_carries_payment_iff (dests : List Payee) (fee : Int)
    (haccepted : ∀ d ∈ dests, (Base58.decodeBase58 d.address).isSome)
    (hamount : ∀ d ∈ dests, d.amountClean < 2 ^ 63) :
    CarriesPayment (transferParams dests fee) dests fee ↔
      ∀ d ∈ dests, ∀ c ∈ d.address, 32 ≤ c := by
  constructor
  · rintro ⟨v, hparse, -⟩
    by_contra hbad
    obtain ⟨good, dest, more, rfl, hgood, hdest⟩ := Lines.exists_first hbad
    obtain ⟨plain, c, rest, haddress, hplain, hc⟩ := Lines.exists_first hdest
    have hplain' : ∀ c ∈ plain, isPlain c = true :=
      plain_of_accepted _ (haddress ▸ haccepted dest (by simp)) hplain
    have hgood' : ∀ d ∈ good, ∀ c ∈ d.address, isPlain c = true :=
      fun d hd => plain_of_clean (haccepted d (by simp [hd])) (hgood d hd)
    have hreject := rejects_transferParams more fee hgood'
      (rejects_dest haddress hplain' (UInt8.not_le.mp hc))
    have hnone := hreject.parse_eq []
    rw [List.append_nil, hparse] at hnone
    cases hnone
  · intro hclean
    have hplain : ∀ d ∈ dests, ∀ c ∈ d.address, isPlain c = true :=
      fun d hd => plain_of_clean (haccepted d hd) (hclean d hd)
    exact ⟨_, (reads_transferParams fee hplain).parse_eq, mapM_destination? hamount, rfl⟩

/-- A payment to an address with a space in front. -/
theorem transfer_carries_payment_iff_space :
    CarriesPayment (transferParams [⟨1, 5, ascii " 1"⟩, ⟨2, 7, ascii "2"⟩] 100000000)
      [⟨1, 5, ascii " 1"⟩, ⟨2, 7, ascii "2"⟩] 100000000 :=
  (transfer_carries_payment_iff _ _ (by decide +kernel) (by decide)).mpr (by decide +kernel)

/-- An address with a line break at its end is accepted, and the request of a payout to it and
to another payee is no JSON. -/
theorem transfer_text_malformed :
    (Base58.decodeBase58 (ascii "1\n")).isSome ∧ (Base58.decodeBase58 (ascii "2")).isSome ∧
      ¬ CarriesPayment (transferParams [⟨1, 5, ascii "1\n"⟩, ⟨2, 7, ascii "2"⟩] 100000000)
        [⟨1, 5, ascii "1\n"⟩, ⟨2, 7, ascii "2"⟩] 100000000 := by
  have hnone : (parse (transferParams [⟨1, 5, ascii "1\n"⟩, ⟨2, 7, ascii "2"⟩] 100000000)).isNone :=
    by decide +kernel
  refine ⟨by decide +kernel, by decide +kernel, ?_⟩
  rintro ⟨v, hparse, -⟩
  rw [hparse] at hnone
  cases hnone

end SickPool.Daemon
