import SickPool.Crypto.Base58
import SickPool.Library.Radix

/-!
# Base58 and back

`EncodeBase58` of `crypto/base58.cpp` beside `DecodeBase58`. Both read a number into a buffer in
another radix, and the room they allocate is always enough: the two assertions on the carry
cannot fail.
-/
namespace SickPool.Crypto.Base58

open SickPool.Library SickPool.Library.Bytes SickPool.Library.Radix

/-- `b58 = b58 * 256 + ch`, from the last place of the vector to the first, with the carry that is
left. -/
def mulAdd58 (b58 : Bytes) (ch : Nat) : Bytes × Nat :=
  b58.foldr (fun d acc =>
    (UInt8.ofNat ((acc.2 + 256 * d.toNat) % 58) :: acc.1, (acc.2 + 256 * d.toNat) / 58)) ([], ch)

/-- The loop over the bytes; `none` is a carry that is not 0. -/
def encodeLoop : Bytes → Bytes → Option Bytes
  | [], b58 => some b58
  | c :: rest, b58 =>
    if (mulAdd58 b58 c.toNat).2 = 0 then encodeLoop rest (mulAdd58 b58 c.toNat).1 else none

/-- `pszBase58[d]`. -/
def char (d : Nat) : UInt8 := pszBase58.getD d 0

def encodeBase58 (data : Bytes) : Option Bytes :=
  let zeroes := (data.takeWhile (· = 0)).length
  let rest := data.dropWhile (· = 0)
  (encodeLoop rest (List.replicate (rest.length * 138 / 100 + 1) 0)).map fun b58 =>
    List.replicate zeroes 49 ++ (b58.dropWhile (· = 0)).map fun d => char d.toNat

/-! ## The alphabet -/

theorem digitOf_char {d : Nat} (h : d < 58) : digitOf (char d) = some d := by
  have hall : ∀ d : Fin 58, digitOf (char d) = some d.val := by decide
  exact hall ⟨d, h⟩

theorem isspace_char {d : Nat} (h : d < 58) : isspace (char d) = false := by
  have hall : ∀ d : Fin 58, isspace (char d) = false := by decide
  exact hall ⟨d, h⟩

theorem char_eq_one {d : Nat} (h : d < 58) : char d = 49 ↔ d = 0 := by
  have hall : ∀ d : Fin 58, char d = 49 ↔ d.val = 0 := by decide
  exact hall ⟨d, h⟩

theorem char_ne_nul {d : Nat} (h : d < 58) : char d ≠ 0 := by
  have hall : ∀ d : Fin 58, char d ≠ 0 := by decide
  exact hall ⟨d, h⟩

theorem space_ne_one {c : UInt8} (h : isspace c = true) : c ≠ 49 := by
  rintro rfl
  exact absurd h (by decide)

/-- Characters of the alphabet come from digits. -/
theorem exists_digits {core : Bytes} (h : ∀ c ∈ core, c ∈ pszBase58) :
    ∃ ds : List Nat, (∀ d ∈ ds, d < 58) ∧ core = ds.map char := by
  induction core with
  | nil => exact ⟨[], fun _ h => absurd h List.not_mem_nil, rfl⟩
  | cons c core ih =>
    obtain ⟨ds, hds, rfl⟩ := ih fun c hc => h c (List.mem_cons_of_mem _ hc)
    obtain ⟨d, hd, hc⟩ := List.getElem_of_mem (h c List.mem_cons_self)
    refine ⟨d :: ds, List.forall_mem_cons.mpr ⟨hd, hds⟩, ?_⟩
    rw [List.map_cons, char, List.getD_eq_getElem?_getD, List.getElem?_eq_getElem hd,
      Option.getD_some, hc]

/-! ## The two loops -/

theorem toNat_ofNat_digit {n b : Nat} (hb : b ≤ 256) (hpos : 0 < b) :
    (UInt8.ofNat (n % b)).toNat = n % b := by
  rw [UInt8.toNat_ofNat', Nat.mod_eq_of_lt]
  exact (Nat.mod_lt n hpos).trans_le hb

/-- A byte vector as digits. -/
def places (bs : Bytes) : List Nat := bs.map UInt8.toNat

/-- The step of both loops. -/
def mulAddBytes (b m : Nat) (bs : Bytes) (ch : Nat) : Bytes × Nat :=
  bs.foldr (fun d acc =>
    (UInt8.ofNat ((acc.2 + m * d.toNat) % b) :: acc.1, (acc.2 + m * d.toNat) / b)) ([], ch)

theorem mulAddBytes_places {b : Nat} (hb : b ≤ 256) (hpos : 0 < b) (m : Nat) (bs : Bytes)
    (ch : Nat) : places (mulAddBytes b m bs ch).1 = (Radix.mulAdd b m (places bs) ch).1 ∧
      (mulAddBytes b m bs ch).2 = (Radix.mulAdd b m (places bs) ch).2 := by
  induction bs with
  | nil => exact ⟨rfl, rfl⟩
  | cons d bs ih =>
    obtain ⟨hplaces, hcarry⟩ := ih
    constructor
    · show (UInt8.ofNat (((mulAddBytes b m bs ch).2 + m * d.toNat) % b)).toNat ::
        places (mulAddBytes b m bs ch).1 = ((Radix.mulAdd b m (places bs) ch).2 + m * d.toNat) % b ::
          (Radix.mulAdd b m (places bs) ch).1
      rw [toNat_ofNat_digit hb hpos, hplaces, hcarry]
    · show ((mulAddBytes b m bs ch).2 + m * d.toNat) / b =
        ((Radix.mulAdd b m (places bs) ch).2 + m * d.toNat) / b
      rw [hcarry]

theorem encodeLoop_read (data b58 : Bytes) :
    (encodeLoop data b58).map places = Radix.read 58 256 (places data) (places b58) := by
  induction data generalizing b58 with
  | nil => rfl
  | cons c rest ih =>
    obtain ⟨hplaces, hcarry⟩ := mulAddBytes_places (by decide : 58 ≤ 256) (by decide) 256 b58 c.toNat
    change places (mulAdd58 b58 c.toNat).1 = _ at hplaces
    change (mulAdd58 b58 c.toNat).2 = _ at hcarry
    show _ = Radix.read 58 256 (c.toNat :: places rest) (places b58)
    rw [encodeLoop, Radix.read, ← hcarry, ← hplaces]
    split
    · exact ih _
    · rfl

/-- The characters of the alphabet are read without a carry when there is room for them,
whatever follows. -/
theorem decodeLoop_append {ds : List Nat} (hds : ∀ d ∈ ds, d < 58) {b256 : Bytes} {out : List Nat}
    (h : Radix.read 256 58 ds (places b256) = some out) :
    ∃ bs, places bs = out ∧ ∀ post, decodeLoop (ds.map char ++ post) b256 = decodeLoop post bs := by
  induction ds generalizing b256 with
  | nil => exact ⟨b256, Option.some.inj h, fun _ => rfl⟩
  | cons d ds ih =>
    obtain ⟨hd, hds⟩ := List.forall_mem_cons.mp hds
    obtain ⟨hplaces, hcarry⟩ := mulAddBytes_places (by decide : 256 ≤ 256) (by decide) 58 b256 d
    change places (mulAdd b256 d).1 = _ at hplaces
    change (mulAdd b256 d).2 = _ at hcarry
    rw [Radix.read, ← hcarry, ← hplaces] at h
    split at h
    case isFalse => cases h
    case isTrue hzero =>
      obtain ⟨bs, hbs, hloop⟩ := ih hds h
      refine ⟨bs, hbs, fun post => ?_⟩
      rw [List.map_cons, List.cons_append, decodeLoop, isspace_char hd, digitOf_char hd]
      simp only [Bool.false_eq_true, if_false, if_pos hzero, hloop]

theorem decodeLoop_spaces {post : Bytes} (h : ∀ c ∈ post, isspace c = true) (b256 : Bytes) :
    decodeLoop post b256 = some (post, b256) := by
  cases post with
  | nil => rfl
  | cons c post => rw [decodeLoop, if_pos (h c List.mem_cons_self)]

/-! ## What the two functions compute -/

theorem places_zeros (n : Nat) : places (List.replicate n 0) = List.replicate n 0 :=
  List.map_replicate

theorem places_lt (bs : Bytes) : ∀ d ∈ places bs, d < 256 := by
  intro d hd
  obtain ⟨b, -, rfl⟩ := List.mem_map.mp hd
  exact b.toNat_lt

theorem places_dropWhile (bs : Bytes) :
    places (bs.dropWhile (· = 0)) = (places bs).dropWhile (· = 0) := by
  induction bs with
  | nil => rfl
  | cons b bs ih =>
    by_cases hb : b = 0
    · subst hb
      exact ih
    · have hb' : b.toNat ≠ 0 := fun h => hb (UInt8.toNat_inj.mp h)
      rw [List.dropWhile_cons_of_neg (by simpa using hb)]
      exact (List.dropWhile_cons_of_neg (by simpa using hb')).symm

theorem length_takeWhile_places (bs : Bytes) :
    ((places bs).takeWhile (· = 0)).length = (bs.takeWhile (· = 0)).length := by
  have hsplit := congrArg List.length (List.takeWhile_append_dropWhile (p := (· = 0)) (l := bs))
  have hsplit' := congrArg List.length
    (List.takeWhile_append_dropWhile (p := (· = 0)) (l := places bs))
  rw [← places_dropWhile, List.length_append] at hsplit'
  rw [List.length_append] at hsplit
  simp only [places, List.length_map] at hsplit' ⊢
  omega

theorem map_places {α : Type} (f : Nat → α) (bs : Bytes) :
    (places bs).map f = bs.map fun b => f b.toNat := List.map_map

/-- A byte vector behind its leading zeros. -/
theorem dropWhile_zero {out : Bytes} {b n : Nat} (h : (places out).dropWhile (· = 0) = digits b n) :
    places (out.dropWhile (· = 0)) = digits b n := (places_dropWhile out).trans h

/-- `EncodeBase58` changes the radix, and its assertion holds. -/
theorem encodeBase58_eq (data : Bytes) :
    encodeBase58 data = some ((rebase 58 256 (places data)).map char) := by
  have hroom := pow_le_pow_div (b := 58) (m := 256) (by decide) (q := 138) (r := 100) (by decide)
    (by decide) (data.dropWhile (· = 0)).length
  have hlen : (places (data.dropWhile (· = 0))).length = (data.dropWhile (· = 0)).length :=
    List.length_map _
  rw [← hlen] at hroom
  obtain ⟨out, hread, -, hdigits⟩ := read_zeros (by decide) (by decide)
    (places_lt (data.dropWhile (· = 0))) hroom
  rw [hlen, ← places_zeros, ← encodeLoop_read] at hread
  obtain ⟨b58, hloop, rfl⟩ := Option.map_eq_some_iff.mp hread
  have hvalue : value 256 (places (data.dropWhile (· = 0))) = value 256 (places data) := by
    rw [places_dropWhile, dropWhile_zeros_eq_digits (by decide) (places_lt data), value_digits]
  rw [hvalue] at hdigits
  rw [encodeBase58]
  simp only [hloop, Option.map_some]
  rw [rebase, List.map_append, List.map_replicate, length_takeWhile_places,
    ← dropWhile_zero hdigits, map_places]
  rfl

theorem ones_append {ds : List Nat} (hds : ∀ d ∈ ds, d < 58) {post : Bytes}
    (hpost : ∀ c ∈ post, isspace c = true) :
    ((ds.map char ++ post).takeWhile (· = 49)).length = (ds.takeWhile (· = 0)).length ∧
      (ds.map char ++ post).dropWhile (· = 49) = (ds.dropWhile (· = 0)).map char ++ post := by
  induction ds with
  | nil =>
    cases post with
    | nil => exact ⟨rfl, rfl⟩
    | cons c post =>
      have hc : ¬decide (c = 49) = true := by
        simpa using space_ne_one (hpost c List.mem_cons_self)
      exact ⟨congrArg List.length (List.takeWhile_cons_of_neg (p := fun c : UInt8 => decide (c = 49)) hc),
        List.dropWhile_cons_of_neg hc⟩
  | cons d ds ih =>
    obtain ⟨hd, hds⟩ := List.forall_mem_cons.mp hds
    obtain ⟨htake, hdrop⟩ := ih hds
    by_cases hzero : d = 0
    · subst hzero
      exact ⟨congrArg Nat.succ htake, hdrop⟩
    · have hc : ¬decide (char d = 49) = true := by simpa [char_eq_one hd] using hzero
      have hd0 : ¬decide (d = 0) = true := by simpa using hzero
      rw [List.map_cons, List.cons_append, List.takeWhile_cons_of_neg (p := fun c : UInt8 => decide (c = 49)) hc,
        List.takeWhile_cons_of_neg (p := fun d : Nat => decide (d = 0)) hd0,
        List.dropWhile_cons_of_neg (p := fun c : UInt8 => decide (c = 49)) hc,
        List.dropWhile_cons_of_neg (p := fun d : Nat => decide (d = 0)) hd0]
      exact ⟨rfl, rfl⟩

/-- The leading white space is skipped, up to the first character of the alphabet. -/
theorem dropWhile_spaces {ds : List Nat} (hds : ∀ d ∈ ds, d < 58) {post : Bytes}
    (hpost : ∀ c ∈ post, isspace c = true) :
    ∃ post', (∀ c ∈ post', isspace c = true) ∧
      (ds.map char ++ post).dropWhile isspace = ds.map char ++ post' := by
  cases ds with
  | nil =>
    refine ⟨[], fun c hc => absurd hc List.not_mem_nil, ?_⟩
    exact List.dropWhile_eq_nil_iff.mpr hpost
  | cons d ds =>
    refine ⟨post, hpost, List.dropWhile_cons_of_neg ?_⟩
    rw [isspace_char (hds d List.mem_cons_self)]
    exact Bool.false_ne_true

/-- `DecodeBase58` changes the radix of what stands between white space. -/
theorem decodeCString_eq (pre post : Bytes) (ds : List Nat) (hpre : ∀ c ∈ pre, isspace c = true)
    (hds : ∀ d ∈ ds, d < 58) (hpost : ∀ c ∈ post, isspace c = true) :
    decodeCString (pre ++ (ds.map char ++ post)) = some ((rebase 256 58 ds).map UInt8.ofNat) := by
  obtain ⟨post', hpost', hskip⟩ := dropWhile_spaces hds hpost
  obtain ⟨htake, hdrop⟩ := ones_append hds hpost'
  have hds' : ∀ d ∈ ds.dropWhile (· = 0), d < 58 := fun d hd => hds d (List.dropWhile_subset _ hd)
  have hroom : 58 ^ (ds.dropWhile (· = 0)).length ≤
      256 ^ (((ds.dropWhile (· = 0)).map char ++ post').length * 733 / 1000 + 1) := by
    refine (Nat.pow_le_pow_right (by decide) ?_).trans
      (pow_le_pow_div (by decide) (by decide) (by decide +kernel) _)
    rw [List.length_append, List.length_map]
    exact Nat.le_add_right _ _
  obtain ⟨out, hread, hlt, hdigits⟩ := read_zeros (by decide) (by decide) hds' hroom
  rw [← places_zeros] at hread
  obtain ⟨bs, rfl, hloop⟩ := decodeLoop_append hds' hread
  have hvalue : value 58 (ds.dropWhile (· = 0)) = value 58 ds := by
    rw [dropWhile_zeros_eq_digits (by decide) hds, value_digits]
  rw [hvalue] at hdigits
  have hend : post'.dropWhile isspace = [] := List.dropWhile_eq_nil_iff.mpr hpost'
  rw [decodeCString, List.dropWhile_append_of_pos hpre, hskip]
  simp only [htake, hdrop, hloop, decodeLoop_spaces hpost', hend, if_true]
  rw [rebase, List.map_append, List.map_replicate, ← dropWhile_zero hdigits, map_places]
  simp only [UInt8.ofNat_toNat, List.map_id_fun', id_eq]
  rfl

/-! ## Round trips -/

theorem places_map_ofNat {ds : List Nat} (h : ∀ d ∈ ds, d < 256) :
    places (ds.map UInt8.ofNat) = ds := by
  rw [places, List.map_map]
  refine (List.map_congr_left fun d hd => ?_).trans (List.map_id ds)
  rw [Function.comp_apply, UInt8.toNat_ofNat', Nat.mod_eq_of_lt (h d hd), id]

theorem map_ofNat_places (bs : Bytes) : (places bs).map UInt8.ofNat = bs := by
  rw [map_places]
  exact (List.map_congr_left fun b _ => UInt8.ofNat_toNat).trans (List.map_id bs)

/-- The white space, the characters of the alphabet and the white space of a string that is
accepted. -/
theorem decodeCString_form {psz out : Bytes} (h : decodeCString psz = some out) :
    ∃ pre core post, psz = pre ++ (core ++ post) ∧ (∀ c ∈ pre, isspace c = true) ∧
      (∀ c ∈ core, c ∈ pszBase58) ∧ ∀ c ∈ post, isspace c = true := by
  rw [decodeCString] at h
  split at h
  case h_1 => cases h
  case h_2 rest b256 hloop =>
    split at h
    case isFalse => cases h
    case isTrue htail =>
      obtain ⟨read, hs, hread⟩ := decodeLoop_chars hloop
      refine ⟨psz.takeWhile isspace, (psz.dropWhile isspace).takeWhile (· = 49) ++ read, rest, ?_,
        fun c hc => List.mem_takeWhile_imp hc, ?_, List.dropWhile_eq_nil_iff.mp htail⟩
      · rw [List.append_assoc, ← hs, List.takeWhile_append_dropWhile,
          List.takeWhile_append_dropWhile]
      · intro c hc
        rcases List.mem_append.mp hc with hone | hmem
        · have h49 : c = 49 := by simpa using List.mem_takeWhile_imp hone
          exact h49 ▸ (by decide)
        · exact hread c hmem

theorem encodeBase58_eq_some_iff {bs core : Bytes} :
    encodeBase58 bs = some core ↔ core = (rebase 58 256 (places bs)).map char := by
  rw [encodeBase58_eq, Option.some_inj, eq_comm]

/-- `DecodeBase58` accepts exactly the strings that are an encoding between white space, and gives
what was encoded. -/
theorem decodeBase58_eq_some_iff (str bs : Bytes) :
    decodeBase58 str = some bs ↔
      ∃ pre core post, cString str = pre ++ (core ++ post) ∧ (∀ c ∈ pre, isspace c = true) ∧
        encodeBase58 bs = some core ∧ ∀ c ∈ post, isspace c = true := by
  constructor
  · intro h
    obtain ⟨pre, core, post, hstr, hpre, hcore, hpost⟩ := decodeCString_form h
    obtain ⟨ds, hds, rfl⟩ := exists_digits hcore
    rw [decodeBase58, hstr, decodeCString_eq pre post ds hpre hds hpost] at h
    obtain rfl := Option.some.inj h
    refine ⟨pre, ds.map char, post, hstr, hpre, encodeBase58_eq_some_iff.mpr ?_, hpost⟩
    rw [places_map_ofNat fun d hd => rebase_lt (by decide) hd, rebase_rebase (by decide) hds]
  · rintro ⟨pre, core, post, hstr, hpre, hcore, hpost⟩
    rw [decodeBase58, hstr, encodeBase58_eq_some_iff.mp hcore,
      decodeCString_eq pre post _ hpre (fun d hd => rebase_lt (by decide) hd) hpost,
      rebase_rebase (by decide) (places_lt bs), map_ofNat_places]

/-- What `EncodeBase58` gives is decoded to the same bytes. -/
theorem decodeBase58_encodeBase58 (bs : Bytes) :
    ∃ str, encodeBase58 bs = some str ∧ decodeBase58 str = some bs := by
  refine ⟨_, encodeBase58_eq bs, ?_⟩
  have hnul : cString ((rebase 58 256 (places bs)).map char) =
      (rebase 58 256 (places bs)).map char := by
    refine List.takeWhile_eq_self_iff.mpr fun c hc => ?_
    obtain ⟨d, hd, rfl⟩ := List.mem_map.mp hc
    simpa using char_ne_nul (rebase_lt (by decide) hd)
  have hdecode := decodeCString_eq [] [] (rebase 58 256 (places bs)) (by simp)
    (fun d hd => rebase_lt (by decide) hd) (by simp)
  rw [List.nil_append, List.append_nil, rebase_rebase (by decide) (places_lt bs),
    map_ofNat_places] at hdecode
  rw [decodeBase58, hnul, hdecode]

end SickPool.Crypto.Base58
