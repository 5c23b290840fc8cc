import SickPool.Utils.HexUtils

/-!
# Reversed hex strings

`ReverseHex` swaps pairs of digits from both ends of a string, into another buffer or in place,
and the conversions between strings and bytes undo one another.
-/
namespace SickPool.Utils

open SickPool.Library SickPool.Library.Bytes

/-! ## The functions -/

/-- The assignments to `dest` in the body of the loop of `ReverseHex`. -/
def swapWrites (size i : Nat) (input : Bytes) : List (Nat × UInt8) :=
  let left := input.getD i 0
  let left1 := input.getD (i + 1) 0
  let right := input.getD (size - (i + 1)) 0
  let right1 := input.getD (size - (i + 2)) 0
  [(i + 1, right), (i, right1), (size - (i + 2), left), (size - (i + 1), left1)]

/-- The body of the loop: the four digits are read before any is written. -/
def swapDigits (size i : Nat) (input dest : Bytes) : Bytes :=
  (swapWrites size i input).foldl (fun dest w => dest.set w.1 w.2) dest

/-- The loop with `i` = 0, 2, .. below `size / 2` as far as the `count`-th turn. In place, `input`
is the buffer that is written. -/
def reverseHexLoop (inPlace : Bool) (dest input : Bytes) (size count : Nat) : Bytes :=
  (List.range count).foldl
    (fun dest j => swapDigits size (2 * j) (if inPlace then dest else input) dest) dest

/-- `ReverseHex`. -/
def reverseHex (inPlace : Bool) (dest input : Bytes) (size : Nat) : Bytes :=
  reverseHexLoop inPlace dest input size ((size / 2 + 1) / 2)

/-- `ReverseHexArr`, with the size of the array. -/
def reverseHexArr (w : Nat) (src : Bytes) : Bytes :=
  reverseHex false (List.replicate w 0) src src.length

def unhexlifyRev (src : Bytes) : Bytes := (unhexlify src).reverse

def toLower (c : UInt8) : UInt8 := if 65 ≤ c ∧ c ≤ 90 then c + 32 else c

/-- The pairs of digits of a string in reverse order. -/
def reversePairs : Bytes → Bytes
  | c1 :: c2 :: rest => reversePairs rest ++ [c1, c2]
  | _ => []

/-! ## Digits and bytes -/

theorem hexDigit_getHex {c : UInt8} (h : isHexDigit c = true) :
    hexDigit (getHex c).toNat = toLower c :=
  forall_byte (p := fun c => isHexDigit c = true → hexDigit (getHex c).toNat = toLower c)
    (by decide +kernel) c h

theorem even_of_pair {c1 c2 : UInt8} {rest : Bytes} (h : (c1 :: c2 :: rest).length % 2 = 0) :
    rest.length % 2 = 0 := by
  rw [List.length_cons, List.length_cons] at h
  omega

theorem hexlify_unhexlify : ∀ s : Bytes, (∀ c ∈ s, isHexDigit c = true) → s.length % 2 = 0 →
    hexlify (unhexlify s) = s.map toLower
  | [], _, _ => rfl
  | [_], _, heven => absurd heven (by simp)
  | c1 :: c2 :: rest, hdigits, heven => by
    have hrest := hexlify_unhexlify rest (fun c hc => hdigits c (by simp [hc])) (even_of_pair heven)
    have hpair := hexPair_toNat c1 c2
    have hlow := getHex_lt c2
    have hhigh : (getHex c2 + getHex c1 * 16).toNat / 16 = (getHex c1).toNat := by omega
    have hmod : (getHex c2 + getHex c1 * 16).toNat % 16 = (getHex c2).toNat := by omega
    rw [unhexlify, hexlify_cons, hrest, hhigh, hmod, hexDigit_getHex (hdigits c1 (by simp)),
      hexDigit_getHex (hdigits c2 (by simp))]
    rfl

/-! ## Reversed pairs -/

theorem reversePairs_length : ∀ s : Bytes, s.length % 2 = 0 →
    (reversePairs s).length = s.length
  | [], _ => rfl
  | [_], heven => absurd heven (by simp)
  | c1 :: c2 :: rest, heven => by
    rw [reversePairs, List.length_append, reversePairs_length rest (even_of_pair heven)]
    rfl

theorem unhexlify_reversePairs : ∀ s : Bytes, s.length % 2 = 0 →
    unhexlify (reversePairs s) = (unhexlify s).reverse
  | [], _ => rfl
  | [_], heven => absurd heven (by simp)
  | c1 :: c2 :: rest, heven => by
    have hrest := even_of_pair heven
    have hlen := reversePairs_length rest hrest
    have hcons : unhexlify (c1 :: c2 :: rest) = (getHex c2 + getHex c1 * 16) :: unhexlify rest := rfl
    rw [reversePairs, unhexlify_append (by rw [hlen]; exact hrest),
      unhexlify_reversePairs rest hrest, hcons, List.reverse_cons]
    rfl

theorem reversePairs_append : ∀ s : Bytes, s.length % 2 = 0 → ∀ c1 c2 : UInt8,
    reversePairs (s ++ [c1, c2]) = c1 :: c2 :: reversePairs s
  | [], _, _, _ => rfl
  | [_], heven, _, _ => absurd heven (by simp)
  | d1 :: d2 :: rest, heven, c1, c2 => by
    rw [List.cons_append, List.cons_append, reversePairs,
      reversePairs_append rest (even_of_pair heven)]
    rfl

theorem reversePairs_reversePairs : ∀ s : Bytes, s.length % 2 = 0 →
    reversePairs (reversePairs s) = s
  | [], _ => rfl
  | [_], heven => absurd heven (by simp)
  | c1 :: c2 :: rest, heven => by
    have hrest := even_of_pair heven
    have hlen := reversePairs_length rest hrest
    rw [reversePairs, reversePairs_append _ (by rw [hlen]; exact hrest),
      reversePairs_reversePairs rest hrest]

/-- Where the digit at `p` comes from. -/
def mirror (size p : Nat) : Nat := size + 2 * (p % 2) - 2 - p

theorem getElem?_reversePairs : ∀ s : Bytes, s.length % 2 = 0 → ∀ p, p < s.length →
    (reversePairs s)[p]? = s[mirror s.length p]?
  | [], _, p, hp => absurd hp (Nat.not_lt_zero p)
  | [_], heven, _, _ => absurd heven (by simp)
  | c1 :: c2 :: rest, heven, p, hp => by
    have hrest := even_of_pair heven
    have hlen := reversePairs_length rest hrest
    rw [List.length_cons, List.length_cons] at hp heven
    rw [reversePairs, List.length_cons, List.length_cons]
    by_cases hinner : p < rest.length
    · have hmirror : mirror (rest.length + 1 + 1) p = mirror rest.length p + 2 := by
        unfold mirror
        omega
      rw [List.getElem?_append_left (by rw [hlen]; exact hinner),
        getElem?_reversePairs rest hrest p hinner, hmirror]
      rfl
    · rw [List.getElem?_append_right (by omega), hlen]
      by_cases hfirst : p = rest.length
      · have hmirror : mirror (rest.length + 1 + 1) p = 0 := by
          unfold mirror
          omega
        rw [hmirror, hfirst, Nat.sub_self]
        rfl
      · have hmirror : mirror (rest.length + 1 + 1) p = 1 := by
          unfold mirror
          omega
        have hone : p - rest.length = 1 := by omega
        rw [hmirror, hone]
        rfl

/-! ## The loop -/

theorem swapDigits_length (size i : Nat) (input dest : Bytes) :
    (swapDigits size i input dest).length = dest.length := by
  simp [swapDigits, swapWrites]

/-- The four positions of a turn are mirrored into one another. -/
theorem mirror_turn {size i : Nat} (heven : size % 2 = 0) (hi : i % 2 = 0)
    (hle : 2 * i + 2 ≤ size) :
    mirror size i = size - (i + 2) ∧ mirror size (i + 1) = size - (i + 1) ∧
      mirror size (size - (i + 2)) = i ∧ mirror size (size - (i + 1)) = i + 1 := by
  unfold mirror
  have hodd : (i + 1) % 2 = 1 := by omega
  have heven' : (size - (i + 2)) % 2 = 0 := by omega
  have hodd' : (size - (i + 1)) % 2 = 1 := by omega
  rw [hi, hodd, heven', hodd']
  omega

/-- The four digits of a turn come from the mirrored positions, the others stay. -/
theorem getElem?_swapDigits {size i : Nat} {input dest : Bytes} (hinput : input.length = size)
    (hdest : dest.length = size) (heven : size % 2 = 0) (hi : i % 2 = 0)
    (hle : 2 * i + 2 ≤ size) (p : Nat) :
    (swapDigits size i input dest)[p]? =
      if p = i ∨ p = i + 1 ∨ p = size - (i + 2) ∨ p = size - (i + 1) then
        input[mirror size p]?
      else dest[p]? := by
  have hread : ∀ k, k < size → some (input.getD k 0) = input[k]? := by
    intro k hk
    rw [List.getD_eq_getElem?_getD, List.getElem?_eq_getElem (by omega)]
    rfl
  obtain ⟨hfirst, hsecond, hthird, hfourth⟩ := mirror_turn heven hi hle
  clear heven hi
  simp only [swapDigits, swapWrites, List.foldl_cons, List.foldl_nil, List.getElem?_set,
    List.length_set, hdest]
  -- the later writes first
  by_cases h1 : size - (i + 1) = p
  · subst h1
    rw [if_pos rfl, if_pos (by omega), if_pos (by simp), hfourth, hread _ (by omega)]
  rw [if_neg h1]
  by_cases h2 : size - (i + 2) = p
  · subst h2
    rw [if_pos rfl, if_pos (by omega), if_pos (by simp), hthird, hread _ (by omega)]
  rw [if_neg h2]
  by_cases h3 : i = p
  · subst h3
    rw [if_pos rfl, if_pos (by omega), if_pos (by simp), hfirst, hread _ (by omega)]
  rw [if_neg h3]
  by_cases h4 : i + 1 = p
  · subst h4
    rw [if_pos rfl, if_pos (by omega), if_pos (by simp), hsecond, hread _ (by omega)]
  rw [if_neg h4, if_neg (by omega)]

theorem reverseHexLoop_succ (inPlace : Bool) (dest input : Bytes) (size t : Nat) :
    reverseHexLoop inPlace dest input size (t + 1) =
      let now := reverseHexLoop inPlace dest input size t
      swapDigits size (2 * t) (if inPlace then now else input) now := by
  rw [reverseHexLoop, List.range_succ, List.foldl_append]
  rfl

/-- After `t` turns the first and the last `2 * t` digits are the mirrored ones, and the others
are those the buffer held. -/
structure HalfReversed (input dest : Bytes) (t : Nat) (now : Bytes) : Prop where
  length : now.length = input.length
  digit : ∀ p, p < input.length → now[p]? =
    if p < 2 * t ∨ input.length - 2 * t ≤ p then input[mirror input.length p]? else dest[p]?

section Turns

variable {inPlace : Bool} {input dest now : Bytes} {t : Nat}

/-- In place the digits between the two ends are still those of the input. -/
theorem HalfReversed.read (h : HalfReversed input dest t now)
    (hsame : inPlace = true → dest = input) {k : Nat} (hlow : 2 * t ≤ k)
    (hhigh : k < input.length - 2 * t) :
    (if inPlace then now else input)[k]? = input[k]? := by
  cases inPlace with
  | false => rfl
  | true =>
    show now[k]? = input[k]?
    rw [h.digit k (by omega), if_neg (by omega), hsame rfl]

theorem HalfReversed.turn (h : HalfReversed input dest t now)
    (hsame : inPlace = true → dest = input) (heven : input.length % 2 = 0)
    (hle : 2 * (2 * t) + 2 ≤ input.length) :
    HalfReversed input dest (t + 1)
      (swapDigits input.length (2 * t) (if inPlace then now else input) now) where
  length := by rw [swapDigits_length, h.length]
  digit := by
    intro p hp
    have hsource : (if inPlace then now else input).length = input.length := by
      cases inPlace with
      | false => rfl
      | true => exact h.length
    obtain ⟨hfirst, hsecond, hthird, hfourth⟩ := mirror_turn heven (Nat.mul_mod_right 2 t) hle
    rw [getElem?_swapDigits hsource h.length heven (Nat.mul_mod_right 2 t) hle]
    by_cases hturn : p = 2 * t ∨ p = 2 * t + 1 ∨ p = input.length - (2 * t + 2) ∨
        p = input.length - (2 * t + 1)
    · -- the digits of this turn, read where no turn has written
      have hdone : p < 2 * (t + 1) ∨ input.length - 2 * (t + 1) ≤ p := by omega
      have hunread : 2 * t ≤ mirror input.length p ∧
          mirror input.length p < input.length - 2 * t := by
        rcases hturn with rfl | rfl | rfl | rfl
        · omega
        · omega
        · omega
        · omega
      rw [if_pos hturn, if_pos hdone]
      exact h.read hsame hunread.1 hunread.2
    · rw [if_neg hturn, h.digit p hp]
      by_cases hdone : p < 2 * t ∨ input.length - 2 * t ≤ p
      · rw [if_pos hdone, if_pos (by omega)]
      · rw [if_neg hdone, if_neg (by omega)]

theorem halfReversed_loop (hlen : dest.length = input.length)
    (hsame : inPlace = true → dest = input) (heven : input.length % 2 = 0)
    (ht : t ≤ (input.length / 2 + 1) / 2) :
    HalfReversed input dest t (reverseHexLoop inPlace dest input input.length t) := by
  induction t with
  | zero =>
    refine ⟨hlen, fun p hp => ?_⟩
    rw [if_neg (by omega)]
    rfl
  | succ t ih =>
    rw [reverseHexLoop_succ]
    exact (ih (by omega)).turn hsame heven (by omega)

end Turns

/-- Every position is assigned in one of the turns, whatever the buffers hold. -/
theorem exists_swapWrites {size p : Nat} (heven : size % 2 = 0) (hp : p < size) :
    ∃ j < (size / 2 + 1) / 2, ∀ input, p ∈ (swapWrites size (2 * j) input).map Prod.fst := by
  by_cases hfirst : p < size / 2
  · refine ⟨p / 2, by omega, fun input => ?_⟩
    simp only [swapWrites, List.map_cons, List.map_nil, List.mem_cons, List.not_mem_nil, or_false]
    omega
  · refine ⟨(size - 1 - p) / 2, by omega, fun input => ?_⟩
    simp only [swapWrites, List.map_cons, List.map_nil, List.mem_cons, List.not_mem_nil, or_false]
    omega

theorem reverseHex_eq_reversePairs {inPlace : Bool} {dest s : Bytes}
    (hlen : dest.length = s.length) (hsame : inPlace = true → dest = s)
    (heven : s.length % 2 = 0) : reverseHex inPlace dest s s.length = reversePairs s := by
  have hloop := halfReversed_loop hlen hsame heven (Nat.le_refl _)
  apply List.ext_getElem?
  intro p
  by_cases hp : p < s.length
  · rw [getElem?_reversePairs s heven p hp, reverseHex, hloop.digit p hp, if_pos (by omega)]
  · rw [List.getElem?_eq_none (by rw [reverseHex, hloop.length]; omega),
      List.getElem?_eq_none (by rw [reversePairs_length s heven]; omega)]

/-- Strings and bytes convert into one another, and `ReverseHex` of a string of digits, into any
buffer of its size or in place, is the string of the reversed bytes and undoes itself. -/
theorem hex_codec :
    (∀ b : Bytes, unhexlify (hexlify b) = b) ∧
    ∀ s : Bytes, (∀ c ∈ s, isHexDigit c = true) → s.length % 2 = 0 →
      hexlify (unhexlify s) = s.map toLower ∧
      (∀ p < s.length, ∃ j < (s.length / 2 + 1) / 2, ∀ input,
        p ∈ (swapWrites s.length (2 * j) input).map Prod.fst) ∧
      ∀ (inPlace : Bool) (dest : Bytes), dest.length = s.length →
        (inPlace = true → dest = s) →
        let r := reverseHex inPlace dest s s.length
        r = reverseHexArr s.length s ∧
        unhexlify r = (unhexlify s).reverse ∧
        unhexlify r = unhexlifyRev s ∧
        reverseHex false dest r r.length = s ∧
        reverseHex true r r r.length = s := by
  refine ⟨unhexlify_hexlify, fun s hdigits heven => ⟨hexlify_unhexlify s hdigits heven,
    fun p hp => exists_swapWrites heven hp, fun inPlace dest hlen hsame => ?_⟩⟩
  have hpairs : (reversePairs s).length = s.length := reversePairs_length s heven
  have hpairsEven : (reversePairs s).length % 2 = 0 := by rw [hpairs, heven]
  show let r := reverseHex inPlace dest s s.length; _
  rw [reverseHex_eq_reversePairs hlen hsame heven]
  refine ⟨?_, unhexlify_reversePairs s heven, unhexlify_reversePairs s heven, ?_, ?_⟩
  · exact (reverseHex_eq_reversePairs (List.length_replicate ..) (by simp) heven).symm
  · rw [reverseHex_eq_reversePairs (hlen.trans hpairs.symm) (by simp) hpairsEven,
      reversePairs_reversePairs s heven]
  · rw [reverseHex_eq_reversePairs rfl (fun _ => rfl) hpairsEven,
      reversePairs_reversePairs s heven]

/-- Three bytes, reversed in place around the middle one. -/
theorem hex_codec_in_place :
    reverseHex true (ascii "0aFf1b") (ascii "0aFf1b") 6 = ascii "1bFf0a" ∧
    unhexlify (reverseHex true (ascii "0aFf1b") (ascii "0aFf1b") 6) = [27, 255, 10] :=
  ⟨by decide +kernel, (hex_codec.2 (ascii "0aFf1b") (by decide +kernel) (by decide +kernel)).2.2
    true (ascii "0aFf1b") rfl (fun _ => rfl) |>.2.1.trans (by decide +kernel)⟩

end SickPool.Utils
