import Mathlib.NumberTheory.Bertrand

/-!
# Primes

`ethash/primes.c`, and the two item counts that `ethash/ethash.cpp` takes from it. The
numbers of the source are of type `int`; `itemsUpperBound_fits` says for which epochs the
bounds are. Squares are compared in 64 bits there.
-/
namespace SickPool.Ethash

theorem isOddPrimeFrom_decreases {number d : Nat} (h : d * d ≤ number) :
    number + 1 - (d + 2) < number + 1 - d := by
  have := Nat.le_mul_self d
  omega

/-- The loop of `is_odd_prime` from divisor `d` on. -/
def isOddPrimeFrom (number d : Nat) : Bool :=
  if d * d ≤ number then
    if number % d = 0 then false else isOddPrimeFrom number (d + 2)
  else true
termination_by number + 1 - d
decreasing_by exact isOddPrimeFrom_decreases ‹_›

def isOddPrime (number : Nat) : Bool := isOddPrimeFrom number 3

/-- `while (!is_odd_prime(n)) n -= 2`, on a number that is odd and at least 3. Below 3 the
loop has ended, since 3 passes the test. -/
def descend : Nat → Nat
  | 0 => 0
  | 1 => 1
  | n + 2 => if isOddPrime (n + 2) then n + 2 else descend n

def findLargestPrime (upperBound : Int) : Int :=
  if upperBound < 2 then 0
  else if upperBound = 2 then 2
  else if upperBound % 2 = 0 then descend (upperBound - 1).toNat
  else descend upperBound.toNat

theorem isOddPrimeFrom_stop {number d : Nat} (h : ¬d * d ≤ number) :
    isOddPrimeFrom number d = true := by
  rw [isOddPrimeFrom, if_neg h]

theorem isOddPrimeFrom_divides {number d : Nat} (h : d * d ≤ number) (hd : number % d = 0) :
    isOddPrimeFrom number d = false := by
  rw [isOddPrimeFrom, if_pos h, if_pos hd]

theorem isOddPrimeFrom_next {number d : Nat} (h : d * d ≤ number) (hd : ¬number % d = 0) :
    isOddPrimeFrom number d = isOddPrimeFrom number (d + 2) := by
  rw [isOddPrimeFrom, if_pos h, if_neg hd]

/-- No proper odd divisor of `number` is below `d`. -/
def NoOddFactorBelow (number d : Nat) : Prop :=
  ∀ p, p.Prime → p ∣ number → d ≤ p

theorem NoOddFactorBelow.next {number d : Nat} (h : NoOddFactorBelow number d)
    (hodd : number % 2 = 1) (hd : d % 2 = 1) (hnot : ¬number % d = 0) :
    NoOddFactorBelow number (d + 2) := by
  intro p hp hdvd
  have hle := h p hp hdvd
  have hne : p ≠ d := by
    intro he
    exact hnot (Nat.mod_eq_zero_of_dvd (he ▸ hdvd))
  have hpodd : p % 2 = 1 := by
    rcases hp.eq_two_or_odd with rfl | hpo
    · omega
    · exact hpo
  omega

/-- From an odd divisor on, with no smaller factor left, the loop decides primality. -/
theorem isOddPrimeFrom_iff {number d : Nat} (hodd : number % 2 = 1) (h2 : 2 ≤ number)
    (hd : d % 2 = 1) (h3 : 3 ≤ d) (hfac : NoOddFactorBelow number d) :
    isOddPrimeFrom number d = true ↔ number.Prime := by
  induction hk : number + 1 - d using Nat.strong_induction_on generalizing d with
  | _ k ih =>
    by_cases hsq : d * d ≤ number
    · by_cases hdiv : number % d = 0
      · rw [isOddPrimeFrom_divides hsq hdiv]
        have hlt : d < number := by nlinarith
        have hnp : ¬number.Prime := by
          intro hp
          rcases hp.eq_one_or_self_of_dvd d (Nat.dvd_of_mod_eq_zero hdiv) with h | h <;> omega
        simp [hnp]
      · rw [isOddPrimeFrom_next hsq hdiv]
        exact ih _ (hk ▸ isOddPrimeFrom_decreases hsq) (by omega) (by omega)
          (hfac.next hodd hd hdiv) rfl
    · rw [isOddPrimeFrom_stop hsq]
      refine iff_of_true rfl ?_
      by_contra hnp
      have hmin := hfac _ (Nat.minFac_prime (by omega)) (Nat.minFac_dvd number)
      have hle := Nat.minFac_sq_le_self (by omega) hnp
      nlinarith

theorem isOddPrime_iff {number : Nat} (hodd : number % 2 = 1) (h2 : 2 ≤ number) :
    isOddPrime number = true ↔ number.Prime := by
  refine isOddPrimeFrom_iff hodd h2 (by decide) le_rfl ?_
  intro p hp hdvd
  rcases hp.eq_two_or_odd with rfl | hpo
  · omega
  · have := hp.two_le
    omega

/-- The search from an odd number of at least 3 ends at the greatest prime up to it. -/
theorem descend_spec {n : Nat} (hodd : n % 2 = 1) (h3 : 3 ≤ n) :
    (descend n).Prime ∧ descend n ≤ n ∧ ∀ p, p.Prime → p ≤ n → p ≤ descend n := by
  induction n using Nat.strong_induction_on with
  | _ n ih =>
    obtain ⟨m, rfl⟩ : ∃ m, n = m + 2 := ⟨n - 2, by omega⟩
    rw [descend]
    by_cases hp : isOddPrime (m + 2) = true
    · rw [if_pos hp]
      exact ⟨(isOddPrime_iff hodd (by omega)).mp hp, le_rfl, fun p _ h => h⟩
    · rw [if_neg hp]
      have hnp : ¬(m + 2).Prime := fun h => hp ((isOddPrime_iff hodd (by omega)).mpr h)
      have hm3 : 3 ≤ m := by
        by_contra hlt
        obtain rfl : m = 1 := by omega
        exact hnp Nat.prime_three
      obtain ⟨hprime, hle, hmax⟩ := ih m (by omega) (by omega) hm3
      refine ⟨hprime, by omega, fun p hpp hpn => ?_⟩
      have hne : p ≠ m + 2 := fun h => hnp (h ▸ hpp)
      have hne1 : p ≠ m + 1 := by
        intro h
        rcases hpp.eq_two_or_odd with h2 | h2 <;> omega
      exact hmax p hpp (by omega)

/-- The number the source returns for a bound of at least 2: the greatest prime up to it. -/
theorem findLargestPrime_spec {n : Nat} (h2 : 2 ≤ n) :
    ∃ p : Nat, findLargestPrime n = p ∧ p.Prime ∧ p ≤ n ∧ ∀ q, q.Prime → q ≤ n → q ≤ p := by
  unfold findLargestPrime
  rw [if_neg (by omega)]
  by_cases he : (n : Int) = 2
  · rw [if_pos he]
    obtain rfl : n = 2 := by omega
    exact ⟨2, rfl, Nat.prime_two, le_rfl, fun q _ h => h⟩
  rw [if_neg he]
  by_cases hev : (n : Int) % 2 = 0
  · rw [if_pos hev]
    have htoNat : ((n : Int) - 1).toNat = n - 1 := by omega
    obtain ⟨hp, hle, hmax⟩ := descend_spec (n := n - 1) (by omega) (by omega)
    refine ⟨descend (n - 1), by rw [htoNat], hp, by omega, fun q hq hqn => ?_⟩
    have hne : q ≠ n := by
      intro h
      rcases hq.eq_two_or_odd with h2 | h2 <;> omega
    exact hmax q hq (by omega)
  · rw [if_neg hev, Int.toNat_natCast]
    obtain ⟨hp, hle, hmax⟩ := descend_spec (n := n) (by omega) (by omega)
    exact ⟨descend n, rfl, hp, hle, hmax⟩

/-- `ethash_find_largest_prime`, for every bound: the greatest prime up to it, and 0 if the
bound is below every prime. -/
theorem findLargestPrime_isGreatest (upperBound : Int) :
    if upperBound ≤ 1 then findLargestPrime upperBound = 0
    else ∃ p : Nat, findLargestPrime upperBound = p ∧
      IsGreatest { q : Nat | q.Prime ∧ (q : Int) ≤ upperBound } p := by
  by_cases h : upperBound ≤ 1
  · rw [if_pos h, findLargestPrime, if_pos (by omega)]
  · rw [if_neg h]
    obtain ⟨n, rfl⟩ : ∃ n : Nat, upperBound = n := ⟨upperBound.toNat, by omega⟩
    obtain ⟨p, hp, hprime, hle, hmax⟩ := findLargestPrime_spec (n := n) (by omega)
    refine ⟨p, hp, ⟨hprime, by exact_mod_cast hle⟩, ?_⟩
    intro q hq
    exact hmax q hq.1 (by exact_mod_cast hq.2)

/-- `num_items_upper_bound`: the items of the first epoch, and the growth with each epoch. -/
def itemsUpperBound (init growth itemSize : Nat) (epochNumber : Nat) : Nat :=
  init / itemSize + epochNumber * (growth / itemSize)

def lightCacheUpperBound (epochNumber : Nat) : Nat :=
  itemsUpperBound (2 ^ 24) (2 ^ 17) 64 epochNumber

def fullDatasetUpperBound (epochNumber : Nat) : Nat :=
  itemsUpperBound (2 ^ 30) (2 ^ 23) 128 epochNumber

def calculateLightCacheNumItems (epochNumber : Nat) : Nat :=
  (findLargestPrime (lightCacheUpperBound epochNumber)).toNat

def calculateFullDatasetNumItems (epochNumber : Nat) : Nat :=
  (findLargestPrime (fullDatasetUpperBound epochNumber)).toNat

theorem lightCacheUpperBound_eq (epochNumber : Nat) :
    lightCacheUpperBound epochNumber = 262144 + epochNumber * 2048 := rfl

theorem fullDatasetUpperBound_eq (epochNumber : Nat) :
    fullDatasetUpperBound epochNumber = 8388608 + epochNumber * 65536 := rfl

/-- A bound and the count taken from it: by Bertrand's postulate the greatest prime up to a
bound is above half of it. -/
theorem findLargestPrime_half {n : Nat} (h4 : 4 ≤ n) :
    (findLargestPrime n).toNat.Prime ∧ n / 2 < (findLargestPrime n).toNat ∧
      (findLargestPrime n).toNat ≤ n := by
  obtain ⟨p, hp, hprime, hle, hmax⟩ := findLargestPrime_spec (n := n) (by omega)
  obtain ⟨q, hq, hlt, hq2⟩ := Nat.exists_prime_lt_and_le_two_mul (n / 2) (by omega)
  have hqp := hmax q hq (by omega)
  rw [hp, Int.toNat_natCast]
  exact ⟨hprime, by omega, hle⟩

/-- Up to epoch 32639 both bounds are numbers of type `int`. -/
theorem itemsUpperBound_fits {epochNumber : Nat} (h : epochNumber ≤ 32639) :
    lightCacheUpperBound epochNumber < 2 ^ 31 ∧ fullDatasetUpperBound epochNumber < 2 ^ 31 := by
  rw [lightCacheUpperBound_eq, fullDatasetUpperBound_eq]
  omega

theorem calculateLightCacheNumItems_spec (epochNumber : Nat) :
    (calculateLightCacheNumItems epochNumber).Prime ∧
      131072 < calculateLightCacheNumItems epochNumber := by
  obtain ⟨hp, hlt, -⟩ := findLargestPrime_half (n := lightCacheUpperBound epochNumber)
    (by rw [lightCacheUpperBound_eq]; omega)
  refine ⟨hp, lt_of_le_of_lt ?_ hlt⟩
  rw [lightCacheUpperBound_eq]
  omega

theorem calculateFullDatasetNumItems_spec (epochNumber : Nat) :
    (calculateFullDatasetNumItems epochNumber).Prime ∧
      4194304 < calculateFullDatasetNumItems epochNumber := by
  obtain ⟨hp, hlt, -⟩ := findLargestPrime_half (n := fullDatasetUpperBound epochNumber)
    (by rw [fullDatasetUpperBound_eq]; omega)
  refine ⟨hp, lt_of_le_of_lt ?_ hlt⟩
  rw [fullDatasetUpperBound_eq]
  omega

end SickPool.Ethash
