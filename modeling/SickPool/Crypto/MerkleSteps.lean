import SickPool.Crypto.MerkleRoot

/-!
# The merkle steps of a template

`CalcSteps` runs the levels of `CalcRoot` without the first element, which is not known yet,
and keeps the second element of each level. `CalcRootFromSteps` hashes a first element up
through them.
-/
namespace SickPool.Crypto.MerkleTree

open SickPool.Library SickPool.Utils

/-- The inner loop of `CalcSteps`: that of `CalcRoot` from `j = 1` on. -/
def stepLevel (sha256d : Bytes → Hash32) (pairs : Nat) (hashes : List Hash32) : List Hash32 :=
  (List.range' 1 (pairs - 1)).foldl (fun hashes j =>
    hashes.set j (sha256d ((hashes.getD (2 * j) zeroHash).toList ++
      (hashes.getD (2 * j + 1) zeroHash).toList))) hashes

/-- The outer loop of `CalcSteps`. -/
def calcStepsLoop (sha256d : Bytes → Hash32) : Nat → Nat → List Hash32 → List Hash32
  | 0, _, _ => []
  | fuel + 1, hashCount, hashes =>
    if 1 < hashCount then
      if hashCount % 2 = 1 then
        let hashes := hashes ++ [hashes.getLastD zeroHash]
        hashes.getD 1 zeroHash :: calcStepsLoop sha256d fuel ((hashCount + 1) / 2)
          (stepLevel sha256d ((hashCount + 1) / 2) hashes)
      else
        hashes.getD 1 zeroHash :: calcStepsLoop sha256d fuel (hashCount / 2)
          (stepLevel sha256d (hashCount / 2) hashes)
    else []

/-- `CalcSteps`, with as many levels at most as for `CalcRoot`. -/
def calcSteps (sha256d : Bytes → Hash32) (hashes : List Hash32) : List Hash32 :=
  calcStepsLoop sha256d hashes.length hashes.length hashes

/-- `CalcRootFromSteps`: `buff` holds the hash so far in its first half. -/
def calcRootFromSteps (sha256d : Bytes → Hash32) (cbTxid : Hash32) (steps : List Hash32)
    (stepCount : Nat) : Hash32 :=
  (List.range stepCount).foldl (fun buff i =>
    sha256d (buff.toList ++ (steps.getD i zeroHash).toList)) cbTxid

section Levels

variable (sha256d : Bytes → Hash32)

/-- What a level makes of the elements behind the first, in both loops. -/
def tailLevel (pairs : Nat) (rest : List Hash32) : List Hash32 :=
  (List.range pairs).foldl (fun rest j =>
    rest.set j (hashPair sha256d (rest.getD (2 * j + 1) zeroHash)
      (rest.getD (2 * j + 2) zeroHash))) rest

theorem tailLevel_length (pairs : Nat) (rest : List Hash32) :
    (tailLevel sha256d pairs rest).length = rest.length := by
  unfold tailLevel
  induction List.range pairs generalizing rest with
  | nil => rfl
  | cons j js ih => rw [List.foldl_cons, ih, List.length_set]

/-- From the second pair on, a level leaves the first element alone and does not read it. -/
theorem foldl_range'_cons (first : Hash32) (pairs : Nat) (rest : List Hash32) :
    (List.range' 1 pairs).foldl (fun hashes j => hashes.set j (sha256d
        ((hashes.getD (2 * j) zeroHash).toList ++ (hashes.getD (2 * j + 1) zeroHash).toList)))
      (first :: rest) = first :: tailLevel sha256d pairs rest := by
  unfold tailLevel
  rw [List.range'_eq_map_range, List.foldl_map]
  induction List.range pairs generalizing rest with
  | nil => rfl
  | cons j js ih =>
    have hodd : 2 * (1 + j) = (2 * j + 1) + 1 := by omega
    have heven : 2 * (1 + j) + 1 = (2 * j + 2) + 1 := by omega
    rw [List.foldl_cons, List.foldl_cons, hodd, Nat.add_comm 1 j, List.set_cons_succ,
      List.getD_cons_succ, List.getD_cons_succ, ih]
    rfl

theorem stepLevel_cons (first : Hash32) (pairs : Nat) (rest : List Hash32) :
    stepLevel sha256d pairs (first :: rest) = first :: tailLevel sha256d (pairs - 1) rest :=
  foldl_range'_cons sha256d first (pairs - 1) rest

theorem hashLevel_cons (first : Hash32) {pairs : Nat} (hp : 0 < pairs) (rest : List Hash32) :
    hashLevel sha256d pairs (first :: rest) =
      hashPair sha256d first (rest.getD 0 zeroHash) :: tailLevel sha256d (pairs - 1) rest := by
  obtain ⟨n, rfl⟩ : ∃ n, pairs = n + 1 := ⟨pairs - 1, by omega⟩
  unfold hashLevel
  rw [List.range_eq_range', List.range'_succ, List.foldl_cons]
  exact foldl_range'_cons sha256d _ n rest

theorem calcStepsLoop_succ {fuel hashCount : Nat} {hashes : List Hash32} (hc : 1 < hashCount) :
    calcStepsLoop sha256d (fuel + 1) hashCount hashes =
      (evened hashCount hashes).getD 1 zeroHash :: calcStepsLoop sha256d fuel ((hashCount + 1) / 2)
        (stepLevel sha256d ((hashCount + 1) / 2) (evened hashCount hashes)) := by
  rw [calcStepsLoop, if_pos hc, evened]
  split
  · rfl
  · rw [show (hashCount + 1) / 2 = hashCount / 2 by omega]

/-- The element an odd level repeats is not the first one. -/
theorem evened_cons (first : Hash32) {hashCount : Nat} {rest : List Hash32} (hne : rest ≠ []) :
    evened hashCount (first :: rest) = first :: (if hashCount % 2 = 1
      then rest ++ [rest.getLastD zeroHash] else rest) := by
  unfold evened
  split
  · obtain ⟨a, as, rfl⟩ := List.exists_cons_of_ne_nil hne
    rfl
  · rfl

end Levels

/-- Hashing a first element up through steps. -/
theorem calcRootFromSteps_cons (sha256d : Bytes → Hash32) (cbTxid step : Hash32)
    (steps : List Hash32) :
    calcRootFromSteps sha256d cbTxid (step :: steps) (step :: steps).length =
      calcRootFromSteps sha256d (hashPair sha256d cbTxid step) steps steps.length := by
  unfold calcRootFromSteps
  rw [List.length_cons, List.range_succ_eq_map, List.foldl_cons, List.foldl_map]
  rfl

/-- One level of the two loops side by side: the same elements behind the first, the first element
hashed with the second in the one loop and left alone in the other. -/
theorem level_cons (sha256d : Bytes → Hash32) {hashCount : Nat} {rest : List Hash32}
    (hc : 1 < hashCount) (hlen : hashCount ≤ rest.length + 1) :
    ∃ second rest', (hashCount + 1) / 2 ≤ rest'.length + 1 ∧
      (∀ cbTxid, hashLevel sha256d ((hashCount + 1) / 2) (evened hashCount (cbTxid :: rest)) =
        hashPair sha256d cbTxid second :: rest') ∧
      ∀ first, stepLevel sha256d ((hashCount + 1) / 2) (evened hashCount (first :: rest)) =
          first :: rest' ∧ (evened hashCount (first :: rest)).getD 1 zeroHash = second := by
  have hne : rest ≠ [] := by
    intro hnil
    rw [hnil, List.length_nil] at hlen
    omega
  generalize hrest : (if hashCount % 2 = 1 then rest ++ [rest.getLastD zeroHash] else rest) = even
  have heven : ∀ first, evened hashCount (first :: rest) = first :: even := by
    intro first
    rw [evened_cons first hne, hrest]
  have hle : rest.length ≤ even.length := by
    rw [← hrest]
    split <;> simp
  refine ⟨even.getD 0 zeroHash, tailLevel sha256d ((hashCount + 1) / 2 - 1) even, ?_, ?_, ?_⟩
  · rw [tailLevel_length]
    omega
  · intro cbTxid
    rw [heven, hashLevel_cons sha256d cbTxid (by omega)]
  · intro first
    rw [heven, stepLevel_cons]
    exact ⟨rfl, rfl⟩

/-- The loop of `CalcSteps` does not look at the first element. -/
theorem calcStepsLoop_first (sha256d : Bytes → Hash32) (fuel : Nat) :
    ∀ {hashCount : Nat} {rest : List Hash32} (first first' : Hash32), hashCount ≤ rest.length + 1 →
      calcStepsLoop sha256d fuel hashCount (first :: rest) =
        calcStepsLoop sha256d fuel hashCount (first' :: rest) := by
  induction fuel with
  | zero =>
    intro hashCount rest first first' _
    rfl
  | succ fuel ih =>
    intro hashCount rest first first' hlen
    by_cases hc : 1 < hashCount
    · obtain ⟨second, rest', hlen', -, hstep⟩ := level_cons sha256d hc hlen
      rw [calcStepsLoop_succ sha256d hc, calcStepsLoop_succ sha256d hc, (hstep first).1,
        (hstep first').1, (hstep first).2, (hstep first').2, ih first first' hlen']
    · rw [calcStepsLoop, if_neg hc, calcStepsLoop, if_neg hc]

/-- Level by level, the loop of `CalcRoot` with a first element goes where that element is hashed
to by the steps, whatever first element they were computed with. The vector is at least as long
as the level. -/
theorem calcRootLoop_eq_fromSteps (sha256d : Bytes → Hash32) (fuel : Nat) :
    ∀ {hashCount : Nat} {rest : List Hash32} (cbTxid first : Hash32),
      hashCount ≤ rest.length + 1 →
      (calcRootLoop sha256d fuel hashCount (cbTxid :: rest)).getD 0 zeroHash =
        calcRootFromSteps sha256d cbTxid (calcStepsLoop sha256d fuel hashCount (first :: rest))
          (calcStepsLoop sha256d fuel hashCount (first :: rest)).length := by
  induction fuel with
  | zero =>
    intro hashCount rest cbTxid first _
    rfl
  | succ fuel ih =>
    intro hashCount rest cbTxid first hlen
    by_cases hc : 1 < hashCount
    · obtain ⟨second, rest', hlen', hroot, hstep⟩ := level_cons sha256d hc hlen
      rw [calcRootLoop_succ sha256d fuel hc, calcStepsLoop_succ sha256d hc, hroot cbTxid,
        (hstep first).1, (hstep first).2, calcRootFromSteps_cons]
      exact ih _ first hlen'
    · rw [calcRootLoop, if_neg hc, calcStepsLoop, if_neg hc]
      rfl

/-- The steps of a template lead from any first transaction to the root of the list that starts
with it, and are the same whatever stood first when they were computed. -/
theorem calcRootFromSteps_calcSteps (sha256d : Bytes → Hash32) (txs : List Hash32)
    (cbTxid first : Hash32) :
    calcRootFromSteps sha256d cbTxid (calcSteps sha256d (first :: txs))
        (calcSteps sha256d (first :: txs)).length = calcRoot sha256d (cbTxid :: txs) ∧
      calcSteps sha256d (first :: txs) = calcSteps sha256d (cbTxid :: txs) := by
  constructor
  · exact (calcRootLoop_eq_fromSteps sha256d _ cbTxid first (Nat.le_refl _)).symm
  · exact calcStepsLoop_first sha256d _ first cbTxid (Nat.le_refl _)

end SickPool.Crypto.MerkleTree
