import SickPool.Library.Run
import SickPool.Stats.Stats

/-!
# The PPLNS window in Redis

`PersistenceRound::GetSharesBetween` and `AddPendingShares`. The window is one string of
packed `Share` records; it is kept here as the list of its records, and byte offsets are
counted in it. A reply is read as the records that lie whole in the byte range asked for.
-/
namespace SickPool.Round

open SickPool.Library SickPool.Stats

/-- `sizeof(Share)`. -/
def shareSize : Nat := 12

/-- `GETRANGE` on a string of `len` bytes: the offset and the number of bytes of the reply.
Offsets below 0 count from the end; what is out of range is cut off. -/
def getRange (len : Nat) (start stop : Int) : Nat × Nat :=
  if start < 0 ∧ stop < 0 ∧ stop < start then (0, 0)
  else
    let first := (if start < 0 then (len : Int) + start else start).toNat
    let last := min (if stop < 0 then (len : Int) + stop else stop).toNat (len - 1)
    if last < first ∨ len = 0 then (0, 0) else (first, last + 1 - first)

/-- `GetSharesBetween`. The end is a number of records when it is not negative, and a byte
offset as it is otherwise. -/
def getSharesBetween (shares : List RoundShare) (start stop : Int) : List RoundShare :=
  let startIndex := start * shareSize
  let endIndex := if stop < 0 then stop else stop * shareSize - 1
  let (offset, count) := getRange (shareSize * shares.length) startIndex endIndex
  (shares.drop (offset / shareSize)).take (count / shareSize)

/-- The variables of the loop over the oldest shares. -/
structure Scan where
  removeCount : Nat
  firstShareValue : Double
  remSum : Double

/-- The inner loop over a batch; it breaks at a share that does not fit. -/
def scanBatch (diffSum : Double) : List RoundShare → Scan → Scan
  | [], sc => sc
  | share :: rest, sc =>
    if diffSum < sc.remSum + share.diff then
      { sc with
        firstShareValue := diffSum - sc.remSum
        remSum := sc.remSum + (diffSum - sc.remSum) }
    else scanBatch diffSum rest
      { sc with removeCount := sc.removeCount + 1, remSum := sc.remSum + share.diff }

/-- The outer loop, for a number of batches of ten; `none` when it is not over by then. -/
def scanShares (shares : List RoundShare) (diffSum : Double) : Nat → Scan → Option Scan
  | 0, sc => if sc.remSum < diffSum then none else some sc
  | batches + 1, sc =>
    if sc.remSum < diffSum then
      scanShares shares diffSum batches (scanBatch diffSum
        (getSharesBetween shares sc.removeCount (sc.removeCount + 10)) sc)
    else some sc

/-- How far `AddPendingShares` comes: the loop is not over, `keep_shares[0]` is written to
an empty vector, or the window is set. -/
inductive WindowResult where
  | running
  | outOfBounds
  | set (shares : List RoundShare)
  deriving DecidableEq

/-- The end of `AddPendingShares`: the shares to keep, and the value of the first. -/
def keepShares (shares : List RoundShare) (sc : Scan) : WindowResult :=
  let kept := getSharesBetween shares (-1) (-1 - sc.removeCount)
  if sc.firstShareValue ≠ 0 then
    match kept with
    | [] => .outOfBounds
    | first :: rest => .set ({ first with diff := sc.firstShareValue } :: rest)
  else .set kept

/-- `AddPendingShares` on a window, followed for a number of batches. -/
def addPendingShares (batches : Nat) (stored pending : List RoundShare) : WindowResult :=
  let shares := stored ++ pending
  let diffSum := pending.foldl (fun sum share => sum + share.diff) 0
  match scanShares shares diffSum batches ⟨0, 0, 0⟩ with
  | none => .running
  | some sc => keepShares shares sc

/-- `AddPendingShares` followed to its end, if it has one. -/
def addPendingSharesEnd (stored pending : List RoundShare) : WindowResult :=
  addPendingShares (stored.length + pending.length + 1) stored pending

/-! ## What the byte ranges hold -/

/-- The batches are ten records each, the last one what is left. -/
theorem getSharesBetween_batch (shares : List RoundShare) (k : Nat) :
    getSharesBetween shares k (k + 10) = (shares.drop k).take 10 := by
  have hk : ¬ (k : Int) * shareSize < 0 := by simp only [shareSize]; omega
  have hk' : ¬ ((k : Int) + 10) < 0 := by omega
  have he : ¬ ((k : Int) + 10) * shareSize - 1 < 0 := by simp only [shareSize]; omega
  have hfirst : ((k : Int) * shareSize).toNat = 12 * k := by simp only [shareSize]; omega
  have hlast : (((k : Int) + 10) * shareSize - 1).toNat = 12 * k + 119 := by
    simp only [shareSize]; omega
  simp only [getSharesBetween, getRange, if_neg hk', hk, he, false_and, ↓reduceIte, hfirst, hlast]
  by_cases h : shares.length ≤ k
  · have hnil : shares.drop k = [] := List.drop_of_length_le h
    have hout : min (12 * k + 119) (shareSize * shares.length - 1) < 12 * k ∨
        shareSize * shares.length = 0 := by simp only [shareSize]; omega
    simp only [if_pos hout, hnil, Nat.zero_div, List.take_zero, List.take_nil]
  · have hin : ¬ (min (12 * k + 119) (shareSize * shares.length - 1) < 12 * k ∨
        shareSize * shares.length = 0) := by simp only [shareSize]; omega
    simp only [if_neg hin]
    simp only [shareSize, Nat.mul_div_cancel_left k (by decide : 0 < 12)]
    by_cases hl : k + 10 ≤ shares.length
    · rw [show (min (12 * k + 119) (12 * shares.length - 1) + 1 - 12 * k) / 12 = 10 by omega]
    · rw [List.take_of_length_le (by rw [List.length_drop]; omega),
        List.take_of_length_le (by rw [List.length_drop]; omega)]

/-- A batch with a record in it moves on, or ends the loop. -/
theorem scanBatch_progress (diffSum : Double) {shares : List RoundShare} (hne : shares ≠ [])
    (sc : Scan) : sc.removeCount < (scanBatch diffSum shares sc).removeCount ∨
      ¬ (scanBatch diffSum shares sc).remSum < diffSum := by
  obtain ⟨share, rest, rfl⟩ := List.exists_cons_of_ne_nil hne
  have hcount : ∀ (l : List RoundShare) (sc : Scan),
      sc.removeCount ≤ (scanBatch diffSum l sc).removeCount := by
    intro l
    induction l with
    | nil => exact fun sc => Nat.le_refl _
    | cons share rest ih =>
      intro sc
      rw [scanBatch]
      split
      · exact Nat.le_refl _
      · have h := ih { sc with
          removeCount := sc.removeCount + 1, remSum := sc.remSum + share.diff }
        exact Nat.le_of_succ_le h
  rw [scanBatch]
  split
  · rename_i hlt
    exact .inr (Double.not_add_sub_lt hlt)
  · have h := hcount rest { sc with
      removeCount := sc.removeCount + 1, remSum := sc.remSum + share.diff }
    exact .inl h

/-- A loop that is not over after more batches than there are records never is. -/
theorem scanShares_none {shares : List RoundShare} {diffSum : Double} {n : Nat} {sc : Scan}
    (hn : shares.length - sc.removeCount < n) (h : scanShares shares diffSum n sc = none)
    (batches : Nat) : scanShares shares diffSum batches sc = none := by
  induction n generalizing sc batches with
  | zero => omega
  | succ n ih =>
    by_cases hlt : sc.remSum < diffSum
    · rw [scanShares, if_pos hlt, getSharesBetween_batch] at h
      by_cases hend : (shares.drop sc.removeCount).take 10 = []
      · -- the batch is empty from now on
        induction batches with
        | zero => rw [scanShares, if_pos hlt]
        | succ batches ihb =>
          rw [scanShares, if_pos hlt, getSharesBetween_batch, hend]
          exact ihb
      · have hin : sc.removeCount < shares.length := by
          by_contra hge
          rw [List.drop_of_length_le (Nat.le_of_not_lt hge), List.take_nil] at hend
          exact hend rfl
        rcases scanBatch_progress diffSum hend sc with hmore | hover
        · cases batches with
          | zero => rw [scanShares, if_pos hlt]
          | succ batches =>
            rw [scanShares, if_pos hlt, getSharesBetween_batch]
            exact ih (by omega) h batches
        · cases n <;> rw [scanShares, if_neg hover] at h <;> cases h
    · rw [scanShares, if_neg hlt] at h
      cases h

theorem addPendingShares_of_running {stored pending : List RoundShare}
    (h : addPendingSharesEnd stored pending = .running) (batches : Nat) :
    addPendingShares batches stored pending = .running := by
  unfold addPendingSharesEnd addPendingShares at h
  dsimp only at h
  split at h
  · rename_i hnone
    rw [addPendingShares, scanShares_none (by simp) hnone batches]
  · rename_i sc _
    unfold keepShares at h
    dsimp only at h
    split at h
    · split at h <;> cases h
    · cases h

/-- With no record to remove, the range for the shares to keep is the last record. -/
theorem getSharesBetween_last (shares : List RoundShare) :
    getSharesBetween shares (-1) (-1) = shares.drop (shares.length - 1) := by
  simp only [getSharesBetween, getRange, shareSize]
  cases hl : shares.length with
  | zero =>
    have hnil : shares = [] := List.length_eq_zero_iff.mp hl
    simp [hnil]
  | succ n =>
    have hfirst : ((12 * (n + 1) : Nat) + -1 * (12 : Nat) : Int).toNat = 12 * n := by omega
    have hlast : min ((12 * (n + 1) : Nat) + -1 : Int).toNat (12 * (n + 1) - 1) =
        12 * n + 11 := by omega
    simp only [show (-1 : Int) * (12 : Nat) < 0 by decide, show (-1 : Int) < 0 by decide,
      show ¬ (-1 : Int) < -1 * (12 : Nat) by decide, and_false, ↓reduceIte, hfirst, hlast]
    rw [if_neg (by omega)]
    simp only
    rw [Nat.mul_div_cancel_left n (by decide), show (12 * n + 11 + 1 - 12 * n) / 12 = 1 by omega,
      List.take_of_length_le (by rw [List.length_drop]; omega)]
    rfl

/-- With a record to remove, the range is shorter than a record: its end is counted in
bytes. -/
theorem getSharesBetween_removed (shares : List RoundShare) {k : Nat} (hk : 0 < k) :
    getSharesBetween shares (-1) (-1 - k) = [] := by
  have hstop : (-1 : Int) - k < 0 := by omega
  have hstart : (-1 : Int) * shareSize < 0 := by decide
  have hcount : (getRange (shareSize * shares.length) (-1 * shareSize) (-1 - k)).2 / shareSize = 0 := by
    simp only [getRange, hstart, hstop, true_and, ↓reduceIte]
    split
    · rfl
    · split
      · rfl
      · simp only [shareSize]
        omega
  simp only [getSharesBetween, if_pos hstop, hcount, List.take_zero]

end SickPool.Round
