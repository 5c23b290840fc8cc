import SickPool.Persistence.MySqlManager

/-!
# The ledger invariant

`Consistent` relates the two balances of every miner to the rewards table: the
immature balance is the sum of the miner's rewards on blocks of status 1 or 5, the
mature balance the sum of those on confirmed blocks. Each stored procedure keeps
it; `MatureRewards` keeps it only together with the status update that follows it
and only on a block that is still immature.
-/
namespace SickPool.Persistence.Db

open SickPool.Library
open SickPool.Library.Table

def isConfirmed (status : BlockStatus) : Bool := decide (status = .CONFIRMED)

/-- The balances of a miner row are the totals of the rewards table. -/
def Balanced (db : Db) (m : MinerRow) : Prop :=
  m.immatureBalance = db.rewardsWhere BlockStatus.immature m.addressId ∧
    m.matureBalance = db.rewardsWhere isConfirmed m.addressId

structure Consistent (db : Db) : Prop where
  block_ids : (db.blocks.map (·.id)).Nodup
  block_fresh : ∀ r ∈ db.blocks, r.id < db.nextBlock
  miner_fresh : ∀ m ∈ db.miners, m.addressId < db.nextAddress
  reward_keys : (db.rewards.map (fun r => (r.minerId, r.blockId))).Nodup
  reward_refs : ∀ r ∈ db.rewards, r.minerId < db.nextAddress ∧ r.blockId < db.nextBlock
  balanced : ∀ m ∈ db.miners, db.Balanced m

theorem consistent_empty : Consistent Db.empty := by
  constructor <;> simp [Db.empty]

/-! ## Block statuses -/

theorem updateBlockStatus_ids (db : Db) (status : BlockStatus) (id : Nat) :
    (db.updateBlockStatus status id).1.blocks.map (·.id) = db.blocks.map (·.id) := by
  simp only [updateBlockStatus, List.map_map]
  apply List.map_congr_left
  intro r _
  simp only [Function.comp_apply]
  split <;> rfl

theorem updateBlockStatus_fresh {db : Db} (hf : ∀ r ∈ db.blocks, r.id < db.nextBlock)
    (status : BlockStatus) (id : Nat) :
    ∀ r ∈ (db.updateBlockStatus status id).1.blocks, r.id < db.nextBlock := by
  intro r hr
  have hid : r.id ∈ db.blocks.map (·.id) := by
    rw [← updateBlockStatus_ids db status id]
    exact List.mem_map_of_mem hr
  obtain ⟨r1, hr1, he⟩ := List.mem_map.mp hid
  exact he ▸ hf r1 hr1

theorem statusOf_updateBlockStatus (db : Db) (status : BlockStatus) (id x : Nat) :
    (db.updateBlockStatus status id).1.statusOf x =
      if x = id then (db.statusOf x).map (fun _ => status) else db.statusOf x := by
  simp only [updateBlockStatus, statusOf]
  induction db.blocks with
  | nil => simp
  | cons r rows ih =>
    rw [List.map_cons, List.find?_cons, List.find?_cons]
    by_cases hr : r.id = id
    · by_cases hx : r.id = x
      · simp [← hr, hx]
      · have hne : ¬ x = id := fun h => hx (hr.trans h.symm)
        simp only [hr, ↓reduceIte, hne] at ih ⊢
        have hx' : ¬ id = x := fun h => hne h.symm
        simpa [hx'] using ih
    · by_cases hx : r.id = x
      · have hne : ¬ x = id := fun h => hr (hx.trans h)
        simp [hx, hne]
      · simpa [hr, hx] using ih

theorem statusOf_some {db : Db} {id : Nat} {status : BlockStatus}
    (h : db.statusOf id = some status) : ∃ r ∈ db.blocks, r.id = id ∧ r.status = status := by
  obtain ⟨r, hr, hs⟩ := Option.map_eq_some_iff.mp h
  exact ⟨r, List.mem_of_find?_eq_some hr, by simpa using List.find?_some hr, hs⟩

theorem statusOf_of_mem {db : Db} (hn : (db.blocks.map (·.id)).Nodup) {r : BlockRow}
    (hr : r ∈ db.blocks) : db.statusOf r.id = some r.status := by
  have hs : (db.blocks.find? (fun b => decide (b.id = r.id))).isSome := by
    rw [List.find?_isSome]
    exact ⟨r, hr, by simp⟩
  obtain ⟨b, hb⟩ := Option.isSome_iff_exists.mp hs
  have hid : b.id = r.id := by simpa using List.find?_some hb
  have he : b = r := eq_of_key hn (List.mem_of_find?_eq_some hb) hr hid
  simp [statusOf, hb, he]

theorem statusOf_lt {db : Db} (hf : ∀ r ∈ db.blocks, r.id < db.nextBlock) {id : Nat}
    {status : BlockStatus} (h : db.statusOf id = some status) : id < db.nextBlock := by
  obtain ⟨r, hr, rfl, -⟩ := statusOf_some h
  exact hf r hr

/-- A reward total depends on the statuses of the blocks the rewards refer to. -/
theorem rewardsWhere_congr {db db' : Db} {p : BlockStatus → Bool} (hr : db'.rewards = db.rewards)
    (hs : ∀ r ∈ db.rewards, (db'.statusOf r.blockId).any p = (db.statusOf r.blockId).any p)
    (m : Nat) : db'.rewardsWhere p m = db.rewardsWhere p m := by
  rw [rewardsWhere, rewardsWhere, hr]
  apply sumWhere_congr
  intro r hmem
  rw [hs r hmem]

/-- Balances survive a change that keeps the rewards and, for every rewarded
block, whether it is immature and whether it is confirmed. -/
theorem Balanced.congr {db db' : Db} {m : MinerRow} (h : db.Balanced m)
    (hr : db'.rewards = db.rewards)
    (hs : ∀ p ∈ [BlockStatus.immature, isConfirmed], ∀ r ∈ db.rewards,
      (db'.statusOf r.blockId).any p = (db.statusOf r.blockId).any p) : db'.Balanced m := by
  obtain ⟨hi, hm⟩ := h
  constructor
  · rw [hi, rewardsWhere_congr hr (hs _ (by simp))]
  · rw [hm, rewardsWhere_congr hr (hs _ (by simp))]

/-! ## Miners, workers and blocks -/

theorem addMiner_consistent {db : Db} (h : Consistent db) (address : Bytes) (ali : Option Bytes)
    (minPayout joinTime : Nat) : Consistent (db.addMiner address ali minPayout joinTime).1 := by
  unfold addMiner
  split
  · have hz : ∀ p, db.rewardsWhere p db.nextAddress = 0 := by
      intro p
      apply sumWhere_eq_zero
      intro r hr
      have hlt := (h.reward_refs r hr).1
      have hne : ¬ r.minerId = db.nextAddress := by omega
      simp [hne]
    refine ⟨h.block_ids, h.block_fresh, ?_, h.reward_keys, ?_, ?_⟩
    · exact lt_next_append_row h.miner_fresh rfl
    · intro r hr
      exact ⟨Nat.lt_succ_of_lt (h.reward_refs r hr).1, (h.reward_refs r hr).2⟩
    · intro m hm
      rcases List.mem_append.mp hm with hm | hm
      · exact h.balanced m hm
      · simp only [List.mem_singleton] at hm
        subst hm
        exact ⟨(hz _).symm, (hz _).symm⟩
  · exact h

theorem addWorker_consistent {db : Db} (h : Consistent db) (minerId : Nat) (name : Bytes)
    (joinTime : Nat) : Consistent (db.addWorker minerId name joinTime).1 := by
  unfold addWorker
  split
  · exact ⟨h.block_ids, h.block_fresh, h.miner_fresh, h.reward_keys, h.reward_refs, h.balanced⟩
  · exact h

/-- What a successful `AddBlock` does: one more row, of status 1, under a new id. -/
theorem addBlock_inv {db db' : Db} {workerId minerId : Nat} {hash : Bytes}
    {reward timeMs durationMs height : Nat} {difficulty effortPercent : ℚ}
    (hok : db.addBlock workerId minerId hash reward timeMs durationMs height difficulty
      effortPercent = (db', true)) :
    ∃ b : BlockRow, b.id = db.nextBlock ∧ b.status = .PENDING ∧ b.height = height ∧
      b.hash = hash ∧ db'.blocks = db.blocks ++ [b] ∧ db'.rewards = db.rewards ∧ db'.miners = db.miners ∧
      db'.nextBlock = db.nextBlock + 1 ∧ db'.nextAddress = db.nextAddress ∧
      db'.lastInsertId = db.nextBlock := by
  unfold addBlock at hok
  split at hok
  · cases hok
    exact ⟨_, rfl, rfl, rfl, rfl, rfl, rfl, rfl, rfl, rfl, rfl⟩
  · simp at hok

theorem addBlockStatement_inv {submission : BlockSubmission} {db db' : Db}
    (hok : Sql.addBlockStatement submission db = (db', true)) :
    ∃ difficulty effortPercent, db.addBlock submission.workerId submission.minerId
      (Utils.hexlify submission.hashBin.toList) submission.reward submission.timeMs
      submission.durationMs submission.height difficulty effortPercent = (db', true) := by
  unfold Sql.addBlockStatement at hok
  split at hok
  · exact ⟨_, _, hok⟩
  · simp at hok

theorem statusOf_append_other {db db' : Db} {b : BlockRow} (hb : db'.blocks = db.blocks ++ [b])
    {x : Nat} (hx : x ≠ b.id) : db'.statusOf x = db.statusOf x := by
  have hne : ¬ b.id = x := fun h => hx h.symm
  rw [statusOf, statusOf, hb, List.find?_append]
  simp [hne]

theorem statusOf_append_new {db db' : Db} {b : BlockRow} (hb : db'.blocks = db.blocks ++ [b])
    (hf : ∀ r ∈ db.blocks, r.id < b.id) : db'.statusOf b.id = some b.status := by
  have hnone : db.blocks.find? (fun r => decide (r.id = b.id)) = none := by
    rw [List.find?_eq_none]
    intro r hr
    have hlt := hf r hr
    simp only [decide_eq_true_eq]
    omega
  rw [statusOf, hb, List.find?_append, hnone]
  simp

/-- `AddBlock` keeps the ledger; the new block is immature and has no rewards yet. -/
theorem addBlock_spec {db db' : Db} (h : Consistent db) {workerId minerId : Nat} {hash : Bytes}
    {reward timeMs durationMs height : Nat} {difficulty effortPercent : ℚ}
    (hok : db.addBlock workerId minerId hash reward timeMs durationMs height difficulty
      effortPercent = (db', true)) :
    Consistent db' ∧ db'.lastInsertId = db.nextBlock ∧ db'.rewards = db.rewards ∧
      db'.statusOf db.nextBlock = some .PENDING ∧
      ∀ x, x ≠ db.nextBlock → db'.statusOf x = db.statusOf x := by
  obtain ⟨b, hid, hst, -, -, hb, hr, hm, hnb, hna, hl⟩ := addBlock_inv hok
  have hold : ∀ x, x ≠ db.nextBlock → db'.statusOf x = db.statusOf x :=
    fun x hx => statusOf_append_other hb (by rw [hid]; exact hx)
  have hnew : db'.statusOf db.nextBlock = some .PENDING := by
    have hn := statusOf_append_new hb (by rw [hid]; exact h.block_fresh)
    rwa [hid, hst] at hn
  refine ⟨⟨?_, ?_, ?_, ?_, ?_, ?_⟩, hl, hr, hnew, hold⟩
  · rw [hb]
    exact nodup_append_next h.block_ids h.block_fresh hid
  · rw [hb, hnb]
    exact lt_next_append_row h.block_fresh hid
  · rw [hm, hna]
    exact h.miner_fresh
  · rw [hr]
    exact h.reward_keys
  · rw [hr, hna, hnb]
    exact fun r hr => ⟨(h.reward_refs r hr).1, Nat.lt_succ_of_lt (h.reward_refs r hr).2⟩
  · rw [hm]
    intro m hmem
    refine (h.balanced m hmem).congr hr ?_
    intro p _ r hr
    have hlt := (h.reward_refs r hr).2
    rw [hold r.blockId (by omega)]

/-! ## Rewards -/

theorem addReward_inv {db db' : Db} {minerId blockId amount : Nat} {effort : ℚ}
    (hok : db.addReward minerId blockId amount effort = (db', true)) :
    (∃ m ∈ db.miners, m.addressId = minerId) ∧ (∃ b ∈ db.blocks, b.id = blockId) ∧
      ∃ r : RewardRow, r.minerId = minerId ∧ r.blockId = blockId ∧ r.amount = amount ∧
      db'.rewards = db.rewards ++ [r] ∧ db'.blocks = db.blocks ∧
      db'.miners = db.miners.map (fun m =>
        if m.addressId = minerId then
          { m with immatureBalance := m.immatureBalance + amount } else m) ∧
      db'.nextBlock = db.nextBlock ∧ db'.nextAddress = db.nextAddress := by
  simp only [addReward, insertReward] at hok
  split at hok
  · rename_i db1 hins
    split at hins
    · rename_i hc
      cases hins
      simp only [creditImmature] at hok
      split at hok
      · cases hok
        exact ⟨hc.2.1, hc.2.2, _, rfl, rfl, rfl, rfl, rfl, rfl, rfl, rfl⟩
      · simp at hok
    · simp at hins
  · simp at hok

theorem rewardsWhere_append {db db' : Db} {r : RewardRow} (hr : db'.rewards = db.rewards ++ [r])
    (hb : db'.blocks = db.blocks) (p : BlockStatus → Bool) (m : Nat) :
    db'.rewardsWhere p m = db.rewardsWhere p m +
      if r.minerId = m ∧ (db.statusOf r.blockId).any p then r.amount else 0 := by
  have hs : ∀ x, db'.statusOf x = db.statusOf x := fun x => by rw [statusOf, statusOf, hb]
  rw [rewardsWhere, rewardsWhere, hr, sumWhere_append, sumWhere_cons, sumWhere_nil]
  simp only [hs, Bool.and_eq_true, decide_eq_true_eq, Nat.add_zero]

/-- `AddReward` keeps the ledger when the block is still pending and the miner has
no reward on it. -/
theorem addReward_consistent {db db' : Db} (h : Consistent db) {minerId blockId amount : Nat}
    {effort : ℚ} (hst : db.statusOf blockId = some .PENDING)
    (hnew : ∀ r ∈ db.rewards, (r.minerId, r.blockId) ≠ (minerId, blockId))
    (hok : db.addReward minerId blockId amount effort = (db', true)) : Consistent db' := by
  obtain ⟨⟨m0, hm0, hid0⟩, -, r, hrm, hrb, hra, hr, hb, hm, hnb, hna⟩ := addReward_inv hok
  refine ⟨?_, ?_, ?_, ?_, ?_, ?_⟩
  · rw [hb]
    exact h.block_ids
  · rw [hb, hnb]
    exact h.block_fresh
  · intro m hmem
    rw [hm] at hmem
    obtain ⟨m1, hm1, rfl⟩ := List.mem_map.mp hmem
    rw [hna]
    have hlt := h.miner_fresh m1 hm1
    split <;> exact hlt
  · rw [hr]
    refine nodup_append_row h.reward_keys ?_
    rw [hrm, hrb]
    exact hnew
  · intro r1 hr1
    rw [hr] at hr1
    rw [hna, hnb]
    rcases List.mem_append.mp hr1 with hr1 | hr1
    · exact h.reward_refs r1 hr1
    · simp only [List.mem_singleton] at hr1
      subst hr1
      rw [hrm, hrb]
      exact ⟨hid0 ▸ h.miner_fresh m0 hm0, statusOf_lt h.block_fresh hst⟩
  · intro m hmem
    rw [hm] at hmem
    obtain ⟨m1, hm1, rfl⟩ := List.mem_map.mp hmem
    obtain ⟨hi, hc⟩ := h.balanced m1 hm1
    unfold Balanced
    rw [rewardsWhere_append hr hb, rewardsWhere_append hr hb, hrm, hrb, hra, hst]
    by_cases heq : m1.addressId = minerId
    · simp [heq, BlockStatus.immature, isConfirmed, hi, hc]
    · have hne : ¬ minerId = m1.addressId := fun he => heq he.symm
      simp [heq, hne, hi, hc]

/-! ## Settling a block -/

/-- The reward row joined with a miner carries that miner's whole reward on the
block, since a miner has at most one reward per block. -/
theorem joinedReward_total {db : Db} (h : Consistent db) (blockId : Nat) (m : MinerRow) :
    sumWhere (fun r => decide ((r.minerId, r.blockId) = (m.addressId, blockId))) (·.amount)
      db.rewards = (db.joinedReward blockId m).elim 0 (·.amount) :=
  sumWhere_key (fun r : RewardRow => (r.minerId, r.blockId)) (·.amount) _ h.reward_keys

/-- A total over statuses splits into the part on one block and the part elsewhere. -/
theorem rewardsWhere_settle {db db' : Db} (hr : db'.rewards = db.rewards) {b : Nat}
    {old new : BlockStatus} (hold : db.statusOf b = some old) (hnew : db'.statusOf b = some new)
    (hs : ∀ x, x ≠ b → db'.statusOf x = db.statusOf x) (p : BlockStatus → Bool) (m : Nat) :
    db'.rewardsWhere p m + (if p old then
        sumWhere (fun r => decide ((r.minerId, r.blockId) = (m, b))) (·.amount) db.rewards else 0) =
      db.rewardsWhere p m + (if p new then
        sumWhere (fun r => decide ((r.minerId, r.blockId) = (m, b))) (·.amount) db.rewards else 0) := by
  -- the part of either total that no status change of `b` can move
  let elsewhere : RewardRow → Bool := fun r =>
    decide (r.minerId = m) && ((db.statusOf r.blockId).any p && decide (r.blockId ≠ b))
  have part : ∀ (d : Db) (st : BlockStatus), d.rewards = db.rewards → d.statusOf b = some st →
      (∀ x, x ≠ b → d.statusOf x = db.statusOf x) →
      d.rewardsWhere p m = sumWhere elsewhere (·.amount) db.rewards + if p st then
        sumWhere (fun r => decide ((r.minerId, r.blockId) = (m, b))) (·.amount) db.rewards else 0 := by
    intro d st hdr hdb hds
    rw [rewardsWhere, hdr]
    cases hp : p st with
    | true =>
      simp only [↓reduceIte]
      apply sumWhere_split
      · intro r _
        by_cases hb : r.blockId = b
        · simp [elsewhere, hb, hdb, hp]
        · simp [elsewhere, hb, hds r.blockId hb]
      · intro r _
        by_cases hb : r.blockId = b <;> simp [elsewhere, hb]
    | false =>
      simp only [Bool.false_eq_true, ↓reduceIte, Nat.add_zero]
      apply sumWhere_congr
      intro r _
      by_cases hb : r.blockId = b
      · simp [elsewhere, hb, hdb, hp]
      · simp [elsewhere, hb, hds r.blockId hb]
  rw [part db old rfl hold (fun _ _ => rfl), part db' new hr hnew hs]
  omega

theorem matureRewards_inv {db db' : Db} {blockId : Nat} {status : BlockStatus}
    (hok : db.matureRewards blockId status = (db', true)) :
    (∀ m ∈ db.miners, db.matureFits blockId status m) ∧
      db'.miners = db.miners.map (db.matureRow blockId status) ∧ db'.rewards = db.rewards ∧
      db'.blocks = db.blocks ∧ db'.nextBlock = db.nextBlock ∧ db'.nextAddress = db.nextAddress := by
  unfold matureRewards at hok
  split at hok
  · rename_i hf
    cases hok
    exact ⟨hf, rfl, rfl, rfl, rfl, rfl⟩
  · simp at hok

@[simp] theorem matureRow_addressId (db : Db) (blockId : Nat) (status : BlockStatus)
    (m : MinerRow) : (db.matureRow blockId status m).addressId = m.addressId := by
  unfold matureRow
  split <;> rfl

/-- A miner row that `MatureRewards` rewrote balances once the block has its final status:
the joined reward leaves the immature total, and enters the confirmed one with status 2. -/
theorem matureRow_balanced {db db' : Db} (h : Consistent db) {b : Nat} {old status : BlockStatus}
    (hst : db.statusOf b = some old) (himm : old.immature = true)
    (hset : status = .CONFIRMED ∨ status = .ORPHANED) (hr : db'.rewards = db.rewards)
    (hnew : db'.statusOf b = some status) (hother : ∀ x, x ≠ b → db'.statusOf x = db.statusOf x)
    {m : MinerRow} (hm : m ∈ db.miners) (hf : db.matureFits b status m) :
    Balanced db' (db.matureRow b status m) := by
  obtain ⟨hi, hc⟩ := h.balanced m hm
  have ti := rewardsWhere_settle hr hst hnew hother BlockStatus.immature m.addressId
  have tc := rewardsWhere_settle hr hst hnew hother isConfirmed m.addressId
  rw [joinedReward_total h b m] at ti tc
  have hnc : isConfirmed old = false := by
    cases old <;> simp_all [BlockStatus.immature, isConfirmed]
  have hni : status.immature = false := by rcases hset with rfl | rfl <;> rfl
  simp only [himm, hni, hnc, ↓reduceIte, Bool.false_eq_true, Nat.add_zero] at ti tc
  unfold Balanced
  rw [matureRow_addressId]
  unfold matureRow
  unfold matureFits at hf
  cases hj : db.joinedReward b m with
  | none =>
    simp only [hj, Option.elim_none, Nat.add_zero, ite_self] at ti tc ⊢
    exact ⟨by omega, by omega⟩
  | some r =>
    simp only [hj, Option.elim_some] at ti tc hf ⊢
    refine ⟨by omega, ?_⟩
    rw [tc, hc]
    congr 1
    simp [maturedAmount, isConfirmed]

/-- `MatureRewards` and the status update that follows it keep the ledger when the
block was still immature. -/
theorem settle_consistent {db db1 : Db} (h : Consistent db) {b : Nat} {old status : BlockStatus}
    (hst : db.statusOf b = some old) (himm : old.immature = true)
    (hset : status = .CONFIRMED ∨ status = .ORPHANED)
    (hok : db.matureRewards b status = (db1, true)) :
    Consistent (db1.updateBlockStatus status b).1 := by
  obtain ⟨hfit, hm, hr, hb, hnb, hna⟩ := matureRewards_inv hok
  have hstat : ∀ x, db1.statusOf x = db.statusOf x := fun x => by rw [statusOf, statusOf, hb]
  have hnew : (db1.updateBlockStatus status b).1.statusOf b = some status := by
    rw [statusOf_updateBlockStatus, hstat, hst]
    simp
  have hother : ∀ x, x ≠ b → (db1.updateBlockStatus status b).1.statusOf x = db.statusOf x := by
    intro x hx
    rw [statusOf_updateBlockStatus, if_neg hx, hstat]
  have hrew : (db1.updateBlockStatus status b).1.rewards = db.rewards := hr
  refine ⟨?_, ?_, ?_, ?_, ?_, ?_⟩
  · rw [updateBlockStatus_ids, hb]
    exact h.block_ids
  · refine updateBlockStatus_fresh ?_ status b
    rw [hb, hnb]
    exact h.block_fresh
  · intro m hmem
    change m ∈ db1.miners at hmem
    change m.addressId < db1.nextAddress
    rw [hm] at hmem
    obtain ⟨m1, hm1, rfl⟩ := List.mem_map.mp hmem
    rw [hna, matureRow_addressId]
    exact h.miner_fresh m1 hm1
  · rw [hrew]
    exact h.reward_keys
  · rw [hrew]
    change ∀ r ∈ db.rewards, r.minerId < db1.nextAddress ∧ r.blockId < db1.nextBlock
    rw [hna, hnb]
    exact h.reward_refs
  · intro m hmem
    change m ∈ db1.miners at hmem
    rw [hm] at hmem
    obtain ⟨m1, hm1, rfl⟩ := List.mem_map.mp hmem
    exact matureRow_balanced h hst himm hset hrew hnew hother hm1 (hfit m1 hm1)

/-- Flagging an immature block as orphaned keeps the ledger. -/
theorem flag_consistent {db : Db} (h : Consistent db) {b : Nat} {old : BlockStatus}
    (hst : db.statusOf b = some old) (himm : old.immature = true) :
    Consistent (db.updateBlockStatus .PENDING_ORPHANED b).1 := by
  refine ⟨?_, updateBlockStatus_fresh h.block_fresh _ _, h.miner_fresh, h.reward_keys,
    h.reward_refs, ?_⟩
  · rw [updateBlockStatus_ids]
    exact h.block_ids
  · intro m hm
    refine (h.balanced m hm).congr rfl ?_
    intro p hp r _
    rw [statusOf_updateBlockStatus]
    by_cases hb : r.blockId = b
    · rw [if_pos hb, hb, hst]
      simp only [List.mem_cons, List.not_mem_nil, or_false] at hp
      rcases hp with rfl | rfl <;> cases old <;> simp_all [BlockStatus.immature, isConfirmed]
    · rw [if_neg hb]

end SickPool.Persistence.Db
