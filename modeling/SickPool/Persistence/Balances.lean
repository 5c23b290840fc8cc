import SickPool.Persistence.Ledger

/-!
# Mature balances

The tables with the keys their definitions declare, the statements the pool sends while
the payout program runs, and what each of them does to a miner's mature balance. Only
`MatureRewards` credits it.
-/
namespace SickPool.Persistence

open SickPool.Library

namespace Db

/-- The key and range constraints of `addresses` and `miners`, with the counter that
new ids are taken from. -/
structure Keyed (db : Db) : Prop where
  address_ids : (db.addresses.map (·.id)).Nodup
  address_fresh : ∀ a ∈ db.addresses, a.id < db.nextAddress
  miner_ids : (db.miners.map (·.addressId)).Nodup
  miner_fresh : ∀ m ∈ db.miners, m.addressId < db.nextAddress
  balance_range : ∀ m ∈ db.miners, m.matureBalance < uint64Size

/-- The mature balance of a miner, 0 for one that has no row. -/
def balanceOf (db : Db) (miner : Nat) : Nat :=
  (db.miners.find? (fun m => decide (m.addressId = miner))).elim 0 (·.matureBalance)

end Db

/-- A statement of the pool's own connection. -/
inductive PoolStatement where
  | addMiner (address : Bytes) (ali : Option Bytes) (minPayout joinTime : Nat)
  | addWorker (minerId : Nat) (name : Bytes) (joinTime : Nat)
  | updateAlias (ali : Bytes) (id : Nat)
  | addBlock (workerId minerId : Nat) (hash : Bytes) (reward timeMs durationMs height : Nat)
      (difficulty effortPercent : ℚ)
  | addReward (minerId blockId amount : Nat) (effort : ℚ)
  | matureRewards (blockId : Nat) (status : BlockStatus)
  | updateBlockStatus (status : BlockStatus) (id : Nat)

namespace Db

def exec (db : Db) : PoolStatement → Db × Bool
  | .addMiner address ali minPayout joinTime => db.addMiner address ali minPayout joinTime
  | .addWorker minerId name joinTime => db.addWorker minerId name joinTime
  | .updateAlias ali id => db.updateAlias ali id
  | .addBlock workerId minerId hash reward timeMs durationMs height difficulty effortPercent =>
    db.addBlock workerId minerId hash reward timeMs durationMs height difficulty effortPercent
  | .addReward minerId blockId amount effort => db.addReward minerId blockId amount effort
  | .matureRewards blockId status => db.matureRewards blockId status
  | .updateBlockStatus status id => db.updateBlockStatus status id

/-- What a statement adds to the mature balance of a miner: the rewards that mature. -/
def credit (db : Db) : PoolStatement → Nat → Nat
  | .matureRewards blockId status, miner =>
    if (db.matureRewards blockId status).2 then
      (db.miners.find? (fun m => decide (m.addressId = miner))).elim 0 fun m =>
        (db.joinedReward blockId m).elim 0 (maturedAmount status)
    else 0
  | _, _ => 0

/-! ## Updates of the miner rows -/

/-- A statement that keeps the ids and the counter keeps the keys. -/
theorem Keyed.congr {db db' : Db} (h : Keyed db)
    (ha : db'.addresses.map (·.id) = db.addresses.map (·.id))
    (hm : db'.miners.map (·.addressId) = db.miners.map (·.addressId))
    (hn : db'.nextAddress = db.nextAddress)
    (hb : ∀ m ∈ db'.miners, m.matureBalance < uint64Size) : Keyed db' where
  address_ids := ha ▸ h.address_ids
  address_fresh a hmem := by
    have hid := ha ▸ List.mem_map_of_mem hmem
    obtain ⟨a', ha', he⟩ := List.mem_map.mp hid
    exact hn ▸ he ▸ h.address_fresh a' ha'
  miner_ids := hm ▸ h.miner_ids
  miner_fresh m hmem := by
    have hid := hm ▸ List.mem_map_of_mem hmem
    obtain ⟨m', hm', he⟩ := List.mem_map.mp hid
    exact hn ▸ he ▸ h.miner_fresh m' hm'
  balance_range := hb

theorem map_addressId {f : MinerRow → MinerRow} (hf : ∀ m, (f m).addressId = m.addressId)
    (rows : List MinerRow) : (rows.map f).map (·.addressId) = rows.map (·.addressId) := by
  rw [List.map_map]
  exact List.map_congr_left fun m _ => hf m

theorem balanceOf_map {db db' : Db} {f : MinerRow → MinerRow}
    (hf : ∀ m, (f m).addressId = m.addressId) (hm : db'.miners = db.miners.map f) (miner : Nat) :
    db'.balanceOf miner =
      (db.miners.find? (fun m => decide (m.addressId = miner))).elim 0
        (fun m => (f m).matureBalance) := by
  have hcomp : (fun m => decide (m.addressId = miner)) ∘ f =
      fun m => decide (m.addressId = miner) := by
    funext m
    simp [hf]
  rw [balanceOf, hm, List.find?_map, hcomp]
  cases db.miners.find? (fun m => decide (m.addressId = miner)) <;> rfl

theorem balanceOf_of_mem {db : Db} (h : Keyed db) {m : MinerRow} (hm : m ∈ db.miners) :
    db.balanceOf m.addressId = m.matureBalance := by
  have hs : (db.miners.find? (fun r => decide (r.addressId = m.addressId))).isSome := by
    rw [List.find?_isSome]
    exact ⟨m, hm, by simp⟩
  obtain ⟨r, hr⟩ := Option.isSome_iff_exists.mp hs
  have hid : r.addressId = m.addressId := by simpa using List.find?_some hr
  have he : r = m := Table.eq_of_key h.miner_ids (List.mem_of_find?_eq_some hr) hm hid
  rw [balanceOf, hr, he]
  rfl

/-! ## The statements of the pool -/

theorem addMiner_keyed {db : Db} (h : Keyed db) (address : Bytes) (ali : Option Bytes)
    (minPayout joinTime : Nat) : Keyed (db.addMiner address ali minPayout joinTime).1 := by
  unfold addMiner
  split
  · constructor
    · exact Table.nodup_append_next h.address_ids h.address_fresh rfl
    · exact Table.lt_next_append_row h.address_fresh rfl
    · exact Table.nodup_append_next h.miner_ids h.miner_fresh rfl
    · exact Table.lt_next_append_row h.miner_fresh rfl
    · intro m hm
      rcases List.mem_append.mp hm with hm | hm
      · exact h.balance_range m hm
      · obtain rfl := List.mem_singleton.mp hm
        exact Nat.two_pow_pos 64
  · exact h

theorem addMiner_balanceOf (db : Db) (address : Bytes) (ali : Option Bytes)
    (minPayout joinTime miner : Nat) :
    (db.addMiner address ali minPayout joinTime).1.balanceOf miner = db.balanceOf miner := by
  unfold addMiner
  split
  · simp only [balanceOf, List.find?_append]
    cases db.miners.find? (fun m => decide (m.addressId = miner)) with
    | some m => rfl
    | none => by_cases hm : db.nextAddress = miner <;> simp [hm]
  · rfl

theorem addWorker_frame (db : Db) (minerId : Nat) (name : Bytes) (joinTime : Nat) :
    (db.addWorker minerId name joinTime).1.addresses = db.addresses ∧
      (db.addWorker minerId name joinTime).1.miners = db.miners ∧
      (db.addWorker minerId name joinTime).1.nextAddress = db.nextAddress := by
  unfold addWorker
  split <;> exact ⟨rfl, rfl, rfl⟩

theorem addBlock_frame (db : Db) (workerId minerId : Nat) (hash : Bytes)
    (reward timeMs durationMs height : Nat) (difficulty effortPercent : ℚ) :
    let db' := (db.addBlock workerId minerId hash reward timeMs durationMs height difficulty
      effortPercent).1
    db'.addresses = db.addresses ∧ db'.miners = db.miners ∧ db'.nextAddress = db.nextAddress := by
  unfold addBlock
  split <;> exact ⟨rfl, rfl, rfl⟩

theorem updateAlias_frame (db : Db) (ali : Bytes) (id : Nat) :
    (db.updateAlias ali id).1.addresses.map (·.id) = db.addresses.map (·.id) ∧
      (db.updateAlias ali id).1.miners = db.miners ∧
      (db.updateAlias ali id).1.nextAddress = db.nextAddress := by
  unfold updateAlias
  split
  · refine ⟨?_, rfl, rfl⟩
    rw [List.map_map]
    apply List.map_congr_left
    intro r _
    simp only [Function.comp_apply]
    split <;> rfl
  · exact ⟨rfl, rfl, rfl⟩

/-- `AddReward` writes the immature balance of the miner rows. -/
theorem addReward_frame (db : Db) (minerId blockId amount : Nat) (effort : ℚ) :
    let db' := (db.addReward minerId blockId amount effort).1
    db'.addresses = db.addresses ∧ db'.nextAddress = db.nextAddress ∧
      ∃ f : MinerRow → MinerRow, (∀ m, (f m).addressId = m.addressId) ∧
        (∀ m, (f m).matureBalance = m.matureBalance) ∧ db'.miners = db.miners.map f := by
  have hid : ∃ f : MinerRow → MinerRow, (∀ m, (f m).addressId = m.addressId) ∧
      (∀ m, (f m).matureBalance = m.matureBalance) ∧ db.miners = db.miners.map f :=
    ⟨id, fun _ => rfl, fun _ => rfl, (List.map_id _).symm⟩
  unfold addReward insertReward
  split_ifs
  · simp only [creditImmature]
    split
    · refine ⟨rfl, rfl, fun r => if r.addressId = minerId then
        { r with immatureBalance := r.immatureBalance + amount } else r, ?_, ?_, rfl⟩
      · intro m
        dsimp only
        split <;> rfl
      · intro m
        dsimp only
        split <;> rfl
    · exact ⟨rfl, rfl, hid⟩
  · exact ⟨rfl, rfl, hid⟩

theorem matureRewards_keyed {db : Db} (h : Keyed db) (blockId : Nat) (status : BlockStatus) :
    Keyed (db.matureRewards blockId status).1 := by
  unfold matureRewards
  split
  · rename_i hfits
    refine h.congr rfl (map_addressId (matureRow_addressId db blockId status) _) rfl ?_
    intro m hm
    obtain ⟨m, hmem, rfl⟩ := List.mem_map.mp hm
    have hfit := hfits m hmem
    unfold matureFits at hfit
    unfold matureRow
    split
    · exact h.balance_range m hmem
    · rename_i r hr
      rw [hr] at hfit
      exact hfit.2
  · exact h

/-- `MatureRewards` adds the joined reward to the balance. -/
theorem matureRewards_balanceOf (db : Db) (blockId : Nat) (status : BlockStatus) (miner : Nat) :
    (db.matureRewards blockId status).1.balanceOf miner =
      db.balanceOf miner + db.credit (.matureRewards blockId status) miner := by
  simp only [credit]
  unfold matureRewards
  split
  · rw [balanceOf_map (matureRow_addressId db blockId status) rfl, if_pos rfl, balanceOf]
    cases db.miners.find? (fun m => decide (m.addressId = miner)) with
    | none => rfl
    | some m =>
      simp only [Option.elim_some, matureRow]
      cases db.joinedReward blockId m <;> rfl
  · simp

theorem exec_keyed {db : Db} (h : Keyed db) (st : PoolStatement) : Keyed (db.exec st).1 := by
  cases st with
  | addMiner address ali minPayout joinTime => exact addMiner_keyed h address ali minPayout joinTime
  | addWorker minerId name joinTime =>
    obtain ⟨ha, hm, hn⟩ := addWorker_frame db minerId name joinTime
    exact h.congr (congrArg _ ha) (congrArg _ hm) hn (hm ▸ h.balance_range)
  | updateAlias ali id =>
    obtain ⟨ha, hm, hn⟩ := updateAlias_frame db ali id
    exact h.congr ha (congrArg _ hm) hn (hm ▸ h.balance_range)
  | addBlock workerId minerId hash reward timeMs durationMs height difficulty effortPercent =>
    obtain ⟨ha, hm, hn⟩ := addBlock_frame db workerId minerId hash reward timeMs durationMs height
      difficulty effortPercent
    exact h.congr (congrArg _ ha) (congrArg _ hm) hn (hm ▸ h.balance_range)
  | addReward minerId blockId amount effort =>
    obtain ⟨ha, hn, f, hid, hbal, hm⟩ := addReward_frame db minerId blockId amount effort
    refine h.congr (congrArg _ ha) ((congrArg _ hm).trans (map_addressId hid _)) hn ?_
    intro m hmem
    change m ∈ (db.addReward minerId blockId amount effort).1.miners at hmem
    rw [hm] at hmem
    obtain ⟨row, hrow, rfl⟩ := List.mem_map.mp hmem
    exact (hbal row).symm ▸ h.balance_range row hrow
  | matureRewards blockId status => exact matureRewards_keyed h blockId status
  | updateBlockStatus status id => exact h.congr rfl rfl rfl h.balance_range

/-- The miners are fewer than the ids of `address_id`, an `INT UNSIGNED` from 1 on. -/
def MinersCounted (db : Db) : Prop :=
  db.miners.length < db.nextAddress ∧ db.nextAddress ≤ uint32Size

theorem MinersCounted.congr {db db' : Db} (h : MinersCounted db)
    (hm : db'.miners.length = db.miners.length) (hn : db'.nextAddress = db.nextAddress) :
    MinersCounted db' := by
  rw [MinersCounted, hm, hn]
  exact h

theorem addMiner_minersCounted {db : Db} (h : MinersCounted db) (address : Bytes)
    (ali : Option Bytes) (minPayout joinTime : Nat) :
    MinersCounted (db.addMiner address ali minPayout joinTime).1 := by
  unfold addMiner
  split
  · rename_i hroom
    refine ⟨?_, hroom.1⟩
    have hlt := h.1
    simp only [List.length_append, List.length_singleton]
    omega
  · exact h

theorem exec_minersCounted {db : Db} (h : MinersCounted db) (st : PoolStatement) :
    MinersCounted (db.exec st).1 := by
  cases st with
  | addMiner address ali minPayout joinTime =>
    exact addMiner_minersCounted h address ali minPayout joinTime
  | addWorker minerId name joinTime =>
    obtain ⟨-, hm, hn⟩ := addWorker_frame db minerId name joinTime
    exact h.congr (congrArg _ hm) hn
  | updateAlias ali id =>
    obtain ⟨-, hm, hn⟩ := updateAlias_frame db ali id
    exact h.congr (congrArg _ hm) hn
  | addBlock workerId minerId hash reward timeMs durationMs height difficulty effortPercent =>
    obtain ⟨-, hm, hn⟩ := addBlock_frame db workerId minerId hash reward timeMs durationMs height
      difficulty effortPercent
    exact h.congr (congrArg _ hm) hn
  | addReward minerId blockId amount effort =>
    obtain ⟨-, hn, f, -, -, hm⟩ := addReward_frame db minerId blockId amount effort
    exact h.congr ((congrArg _ hm).trans (List.length_map f)) hn
  | matureRewards blockId status =>
    simp only [exec, matureRewards]
    split
    · exact h.congr (List.length_map _) rfl
    · exact h
  | updateBlockStatus status id => exact h.congr rfl rfl

/-- Every statement of the pool adds its credit to each balance. -/
theorem exec_balanceOf (db : Db) (st : PoolStatement) (miner : Nat) :
    (db.exec st).1.balanceOf miner = db.balanceOf miner + db.credit st miner := by
  have hsame : ∀ db' : Db, db'.miners = db.miners → db'.balanceOf miner = db.balanceOf miner :=
    fun db' hm => by rw [balanceOf, balanceOf, hm]
  cases st with
  | addMiner address ali minPayout joinTime =>
    exact addMiner_balanceOf db address ali minPayout joinTime miner
  | addWorker minerId name joinTime => exact hsame _ (addWorker_frame db minerId name joinTime).2.1
  | updateAlias ali id => exact hsame _ (updateAlias_frame db ali id).2.1
  | addBlock workerId minerId hash reward timeMs durationMs height difficulty effortPercent =>
    exact hsame _ (addBlock_frame db workerId minerId hash reward timeMs durationMs height
      difficulty effortPercent).2.1
  | addReward minerId blockId amount effort =>
    obtain ⟨-, -, f, hid, hbal, hm⟩ := addReward_frame db minerId blockId amount effort
    refine (balanceOf_map hid hm miner).trans ?_
    simp only [hbal, credit, Nat.add_zero]
    rfl
  | matureRewards blockId status => exact matureRewards_balanceOf db blockId status miner
  | updateBlockStatus status id => exact hsame _ rfl

end Db

/-- A database whose tables keep their constraints. -/
abbrev Tables := { db : Db // db.Keyed }

namespace Tables

def empty : Tables := ⟨Db.empty, by constructor <;> simp [Db.empty]⟩

def exec (tables : Tables) (st : PoolStatement) : Tables × Bool :=
  (⟨(tables.val.exec st).1, Db.exec_keyed tables.property st⟩, (tables.val.exec st).2)

end Tables
end SickPool.Persistence
