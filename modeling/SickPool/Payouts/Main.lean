import SickPool.Library.Run
import SickPool.Payouts.RoundShare
import SickPool.Persistence.Balances

/-!
# The payout program

`payouts/main.cpp` with the statements of `MySqlManager` it uses. It is a process of its
own, so the statements of the pool come between any two of its steps. A cycle loads the
balances, subtracts the fee, sends the transfer and only then writes the books; each SQL
call may fail, and the reply of the wallet may be lost after the transfer was executed.
-/
namespace SickPool.Payouts

open SickPool.Library SickPool.Persistence

structure PayoutRow where
  id : Nat
  txid : Bytes
  payeeAmount : Nat
  paidAmount : Nat
  txFee : Nat
  timeMs : Nat
  deriving DecidableEq

structure PayoutEntryRow where
  payoutId : Nat
  minerId : Nat
  amount : Nat
  deriving DecidableEq

structure PayoutStatsRow where
  count : Nat
  amount : Nat
  nextMs : Nat
  deriving DecidableEq

/-- The tables as the connection of the payout program sees them. -/
structure Books where
  tables : Tables
  payouts : List PayoutRow
  payoutEntries : List PayoutEntryRow
  payoutStats : PayoutStatsRow
  nextPayout : Nat
  lastInsertId : Nat
  deriving DecidableEq

namespace Books

def balanceOf (books : Books) (miner : Nat) : Nat := books.tables.val.balanceOf miner

/-- `IF(minimum_payout > minimum, minimum_payout, minimum)`. -/
def threshold (minimum : Nat) (m : MinerRow) : Nat :=
  if minimum < m.minimumPayout then m.minimumPayout else minimum

/-- The miner row joined with its address row. -/
def joinedAddress (db : Db) (m : MinerRow) : List Payee :=
  (db.addresses.filter (fun a => decide (a.id = m.addressId))).map
    (fun a => ⟨m.addressId, m.matureBalance, a.address⟩)

/-- `CALL GetUnpaidRewards`. -/
def getUnpaidRewards (db : Db) (minimum : Nat) : List Payee :=
  db.miners.flatMap fun m =>
    if threshold minimum m < m.matureBalance then joinedAddress db m else []

/-- `CALL AddPayout`: the payout row, then the statistics. -/
def addPayout (books : Books) (txid : Bytes) (payeeAmount paidAmount txFee timeMs : Nat) :
    Books × Bool :=
  if books.nextPayout < uint32Size ∧ txid.length ≤ 64 then
    let inserted := { books with
      payouts := books.payouts ++
        [⟨books.nextPayout, txid, payeeAmount, paidAmount, txFee, timeMs⟩]
      nextPayout := books.nextPayout + 1
      lastInsertId := books.nextPayout }
    if books.payoutStats.count + 1 < uint32Size ∧
        books.payoutStats.amount + paidAmount < uint64Size then
      ({ inserted with payoutStats := { books.payoutStats with
          count := books.payoutStats.count + 1
          amount := books.payoutStats.amount + paidAmount } }, true)
    else (inserted, false)
  else (books, false)

/-- `mature_balance = mature_balance - (amount + individual_fee)` on one row. -/
def debitRow (minerId debit : Nat) (m : MinerRow) : MinerRow :=
  if m.addressId = minerId then { m with matureBalance := m.matureBalance - debit } else m

theorem debitRow_addressId (minerId debit : Nat) (m : MinerRow) :
    (debitRow minerId debit m).addressId = m.addressId := by
  unfold debitRow
  split <;> rfl

def debit (tables : Tables) (minerId amount : Nat) : Tables :=
  ⟨{ tables.val with miners := tables.val.miners.map (debitRow minerId amount) },
    tables.property.congr rfl (Db.map_addressId (debitRow_addressId minerId amount) _) rfl
      fun m hm => by
        obtain ⟨row, hrow, rfl⟩ := List.mem_map.mp hm
        have hlt := tables.property.balance_range row hrow
        unfold debitRow
        split
        · exact lt_of_le_of_lt (Nat.sub_le _ _) hlt
        · exact hlt⟩

/-- `CALL AddPayoutEntry`: the entry, then the balance, which may not go below 0. -/
def addPayoutEntry (books : Books) (payoutId minerId amount individualFee : Nat) :
    Books × Bool :=
  if (∃ r ∈ books.payouts, r.id = payoutId) ∧
      (∃ m ∈ books.tables.val.miners, m.addressId = minerId) then
    let inserted := { books with
      payoutEntries := books.payoutEntries ++ [⟨payoutId, minerId, amount⟩] }
    if amount + individualFee < uint64Size ∧
        ∀ m ∈ books.tables.val.miners, m.addressId = minerId →
          amount + individualFee ≤ m.matureBalance then
      ({ inserted with tables := debit books.tables minerId (amount + individualFee) }, true)
    else (inserted, false)
  else (books, false)

end Books

/-- `100000000` for the fee in `main`, and the interval of the configuration. -/
structure PaymentConfig where
  txFee : Nat
  paymentIntervalSeconds : Nat

/-- Where the loop of `main` is: before a payment, or before the call of a cycle that the
name says. -/
inductive Phase where
  | waiting
  | updateNextPayout (info : PayoutInfo) (payees : List Payee)
  | transfer (info : PayoutInfo) (payees : List Payee) (individualFee : Nat)
  | addPayout (info : PayoutInfo) (payees : List Payee) (individualFee : Nat)
  | getLastId (info : PayoutInfo) (payees : List Payee) (individualFee : Nat)
  | addPayoutEntry (info : PayoutInfo) (payees : List Payee) (individualFee : Nat)
  | exited
  deriving DecidableEq

/-- What becomes of a transfer: the wallet does not execute it; it does, but `Transfer`
cannot read the reply; it does, and the reply has the transaction's hash. -/
inductive TransferReply where
  | rejected
  | unread
  | replied (txid : Bytes)

inductive PayoutEvent where
  | pool (up : Bool) (st : PoolStatement)
  /-- `total` is what the field of the new `PayoutInfo` happens to hold. -/
  | loadUnpaidRewards (up : Bool) (total : Nat)
  | updateNextPayout (up : Bool)
  | transfer (reply : TransferReply)
  | addPayout (up : Bool)
  | getLastId (up : Bool)
  | addPayoutEntry (up : Bool)
  | restart (nextPayment : Nat)

/-- The program and the books, with what was ever credited to each mature balance and what
was sent to each miner with its individual fee. -/
structure PayoutState where
  books : Books
  nextPayment : Nat
  phase : Phase
  credited : Nat → Nat
  sent : Nat → Nat

/-- The amount of one miner in a list of payees, each with its fee. -/
def owed (individualFee : Nat) (payees : List Payee) (miner : Nat) : Nat :=
  Table.sumWhere (fun p => decide (p.minerId = miner)) (·.amountClean + individualFee) payees

/-- `amount_clean - individual_fee` in `uint64_t`, through an `int64_t` and back. -/
def subtractFee (individualFee : Nat) (p : Payee) : Payee :=
  { p with amountClean := (p.amountClean + (uint64Size - individualFee % uint64Size)) % uint64Size }

namespace PayoutState

def start (books : Books) (nextPayment : Nat) : PayoutState :=
  ⟨books, nextPayment, .waiting, books.balanceOf, fun _ => 0⟩

/-- One step of the program or of the pool. A step that is not next does nothing. -/
def step (cfg : PaymentConfig) (s : PayoutState) : PayoutEvent → PayoutState
  | .pool up st =>
    if up then
      { s with
        books := { s.books with tables := (s.books.tables.exec st).1 }
        credited := fun miner => s.credited miner + s.books.tables.val.credit st miner }
    else s
  | .loadUnpaidRewards up total => match s.phase with
    | .waiting =>
      if up then
        { s with
          nextPayment := s.nextPayment + cfg.paymentIntervalSeconds
          phase := .updateNextPayout ⟨[], cfg.txFee, s.nextPayment * 1000, total, 0⟩
            (Books.getUnpaidRewards s.books.tables.val cfg.txFee) }
      else { s with phase := .exited }
    | _ => s
  | .updateNextPayout up => match s.phase with
    | .updateNextPayout info payees =>
      let stats := { s.books.payoutStats with nextMs := s.nextPayment * 1000 }
      let books := if up then { s.books with payoutStats := stats } else s.books
      if payees = [] then { s with books := books, phase := .waiting }
      else
        let individualFee := info.txFee / payees.length
        let charged := payees.map (subtractFee individualFee)
        let total := charged.foldl (fun sum p => (sum + p.amountClean) % uint64Size) info.total
        { s with
          books := books
          phase := .transfer { info with total := total } charged individualFee }
    | _ => s
  | .transfer reply => match s.phase with
    | .transfer info payees individualFee => match reply with
      | .rejected => { s with phase := .waiting }
      | .unread =>
        { s with
          phase := .waiting
          sent := fun miner => s.sent miner + owed individualFee payees miner }
      | .replied txid =>
        { s with
          phase := .addPayout { info with txid := txid } payees individualFee
          sent := fun miner => s.sent miner + owed individualFee payees miner }
    | _ => s
  | .addPayout up => match s.phase with
    | .addPayout info payees individualFee =>
      match if up then s.books.addPayout info.txid (payees.length % uint32Size) info.total
          info.txFee info.time else (s.books, false) with
      | (books, true) => { s with books := books, phase := .getLastId info payees individualFee }
      | (books, false) => { s with books := books, phase := .waiting }
    | _ => s
  | .getLastId up => match s.phase with
    | .getLastId info payees individualFee =>
      let info := { info with id := s.books.lastInsertId }
      if up then { s with phase := .addPayoutEntry info payees individualFee }
      else { s with phase := .waiting }
    | _ => s
  | .addPayoutEntry up => match s.phase with
    | .addPayoutEntry info (p :: rest) individualFee =>
      match if up then s.books.addPayoutEntry info.id p.minerId p.amountClean individualFee
          else (s.books, false) with
      | (books, true) =>
        { s with
          books := books
          phase := if rest = [] then .waiting else .addPayoutEntry info rest individualFee }
      | (books, false) => { s with books := books, phase := .waiting }
    | _ => s
  | .restart nextPayment => match s.phase with
    | .exited => { s with nextPayment := nextPayment, phase := .waiting }
    | _ => s

end PayoutState
end SickPool.Payouts
