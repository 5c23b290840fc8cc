import SickPool.Payouts.Main

/-!
# No balance is paid twice

For each miner, the balance and what was sent to it are what was credited to it, except
between a transfer and the entries that book it. A cycle that stops in between leaves the
paid balances as they were, and the next one pays them again.
-/
namespace SickPool.Payouts

open SickPool.Library SickPool.Library.Run SickPool.Persistence

/-! ## Amounts owed to a miner -/

@[simp] theorem owed_nil (fee miner : Nat) : owed fee [] miner = 0 := rfl

theorem owed_cons (fee : Nat) (p : Payee) (payees : List Payee) (miner : Nat) :
    owed fee (p :: payees) miner =
      (if p.minerId = miner then p.amountClean + fee else 0) + owed fee payees miner := by
  simp [owed, Table.sumWhere_cons]

theorem owed_append (fee : Nat) (as bs : List Payee) (miner : Nat) :
    owed fee (as ++ bs) miner = owed fee as miner + owed fee bs miner :=
  Table.sumWhere_append _ _ _ _

theorem amount_le_owed (fee : Nat) {p : Payee} {payees : List Payee} (h : p ∈ payees) :
    p.amountClean + fee ≤ owed fee payees p.minerId := by
  obtain ⟨as, bs, rfl⟩ := List.append_of_mem h
  rw [owed_append, owed_cons, if_pos rfl]
  omega

theorem owed_eq_zero {fee : Nat} {payees : List Payee} {miner : Nat}
    (h : ∀ p ∈ payees, p.minerId ≠ miner) : owed fee payees miner = 0 :=
  Table.sumWhere_eq_zero fun p hp => by simpa using h p hp

/-- The fee is below a balance, so the subtraction does not wrap. -/
theorem subtractFee_amount {fee : Nat} {p : Payee} (hfee : fee ≤ p.amountClean)
    (hrange : p.amountClean < uint64Size) :
    (subtractFee fee p).amountClean = p.amountClean - fee := by
  have hlt : fee < uint64Size := lt_of_le_of_lt hfee hrange
  simp only [subtractFee, Nat.mod_eq_of_lt hlt]
  rw [show p.amountClean + (uint64Size - fee) = p.amountClean - fee + uint64Size by omega,
    Nat.add_mod_right, Nat.mod_eq_of_lt (lt_of_le_of_lt (Nat.sub_le _ _) hrange)]

/-- Net amounts with the fee are the loaded balances. -/
theorem owed_subtractFee {fee : Nat} {payees : List Payee}
    (h : ∀ p ∈ payees, fee ≤ p.amountClean ∧ p.amountClean < uint64Size) (miner : Nat) :
    owed fee (payees.map (subtractFee fee)) miner = owed 0 payees miner := by
  induction payees with
  | nil => rfl
  | cons p rest ih =>
    have hp := h p (by simp)
    rw [List.map_cons, owed_cons, owed_cons, ih fun q hq => h q (by simp [hq]),
      subtractFee_amount hp.1 hp.2, Nat.sub_add_cancel hp.1]
    rfl

/-! ## The balances that are loaded -/

theorem le_threshold (minimum : Nat) (m : MinerRow) : minimum ≤ Books.threshold minimum m := by
  unfold Books.threshold
  split <;> omega

theorem mem_getUnpaidRewards {db : Db} {minimum : Nat} {p : Payee}
    (h : p ∈ Books.getUnpaidRewards db minimum) :
    ∃ m ∈ db.miners, p.minerId = m.addressId ∧ p.amountClean = m.matureBalance ∧
      minimum < m.matureBalance := by
  obtain ⟨m, hm, hp⟩ := List.mem_flatMap.mp h
  split at hp
  · rename_i hmin
    obtain ⟨a, -, rfl⟩ := List.mem_map.mp hp
    exact ⟨m, hm, rfl, rfl, lt_of_le_of_lt (le_threshold minimum m) hmin⟩
  · cases hp

/-- A miner row is joined with one address row. -/
theorem joinedAddress_length {db : Db} (h : db.Keyed) (m : MinerRow) :
    (Books.joinedAddress db m).length ≤ 1 := by
  have hone := Table.sumWhere_key AddressRow.id (fun _ => 1) m.addressId h.address_ids
  rw [Table.sumWhere, List.map_const', List.sum_replicate_nat, Nat.mul_one] at hone
  rw [Books.joinedAddress, List.length_map, hone]
  cases db.addresses.find? (fun a => decide (a.id = m.addressId)) <;> simp

/-- So a miner is loaded once. -/
theorem owed_joinedAddress {db : Db} (h : db.Keyed) (m : MinerRow) (miner : Nat) :
    owed 0 (Books.joinedAddress db m) miner ≤
      if m.addressId = miner then m.matureBalance else 0 := by
  have hlen := joinedAddress_length h m
  unfold Books.joinedAddress at hlen ⊢
  rw [List.length_map] at hlen
  generalize db.addresses.filter (fun a => decide (a.id = m.addressId)) = joined at hlen
  rcases joined with _ | ⟨a, _ | ⟨b, rest⟩⟩
  · exact Nat.zero_le _
  · rw [List.map_singleton, owed_cons, owed_nil]
    simp
  · simp at hlen

/-- There are no more payees than miners. -/
theorem getUnpaidRewards_length {db : Db} (h : db.Keyed) (minimum : Nat) :
    (Books.getUnpaidRewards db minimum).length ≤ db.miners.length := by
  have hrows : ∀ rows : List MinerRow,
      (rows.flatMap fun m => if Books.threshold minimum m < m.matureBalance
        then Books.joinedAddress db m else []).length ≤ rows.length := by
    intro rows
    induction rows with
    | nil => exact Nat.le_refl 0
    | cons m rows ih =>
      have hone : (if Books.threshold minimum m < m.matureBalance
          then Books.joinedAddress db m else []).length ≤ 1 := by
        split
        · exact joinedAddress_length h m
        · exact Nat.zero_le 1
      rw [List.flatMap_cons, List.length_append, List.length_cons]
      omega
  exact hrows db.miners

/-- What is loaded for a miner is at most its balance. -/
theorem owed_getUnpaidRewards_le {db : Db} (h : db.Keyed) (minimum miner : Nat) :
    owed 0 (Books.getUnpaidRewards db minimum) miner ≤ db.balanceOf miner := by
  have hrows : ∀ rows : List MinerRow,
      owed 0 (rows.flatMap fun m => if Books.threshold minimum m < m.matureBalance
        then Books.joinedAddress db m else []) miner ≤
      Table.sumWhere (fun m => decide (m.addressId = miner)) (·.matureBalance) rows := by
    intro rows
    induction rows with
    | nil => exact Nat.le_refl 0
    | cons m rows ih =>
      rw [List.flatMap_cons, owed_append, Table.sumWhere_cons]
      simp only [decide_eq_true_eq]
      refine Nat.add_le_add ?_ ih
      split
      · exact owed_joinedAddress h m miner
      · exact Nat.zero_le _
  exact le_of_le_of_eq (hrows db.miners)
    (Table.sumWhere_key MinerRow.addressId MinerRow.matureBalance miner h.miner_ids)

/-- A payee is loaded with exactly its balance. -/
theorem owed_getUnpaidRewards_mem {db : Db} (h : db.Keyed) {minimum : Nat} {p : Payee}
    (hp : p ∈ Books.getUnpaidRewards db minimum) :
    owed 0 (Books.getUnpaidRewards db minimum) p.minerId = db.balanceOf p.minerId := by
  obtain ⟨m, hm, hid, hamount, -⟩ := mem_getUnpaidRewards hp
  refine Nat.le_antisymm (owed_getUnpaidRewards_le h minimum p.minerId) ?_
  calc db.balanceOf p.minerId = p.amountClean := by
        rw [hid, Db.balanceOf_of_mem h hm, hamount]
    _ ≤ owed 0 (Books.getUnpaidRewards db minimum) p.minerId := amount_le_owed 0 hp

theorem loaded_range {db : Db} (h : db.Keyed) {minimum : Nat} {p : Payee}
    (hp : p ∈ Books.getUnpaidRewards db minimum) :
    minimum < p.amountClean ∧ p.amountClean < uint64Size := by
  obtain ⟨m, hm, -, hamount, hmin⟩ := mem_getUnpaidRewards hp
  exact ⟨hamount ▸ hmin, hamount ▸ h.balance_range m hm⟩

/-! ## The statements of the program -/

namespace Books

theorem addPayout_tables (books : Books) (txid : Bytes)
    (payeeAmount paidAmount txFee timeMs : Nat) :
    (books.addPayout txid payeeAmount paidAmount txFee timeMs).1.tables = books.tables := by
  unfold addPayout
  split_ifs <;> rfl

theorem debit_balanceOf (tables : Tables) (minerId amount miner : Nat) :
    (debit tables minerId amount).val.balanceOf miner =
      if minerId = miner then tables.val.balanceOf miner - amount
      else tables.val.balanceOf miner := by
  have hmap : (debit tables minerId amount).val.miners =
      tables.val.miners.map (debitRow minerId amount) := rfl
  rw [Db.balanceOf_map (debitRow_addressId minerId amount) hmap, Db.balanceOf]
  cases hf : tables.val.miners.find? (fun m => decide (m.addressId = miner)) with
  | none => simp
  | some m =>
    have hid : m.addressId = miner := by simpa using List.find?_some hf
    simp only [Option.elim_some, debitRow, hid, eq_comm]
    split <;> rfl

/-- An entry that succeeds takes amount and fee from the balance of its miner. -/
theorem addPayoutEntry_ok {books books' : Books} {payoutId minerId amount fee : Nat}
    (h : books.addPayoutEntry payoutId minerId amount fee = (books', true)) (miner : Nat) :
    books'.balanceOf miner + (if minerId = miner then amount + fee else 0) =
      books.balanceOf miner := by
  unfold addPayoutEntry at h
  split at h
  · rename_i hrefs
    dsimp only at h
    split at h
    · rename_i hrange
      obtain ⟨m, hm, rfl⟩ := hrefs.2
      have hle : amount + fee ≤ books.balanceOf m.addressId := by
        rw [balanceOf, Db.balanceOf_of_mem books.tables.property hm]
        exact hrange.2 m hm rfl
      obtain rfl := (Prod.mk.inj h).1
      simp only [balanceOf, debit_balanceOf]
      split
      · rename_i hid
        subst hid
        exact Nat.sub_add_cancel hle
      · rfl
    · cases h
  · cases h

theorem addPayoutEntry_failed {books books' : Books} {payoutId minerId amount fee : Nat}
    (h : books.addPayoutEntry payoutId minerId amount fee = (books', false)) :
    books'.tables = books.tables := by
  unfold addPayoutEntry at h
  split at h
  · dsimp only at h
    split at h
    · cases h
    · obtain rfl := (Prod.mk.inj h).1
      rfl
  · obtain rfl := (Prod.mk.inj h).1
    rfl

end Books

/-! ## The invariant -/

namespace Phase

def payees : Phase → List Payee
  | .waiting | .exited => []
  | .updateNextPayout _ payees | .transfer _ payees _ | .addPayout _ payees _
  | .getLastId _ payees _ | .addPayoutEntry _ payees _ => payees

def fee : Phase → Nat
  | .waiting | .exited | .updateNextPayout _ _ => 0
  | .transfer _ _ fee | .addPayout _ _ fee | .getLastId _ _ fee | .addPayoutEntry _ _ fee => fee

/-- The money has left and the entries are not all written. -/
def booking : Phase → Bool
  | .waiting | .exited | .updateNextPayout _ _ | .transfer _ _ _ => false
  | .addPayout _ _ _ | .getLastId _ _ _ | .addPayoutEntry _ _ _ => true

/-- What the cycle has to take from the balance of a miner. -/
def outstanding (phase : Phase) (miner : Nat) : Nat := owed phase.fee phase.payees miner

end Phase

namespace PayoutState

/-- What was sent never exceeds what was credited, and between two cycles what is left of
the balance does not contain what was sent. -/
structure NotPaidTwice (s : PayoutState) : Prop where
  sent_le : ∀ miner, s.sent miner ≤ s.credited miner
  settled : s.phase = .waiting → ∀ miner,
    s.books.balanceOf miner + s.sent miner ≤ s.credited miner

structure LedgerInv (s : PayoutState) : Prop where
  ledger : ∀ miner, s.books.balanceOf miner + s.sent miner =
    s.credited miner + if s.phase.booking then s.phase.outstanding miner else 0
  covered : ∀ miner, s.phase.outstanding miner ≤ s.books.balanceOf miner
  loaded : ∀ info payees, s.phase = .updateNextPayout info payees →
    ∀ p ∈ payees, info.txFee < p.amountClean ∧ p.amountClean < uint64Size
  charged : s.phase.booking ∨ (∃ info payees fee, s.phase = .transfer info payees fee) →
    s.phase.payees ≠ [] ∧ ∀ p ∈ s.phase.payees, 0 < p.amountClean

/-- A transfer that is executed is booked: its reply is read and each call that writes the
books succeeds. -/
def BooksTransfer (s : PayoutState) : PayoutEvent → Prop
  | .transfer .unread => ∀ info payees fee, s.phase ≠ .transfer info payees fee
  | .addPayout up => ∀ info payees fee, s.phase = .addPayout info payees fee →
      up = true ∧ (s.books.addPayout info.txid (payees.length % uint32Size) info.total info.txFee
        info.time).2 = true
  | .getLastId up => ∀ info payees fee, s.phase = .getLastId info payees fee → up = true
  | .addPayoutEntry up => ∀ info p rest fee, s.phase = .addPayoutEntry info (p :: rest) fee →
      up = true ∧ (s.books.addPayoutEntry info.id p.minerId p.amountClean fee).2 = true
  | _ => True

theorem LedgerInv.notPaidTwice {s : PayoutState} (h : LedgerInv s) : NotPaidTwice s where
  sent_le miner := by
    have hledger := h.ledger miner
    have hcovered := h.covered miner
    split at hledger <;> omega
  settled hwait miner := by
    have hledger := h.ledger miner
    rw [hwait] at hledger
    exact hledger.le

theorem ledgerInv_start (books : Books) (nextPayment : Nat) :
    LedgerInv (start books nextPayment) where
  ledger _ := rfl
  covered _ := Nat.zero_le _
  loaded _ _ h := by cases h
  charged h := by
    rcases h with h | ⟨_, _, _, h⟩ <;> cases h

/-- Before the money leaves, a balance is what was credited and not sent. -/
theorem LedgerInv.unsent {s : PayoutState} (h : LedgerInv s) (hs : s.phase.booking = false)
    (miner : Nat) : s.books.balanceOf miner + s.sent miner = s.credited miner := by
  have hledger := h.ledger miner
  rw [hs] at hledger
  exact hledger

/-- A cycle that is over, or did not send anything. -/
theorem LedgerInv.idle {s : PayoutState} (hphase : s.phase = .waiting ∨ s.phase = .exited)
    (h : ∀ miner, s.books.balanceOf miner + s.sent miner = s.credited miner) : LedgerInv s := by
  rcases hphase with hphase | hphase <;> refine ⟨?_, ?_, ?_, ?_⟩ <;>
    simp [hphase, Phase.booking, Phase.outstanding, Phase.payees, h]

/-- A cycle that is given up while there is something to book is paid again. -/
theorem not_notPaidTwice {s : PayoutState} (hphase : s.phase = .waiting) (fee : Nat)
    {payees : List Payee} (hne : payees ≠ []) (hpos : ∀ p ∈ payees, 0 < p.amountClean)
    (h : ∀ miner, s.books.balanceOf miner + s.sent miner =
      s.credited miner + owed fee payees miner) : ¬ NotPaidTwice s := by
  intro hnot
  obtain ⟨p, hp⟩ := List.exists_mem_of_ne_nil payees hne
  have hsettled := hnot.settled hphase p.minerId
  have howed := amount_le_owed fee hp
  have hp0 := hpos p hp
  have hsum := h p.minerId
  omega

/-! ## The steps -/

variable {cfg : PaymentConfig} {s : PayoutState}

theorem ledgerInv_pool (h : LedgerInv s) (up : Bool) (st : PoolStatement) :
    LedgerInv (step cfg s (.pool up st)) := by
  cases up with
  | false => exact h
  | true =>
    have hbal : ∀ miner, (step cfg s (.pool true st)).books.balanceOf miner =
        s.books.balanceOf miner + s.books.tables.val.credit st miner :=
      Db.exec_balanceOf s.books.tables.val st
    refine ⟨fun miner => ?_, fun miner => ?_, h.loaded, h.charged⟩
    · have hledger := h.ledger miner
      rw [hbal]
      simp only [step, ↓reduceIte]
      omega
    · rw [hbal]
      exact le_trans (h.covered miner) (Nat.le_add_right _ _)

theorem ledgerInv_load (h : LedgerInv s) (up : Bool) (total : Nat) :
    LedgerInv (step cfg s (.loadUnpaidRewards up total)) := by
  cases hphase : s.phase with
  | waiting =>
    have hledger := h.unsent (by rw [hphase]; rfl)
    simp only [step, hphase]
    cases up with
    | false => exact .idle (.inr rfl) hledger
    | true =>
      refine ⟨hledger, fun miner => ?_, ?_, ?_⟩
      · exact owed_getUnpaidRewards_le s.books.tables.property cfg.txFee miner
      · intro info payees hp p hmem
        obtain ⟨rfl, rfl⟩ := Phase.updateNextPayout.inj hp
        exact loaded_range s.books.tables.property hmem
      · rintro (hb | ⟨_, _, _, hb⟩) <;> cases hb
  | _ => simpa only [step, hphase] using h

theorem ledgerInv_updateNextPayout (h : LedgerInv s) (up : Bool) :
    LedgerInv (step cfg s (.updateNextPayout up)) := by
  cases hphase : s.phase with
  | updateNextPayout info payees =>
    have hledger := h.unsent (by rw [hphase]; rfl)
    have hcovered : ∀ miner, owed 0 payees miner ≤ s.books.balanceOf miner := by
      simpa [hphase, Phase.outstanding, Phase.payees, Phase.fee] using h.covered
    have hloaded := h.loaded info payees hphase
    have hbal : ∀ miner, (step cfg s (.updateNextPayout up)).books.balanceOf miner =
        s.books.balanceOf miner := by
      intro miner
      simp only [step, hphase]
      split_ifs <;> rfl
    by_cases hne : payees = []
    · refine .idle (.inl ?_) fun miner => ?_
      · simp only [step, hphase, hne, ↓reduceIte]
      · rw [hbal]
        simpa only [step, hphase, hne, ↓reduceIte] using hledger miner
    · have hfee : ∀ p ∈ payees, info.txFee / payees.length < p.amountClean :=
        fun p hp => lt_of_le_of_lt (Nat.div_le_self _ _) (hloaded p hp).1
      have howed : ∀ miner, owed (info.txFee / payees.length)
          (payees.map (subtractFee (info.txFee / payees.length))) miner = owed 0 payees miner :=
        owed_subtractFee fun p hp => ⟨(hfee p hp).le, (hloaded p hp).2⟩
      refine ⟨fun miner => ?_, fun miner => ?_, ?_, fun _ => ?_⟩
      · rw [hbal]
        simp only [step, hphase, hne, ↓reduceIte]
        exact hledger miner
      · rw [hbal]
        simp only [step, hphase, hne, ↓reduceIte]
        exact le_of_eq_of_le (howed miner) (hcovered miner)
      · intro info' payees' hp
        simp only [step, hphase, hne, ↓reduceIte] at hp
        cases hp
      · simp only [step, hphase, hne, ↓reduceIte, Phase.payees]
        refine ⟨by simpa using hne, fun q hq => ?_⟩
        obtain ⟨p, hp, rfl⟩ := List.mem_map.mp hq
        rw [subtractFee_amount (hfee p hp).le (hloaded p hp).2]
        exact Nat.sub_pos_of_lt (hfee p hp)
  | _ => simpa only [step, hphase] using h

theorem ledgerInv_transfer (h : LedgerInv s) (reply : TransferReply)
    (hok : BooksTransfer s (.transfer reply)) : LedgerInv (step cfg s (.transfer reply)) := by
  cases hphase : s.phase with
  | transfer info payees fee =>
    have hledger := h.unsent (by rw [hphase]; rfl)
    have hcharged := h.charged (.inr ⟨info, payees, fee, hphase⟩)
    have hcovered := h.covered
    rw [hphase] at hcharged hcovered
    simp only [step, hphase]
    cases reply with
    | rejected => exact .idle (.inl rfl) hledger
    | unread => exact absurd hphase (hok info payees fee)
    | replied txid =>
      refine ⟨fun miner => ?_, hcovered, fun _ _ hp => (by cases hp), fun _ => hcharged⟩
      have hsum := hledger miner
      change s.books.balanceOf miner + (s.sent miner + owed fee payees miner) =
        s.credited miner + owed fee payees miner
      omega
  | _ => simpa only [step, hphase] using h

theorem transfer_unread (h : LedgerInv s) {info : PayoutInfo} {payees : List Payee} {fee : Nat}
    (hphase : s.phase = .transfer info payees fee) :
    ¬ NotPaidTwice (step cfg s (.transfer .unread)) := by
  have hledger := h.unsent (by rw [hphase]; rfl)
  have hcharged := h.charged (.inr ⟨info, payees, fee, hphase⟩)
  rw [hphase] at hcharged
  simp only [step, hphase]
  refine not_notPaidTwice rfl fee hcharged.1 hcharged.2 fun miner => ?_
  have hsum := hledger miner
  change s.books.balanceOf miner + (s.sent miner + owed fee payees miner) =
    s.credited miner + owed fee payees miner
  omega

/-- The next call of a cycle that is booked keeps the ledger when it writes no balance. -/
theorem LedgerInv.booked {s' : PayoutState} (h : LedgerInv s) (hs : s.phase.booking = true)
    (hs' : s'.phase.booking = true) (htables : s'.books.tables = s.books.tables)
    (hcredited : s'.credited = s.credited) (hsent : s'.sent = s.sent)
    (hpayees : s'.phase.payees = s.phase.payees) (hfee : s'.phase.fee = s.phase.fee) :
    LedgerInv s' := by
  have hout : s'.phase.outstanding = s.phase.outstanding := by
    funext miner
    rw [Phase.outstanding, Phase.outstanding, hpayees, hfee]
  refine ⟨fun miner => ?_, fun miner => ?_, ?_, fun _ => ?_⟩
  · have hledger := h.ledger miner
    rw [if_pos hs] at hledger
    rw [if_pos hs', Books.balanceOf, htables, hcredited, hsent, hout]
    exact hledger
  · rw [Books.balanceOf, htables, hout]
    exact h.covered miner
  · intro info payees hp
    rw [hp] at hs'
    cases hs'
  · rw [hpayees]
    exact h.charged (.inl hs)

/-- A cycle that stops while it is booked. -/
theorem LedgerInv.givenUp {s' : PayoutState} (h : LedgerInv s) (hs : s.phase.booking = true)
    (hs' : s'.phase = .waiting) (htables : s'.books.tables = s.books.tables)
    (hcredited : s'.credited = s.credited) (hsent : s'.sent = s.sent) : ¬ NotPaidTwice s' := by
  have hcharged := h.charged (.inl hs)
  refine not_notPaidTwice hs' s.phase.fee hcharged.1 hcharged.2 fun miner => ?_
  have hledger := h.ledger miner
  rw [if_pos hs] at hledger
  rw [Books.balanceOf, htables, hcredited, hsent]
  exact hledger

theorem ledgerInv_addPayout (h : LedgerInv s) (up : Bool) (hok : BooksTransfer s (.addPayout up)) :
    LedgerInv (step cfg s (.addPayout up)) := by
  cases hphase : s.phase with
  | addPayout info payees fee =>
    obtain ⟨rfl, hadd⟩ := hok info payees fee hphase
    have htables := s.books.addPayout_tables info.txid (payees.length % uint32Size) info.total
      info.txFee info.time
    simp only [step, hphase, ↓reduceIte]
    split
    · rename_i books hb
      rw [hb] at htables
      refine h.booked ?_ rfl htables rfl rfl ?_ ?_ <;> rw [hphase] <;> rfl
    · rename_i books hb
      rw [hb] at hadd
      cases hadd
  | _ => simpa only [step, hphase] using h

theorem addPayout_failed (h : LedgerInv s) (up : Bool) (hbad : ¬ BooksTransfer s (.addPayout up)) :
    ¬ NotPaidTwice (step cfg s (.addPayout up)) := by
  cases hphase : s.phase with
  | addPayout info payees fee =>
    have htables := s.books.addPayout_tables info.txid (payees.length % uint32Size) info.total
      info.txFee info.time
    have hs : s.phase.booking = true := by rw [hphase]; rfl
    simp only [step, hphase]
    cases up with
    | false => exact h.givenUp hs rfl rfl rfl rfl
    | true =>
      simp only [↓reduceIte]
      split
      · rename_i books hb
        refine absurd ?_ hbad
        intro info' payees' fee' hp
        obtain ⟨rfl, rfl, rfl⟩ := Phase.addPayout.inj (hphase.symm.trans hp)
        exact ⟨rfl, by rw [hb]⟩
      · rename_i books hb
        rw [hb] at htables
        exact h.givenUp hs rfl htables rfl rfl
  | _ =>
    refine absurd ?_ hbad
    intro info payees fee hp
    rw [hphase] at hp
    cases hp

theorem ledgerInv_getLastId (h : LedgerInv s) (up : Bool) (hok : BooksTransfer s (.getLastId up)) :
    LedgerInv (step cfg s (.getLastId up)) := by
  cases hphase : s.phase with
  | getLastId info payees fee =>
    obtain rfl := hok info payees fee hphase
    simp only [step, hphase, ↓reduceIte]
    refine h.booked ?_ rfl rfl rfl rfl ?_ ?_ <;> rw [hphase] <;> rfl
  | _ => simpa only [step, hphase] using h

theorem getLastId_failed (h : LedgerInv s) (up : Bool) (hbad : ¬ BooksTransfer s (.getLastId up)) :
    ¬ NotPaidTwice (step cfg s (.getLastId up)) := by
  cases hphase : s.phase with
  | getLastId info payees fee =>
    have hs : s.phase.booking = true := by rw [hphase]; rfl
    cases up with
    | false =>
      simp only [step, hphase, Bool.false_eq_true, ↓reduceIte]
      exact h.givenUp hs rfl rfl rfl rfl
    | true => exact absurd (fun _ _ _ _ => rfl) hbad
  | _ =>
    refine absurd ?_ hbad
    intro info payees fee hp
    rw [hphase] at hp
    cases hp

theorem ledgerInv_addPayoutEntry (h : LedgerInv s) (up : Bool)
    (hok : BooksTransfer s (.addPayoutEntry up)) : LedgerInv (step cfg s (.addPayoutEntry up)) := by
  cases hphase : s.phase with
  | addPayoutEntry info payees fee =>
    cases payees with
    | nil => simpa only [step, hphase] using h
    | cons p rest =>
      obtain ⟨rfl, hadd⟩ := hok info p rest fee hphase
      have hledger := h.ledger
      have hcovered := h.covered
      have hcharged := (h.charged (.inl (by rw [hphase]; rfl))).2
      simp only [hphase, Phase.booking, Phase.outstanding, Phase.payees, Phase.fee, owed_cons,
        ↓reduceIte] at hledger hcovered hcharged
      simp only [step, hphase, ↓reduceIte]
      split
      · rename_i books hb
        have hdebit := Books.addPayoutEntry_ok hb
        by_cases hrest : rest = []
        · subst hrest
          refine .idle (.inl rfl) fun miner => ?_
          have hb := hdebit miner
          have hl := hledger miner
          simp only [owed_nil, Nat.add_zero] at hl
          dsimp only
          omega
        · simp only [hrest, ↓reduceIte]
          refine ⟨fun miner => ?_, fun miner => ?_, fun _ _ hp => (by cases hp), fun _ => ?_⟩
          · have hb := hdebit miner
            have hl := hledger miner
            change books.balanceOf miner + s.sent miner = s.credited miner + owed fee rest miner
            omega
          · have hb := hdebit miner
            have hc := hcovered miner
            change owed fee rest miner ≤ books.balanceOf miner
            omega
          · exact ⟨hrest, fun q hq => hcharged q (List.mem_cons_of_mem p hq)⟩
      · rename_i books hb
        rw [hb] at hadd
        cases hadd
  | _ => simpa only [step, hphase] using h

theorem addPayoutEntry_failed (h : LedgerInv s) (up : Bool)
    (hbad : ¬ BooksTransfer s (.addPayoutEntry up)) :
    ¬ NotPaidTwice (step cfg s (.addPayoutEntry up)) := by
  have hskip : (∀ info p rest fee, s.phase ≠ .addPayoutEntry info (p :: rest) fee) →
      ¬ NotPaidTwice (step cfg s (.addPayoutEntry up)) :=
    fun hne => absurd (fun info p rest fee hp => absurd hp (hne info p rest fee)) hbad
  cases hphase : s.phase with
  | addPayoutEntry info payees fee =>
    cases payees with
    | nil =>
      refine hskip fun info' p rest fee' hp => ?_
      rw [hphase] at hp
      cases hp
    | cons p rest =>
      have hs : s.phase.booking = true := by rw [hphase]; rfl
      simp only [step, hphase]
      cases up with
      | false => exact h.givenUp hs rfl rfl rfl rfl
      | true =>
        simp only [↓reduceIte]
        split
        · rename_i books hb
          refine absurd ?_ hbad
          intro info' p' rest' fee' hp
          obtain ⟨rfl, hpayees, rfl⟩ := Phase.addPayoutEntry.inj (hphase.symm.trans hp)
          obtain ⟨rfl, rfl⟩ := List.cons.inj hpayees
          exact ⟨rfl, by rw [hb]⟩
        · rename_i books hb
          exact h.givenUp hs rfl (Books.addPayoutEntry_failed hb) rfl rfl
  | _ =>
    refine hskip fun info p rest fee hp => ?_
    rw [hphase] at hp
    cases hp

theorem ledgerInv_restart (h : LedgerInv s) (nextPayment : Nat) :
    LedgerInv (step cfg s (.restart nextPayment)) := by
  cases hphase : s.phase with
  | exited =>
    simp only [step, hphase]
    exact .idle (.inl rfl) (h.unsent (by rw [hphase]; rfl))
  | _ => simpa only [step, hphase] using h

theorem ledgerInv_step (h : LedgerInv s) {e : PayoutEvent} (hok : BooksTransfer s e) :
    LedgerInv (step cfg s e) := by
  cases e with
  | pool up st => exact ledgerInv_pool h up st
  | loadUnpaidRewards up total => exact ledgerInv_load h up total
  | updateNextPayout up => exact ledgerInv_updateNextPayout h up
  | transfer reply => exact ledgerInv_transfer h reply hok
  | addPayout up => exact ledgerInv_addPayout h up hok
  | getLastId up => exact ledgerInv_getLastId h up hok
  | addPayoutEntry up => exact ledgerInv_addPayoutEntry h up hok
  | restart nextPayment => exact ledgerInv_restart h nextPayment

/-- Every step that leaves a transfer unbooked breaks the property at once. -/
theorem booksTransfer_of_notPaidTwice (h : LedgerInv s) {e : PayoutEvent}
    (hnot : NotPaidTwice (step cfg s e)) : BooksTransfer s e := by
  by_contra hbad
  cases e with
  | transfer reply =>
    cases reply with
    | unread =>
      refine hbad fun info payees fee hphase => ?_
      exact transfer_unread h hphase hnot
    | _ => exact hbad trivial
  | addPayout up => exact addPayout_failed h up hbad hnot
  | getLastId up => exact getLastId_failed h up hbad hnot
  | addPayoutEntry up => exact addPayoutEntry_failed h up hbad hnot
  | _ => exact hbad trivial

/-- **No balance is paid twice**, in every state of a run, exactly if every transfer that is
executed is booked. -/
theorem not_paid_twice_iff (cfg : PaymentConfig) (books : Books) (nextPayment : Nat)
    (events : List PayoutEvent) :
    Always (step cfg) NotPaidTwice (start books nextPayment) events ↔
      Guarded (step cfg) BooksTransfer (start books nextPayment) events :=
  always_iff_guarded_of_invariant (I := LedgerInv) (fun _ h => h.notPaidTwice)
    (fun _ _ h => ledgerInv_step h) (fun _ _ h => booksTransfer_of_notPaidTwice h)
    (ledgerInv_start books nextPayment) events

/-! ## A reply that is lost -/

def emptyBooks : Books := ⟨Tables.empty, [], [], ⟨0, 0, 0⟩, 1, 0⟩

def zanoPayments : PaymentConfig := ⟨100000000, 3600⟩

/-- One miner with a reward of 300000000, and two cycles whose replies are not read. -/
def unreadReplies : List PayoutEvent :=
  [.pool true (.addMiner (Bytes.ascii "a") none 0 0), .pool true (.addWorker 1 (Bytes.ascii "w") 0),
    .pool true (.addBlock 1 1 (Bytes.ascii "00") 300000000 0 0 1 1 1),
    .pool true (.addReward 1 1 300000000 1), .pool true (.matureRewards 1 .CONFIRMED),
    .loadUnpaidRewards true 0, .updateNextPayout true, .transfer .unread,
    .loadUnpaidRewards true 0, .updateNextPayout true, .transfer .unread]

theorem balance_paid_twice :
    (run (step zanoPayments) (start emptyBooks 3600) unreadReplies).credited 1 = 300000000 ∧
      (run (step zanoPayments) (start emptyBooks 3600) unreadReplies).sent 1 = 600000000 ∧
      ¬ NotPaidTwice (run (step zanoPayments) (start emptyBooks 3600) unreadReplies) := by
  refine ⟨by decide +kernel, by decide +kernel, fun h => ?_⟩
  exact absurd (h.sent_le 1) (by decide +kernel)

end PayoutState
end SickPool.Payouts
