import SickPool.Payouts.PayoutLedger

/-!
# The fee of a transfer, and a cycle that succeeds

The fee is split over the payees by an integer division, and the remainder stays with the
pool. When the transfer is answered and the SQL calls of the cycle succeed, a payee is left
with what was credited to it since its balance was loaded.
-/
namespace SickPool.Payouts

open SickPool.Library SickPool.Library.Run SickPool.Persistence

def amounts (payees : List Payee) : Nat := (payees.map (·.amountClean)).sum

theorem amounts_subtractFee (fee : Nat) {payees : List Payee}
    (h : ∀ p ∈ payees, fee ≤ p.amountClean ∧ p.amountClean < uint64Size) :
    amounts (payees.map (subtractFee fee)) + payees.length * fee = amounts payees := by
  induction payees with
  | nil => simp [amounts]
  | cons p rest ih =>
    have hp := h p (by simp)
    have hrest := ih fun q hq => h q (by simp [hq])
    simp only [amounts, List.map_cons, List.sum_cons, List.length_cons, Nat.add_mul,
      subtractFee_amount hp.1 hp.2] at hrest ⊢
    omega

/-- The remainder of the division is all the pool pays itself. -/
theorem amounts_charged {txFee : Nat} {payees : List Payee}
    (h : ∀ p ∈ payees, txFee < p.amountClean ∧ p.amountClean < uint64Size) :
    amounts (payees.map (subtractFee (txFee / payees.length))) + txFee =
      amounts payees + txFee % payees.length := by
  have hsum := amounts_subtractFee (txFee / payees.length) fun p hp =>
    ⟨le_trans (Nat.div_le_self _ _) (h p hp).1.le, (h p hp).2⟩
  have hdiv := Nat.div_add_mod txFee payees.length
  omega

namespace PayoutState

/-- The transfer is answered and every SQL call of the cycle succeeds; no new cycle starts. -/
def cycleSucceeds (s : PayoutState) : PayoutEvent → Bool
  | .loadUnpaidRewards _ _ => false
  | .transfer reply => match s.phase, reply with
    | .transfer _ _ _, .replied _ => true
    | .transfer _ _ _, _ => false
    | _, _ => true
  | .addPayout up => match s.phase with
    | .addPayout info payees _ => up && (s.books.addPayout info.txid (payees.length % uint32Size)
        info.total info.txFee info.time).2
    | _ => true
  | .getLastId up => match s.phase with
    | .getLastId _ _ _ => up
    | _ => true
  | .addPayoutEntry up => match s.phase with
    | .addPayoutEntry info (p :: _) fee =>
      up && (s.books.addPayoutEntry info.id p.minerId p.amountClean fee).2
    | _ => true
  | _ => true

theorem booksTransfer_of_cycleSucceeds {s : PayoutState} {e : PayoutEvent}
    (h : cycleSucceeds s e = true) : BooksTransfer s e := by
  cases e with
  | transfer reply =>
    cases reply with
    | unread =>
      intro info payees fee hphase
      simp [cycleSucceeds, hphase] at h
    | _ => trivial
  | addPayout up =>
    intro info payees fee hphase
    simpa [cycleSucceeds, hphase] using h
  | getLastId up =>
    intro info payees fee hphase
    simpa [cycleSucceeds, hphase] using h
  | addPayoutEntry up =>
    intro info p rest fee hphase
    simpa [cycleSucceeds, hphase] using h
  | _ => trivial

/-- How far the cycle of some loaded payees is, and what it has sent. -/
def CycleAt (txFee : Nat) (payees : List Payee) (s : PayoutState) : Prop :=
  let fee := txFee / payees.length
  let charged := payees.map (subtractFee fee)
  (∃ info : PayoutInfo, info.txFee = txFee ∧ s.phase = .updateNextPayout info payees ∧
      s.sent = fun _ => 0) ∨
    (∃ info, s.phase = .transfer info charged fee ∧ s.sent = fun _ => 0) ∨
    ((s.phase.booking = true ∨ s.phase = .waiting) ∧ s.sent = owed fee charged)

/-- Once it has sent, the cycle sends nothing more and is booked to its end. -/
theorem booking_step (cfg : PaymentConfig) {s : PayoutState} {e : PayoutEvent}
    (h : s.phase.booking = true ∨ s.phase = .waiting) (hok : cycleSucceeds s e = true) :
    ((step cfg s e).phase.booking = true ∨ (step cfg s e).phase = .waiting) ∧
      (step cfg s e).sent = s.sent := by
  have hnot : ∀ phase : Phase, phase.booking = false → phase ≠ .waiting → s.phase ≠ phase := by
    rintro phase hb hw rfl
    rcases h with h | h
    · rw [hb] at h
      cases h
    · exact hw h
  -- the phases whose steps go on are not this one
  have hexited : s.phase ≠ .exited := hnot _ rfl (by simp)
  have htransfer : ∀ info payees fee, s.phase ≠ .transfer info payees fee :=
    fun _ _ _ => hnot _ rfl (by simp)
  have hnext : ∀ info payees, s.phase ≠ .updateNextPayout info payees :=
    fun _ _ => hnot _ rfl (by simp)
  cases e with
  | pool up st => cases up <;> exact ⟨h, rfl⟩
  | loadUnpaidRewards up total => cases hok
  | updateNextPayout up =>
    simp only [step]
    exact ⟨h, trivial⟩
  | transfer reply =>
    simp only [step]
    exact ⟨h, trivial⟩
  | addPayout up =>
    simp only [step]
    split
    · split
      · exact ⟨.inl rfl, rfl⟩
      · exact ⟨.inr rfl, rfl⟩
    · exact ⟨h, rfl⟩
  | getLastId up =>
    simp only [step]
    split
    · split
      · exact ⟨.inl rfl, rfl⟩
      · exact ⟨.inr rfl, rfl⟩
    · exact ⟨h, rfl⟩
  | addPayoutEntry up =>
    simp only [step]
    split
    · split
      · refine ⟨?_, rfl⟩
        dsimp only
        split
        · exact .inr rfl
        · exact .inl rfl
      · exact ⟨.inr rfl, rfl⟩
    · exact ⟨h, rfl⟩
  | restart nextPayment =>
    simp only [step]
    exact ⟨h, trivial⟩

theorem cycleAt_step {cfg : PaymentConfig} {txFee : Nat} {payees : List Payee}
    (hne : payees ≠ []) {s : PayoutState} {e : PayoutEvent} (h : CycleAt txFee payees s)
    (hok : cycleSucceeds s e = true) : CycleAt txFee payees (step cfg s e) := by
  rcases h with ⟨info, hfee, hphase, hsent⟩ | ⟨info, hphase, hsent⟩ | ⟨hphase, hsent⟩
  · have hsame : CycleAt txFee payees s := .inl ⟨info, hfee, hphase, hsent⟩
    cases e with
    | pool up st => cases up <;> exact .inl ⟨info, hfee, hphase, hsent⟩
    | loadUnpaidRewards up total => cases hok
    | updateNextPayout up =>
      simp only [step, hphase, hne, ↓reduceIte, hfee]
      exact .inr (.inl ⟨_, rfl, hsent⟩)
    | _ => simpa only [step, hphase] using hsame
  · have hsame : CycleAt txFee payees s := .inr (.inl ⟨info, hphase, hsent⟩)
    cases e with
    | pool up st => cases up <;> exact .inr (.inl ⟨info, hphase, hsent⟩)
    | loadUnpaidRewards up total => cases hok
    | transfer reply =>
      cases reply with
      | replied txid =>
        simp only [step, hphase, hsent, Nat.zero_add]
        exact .inr (.inr ⟨.inl rfl, rfl⟩)
      | _ => simp [cycleSucceeds, hphase] at hok
    | _ => simpa only [step, hphase] using hsame
  · obtain ⟨hphase', hsent'⟩ := booking_step cfg hphase hok
    exact .inr (.inr ⟨hphase', hsent'.trans hsent⟩)

/-- The state in which the balances of a cycle are loaded. -/
def loadedState (cfg : PaymentConfig) (books : Books) (nextPayment total : Nat) : PayoutState :=
  step cfg (start books nextPayment) (.loadUnpaidRewards true total)

/-- After a cycle that succeeded, each balance is what was credited since the load, and for
a miner that was not paid the loaded balance with it. -/
theorem balance_after_cycle {cfg : PaymentConfig} {books : Books} {nextPayment total : Nat}
    (hne : Books.getUnpaidRewards books.tables.val cfg.txFee ≠ []) {events : List PayoutEvent}
    (hok : Guarded (step cfg) (fun s e => cycleSucceeds s e = true)
      (loadedState cfg books nextPayment total) events)
    (hdone : (run (step cfg) (loadedState cfg books nextPayment total) events).phase = .waiting)
    (miner : Nat) :
    (run (step cfg) (loadedState cfg books nextPayment total) events).books.balanceOf miner +
        (loadedState cfg books nextPayment total).credited miner =
      (run (step cfg) (loadedState cfg books nextPayment total) events).credited miner +
        if ∃ p ∈ Books.getUnpaidRewards books.tables.val cfg.txFee, p.minerId = miner then 0
        else books.balanceOf miner := by
  have hkeyed := books.tables.property
  have hledger : LedgerInv (run (step cfg) (loadedState cfg books nextPayment total) events) :=
    invariant (I := LedgerInv) (fun s e h hs => ledgerInv_step h (booksTransfer_of_cycleSucceeds hs))
      (ledgerInv_load (ledgerInv_start books nextPayment) true total) hok
  have hcycle : CycleAt cfg.txFee (Books.getUnpaidRewards books.tables.val cfg.txFee)
      (run (step cfg) (loadedState cfg books nextPayment total) events) :=
    invariant (fun s e h hs => cycleAt_step hne h hs) (.inl ⟨_, rfl, rfl, rfl⟩) hok
  have hsum := hledger.ledger miner
  have hsent : (run (step cfg) (loadedState cfg books nextPayment total) events).sent miner =
      owed 0 (Books.getUnpaidRewards books.tables.val cfg.txFee) miner := by
    rcases hcycle with ⟨_, _, hp, _⟩ | ⟨_, hp, _⟩ | ⟨_, hsent⟩
    · rw [hp] at hdone
      cases hdone
    · rw [hp] at hdone
      cases hdone
    · rw [hsent]
      refine owed_subtractFee (fun p hp => ?_) miner
      have hrange := loaded_range hkeyed hp
      exact ⟨le_trans (Nat.div_le_self _ _) hrange.1.le, hrange.2⟩
  change (run (step cfg) (loadedState cfg books nextPayment total) events).books.balanceOf miner +
    books.balanceOf miner = _
  rw [hdone, hsent] at hsum
  split
  · rename_i hpayee
    obtain ⟨p, hp, rfl⟩ := hpayee
    rw [owed_getUnpaidRewards_mem hkeyed hp] at hsum
    exact hsum
  · rename_i hother
    rw [owed_eq_zero fun p hp hid => hother ⟨p, hp, hid⟩] at hsum
    exact congrArg (· + books.balanceOf miner) hsum

/-- The program sends each payee its balance less the fee, pays the remainder of the
division itself, and after a cycle that succeeded leaves each payee with its credits. -/
theorem payout_cycle_exact (cfg : PaymentConfig) (books : Books) (nextPayment total : Nat)
    (hne : Books.getUnpaidRewards books.tables.val cfg.txFee ≠ []) :
    let payees := Books.getUnpaidRewards books.tables.val cfg.txFee
    let fee := cfg.txFee / payees.length
    let charged := payees.map (subtractFee fee)
    let loaded := loadedState cfg books nextPayment total
    (∀ up, ∃ info, (step cfg loaded (.updateNextPayout up)).phase = .transfer info charged fee) ∧
    (∀ p ∈ payees, fee < p.amountClean ∧ (subtractFee fee p).amountClean = p.amountClean - fee) ∧
    (amounts charged + cfg.txFee = amounts payees + cfg.txFee % payees.length ∧
      cfg.txFee % payees.length ≤ payees.length - 1) ∧
    ∀ events, Guarded (step cfg) (fun s e => cycleSucceeds s e = true) loaded events →
      (run (step cfg) loaded events).phase = .waiting → ∀ miner,
        (run (step cfg) loaded events).books.balanceOf miner + loaded.credited miner =
          (run (step cfg) loaded events).credited miner +
            if ∃ p ∈ payees, p.minerId = miner then 0 else books.balanceOf miner := by
  intro payees fee charged loaded
  have hrange : ∀ p ∈ payees, cfg.txFee < p.amountClean ∧ p.amountClean < uint64Size :=
    fun p hp => loaded_range books.tables.property hp
  have hpos : 0 < payees.length := List.length_pos_iff.mpr hne
  refine ⟨fun up => ?_, fun p hp => ?_, ⟨amounts_charged hrange, ?_⟩,
    fun events hok hdone => balance_after_cycle hne hok hdone⟩
  · simp only [loaded, loadedState, start, step, ↓reduceIte, hne]
    exact ⟨_, rfl⟩
  · have hlt : fee < p.amountClean := lt_of_le_of_lt (Nat.div_le_self _ _) (hrange p hp).1
    exact ⟨hlt, subtractFee_amount hlt.le (hrange p hp).2⟩
  · exact Nat.le_sub_one_of_lt (Nat.mod_lt _ hpos)

/-! ## A cycle with a reward in between -/

/-- Four miners, of which all but the first are paid, and a block of the second that is not
mature. -/
def minedBooks : Books :=
  (run (step zanoPayments) (start emptyBooks 3600)
    ([Bytes.ascii "a", Bytes.ascii "b", Bytes.ascii "c", Bytes.ascii "d"].map (fun address =>
        .pool true (.addMiner address none 0 0)) ++
      [.pool true (.addWorker 1 (Bytes.ascii "w") 0),
        .pool true (.addBlock 1 1 (Bytes.ascii "00") 600000000 0 0 1 1 1),
        .pool true (.addReward 1 1 50000000 1), .pool true (.addReward 2 1 250000000 1),
        .pool true (.addReward 3 1 130000000 1), .pool true (.addReward 4 1 170000000 1),
        .pool true (.matureRewards 1 .CONFIRMED),
        .pool true (.addBlock 1 1 (Bytes.ascii "01") 300000000 0 0 2 1 1),
        .pool true (.addReward 2 2 70000000 1)])).books

/-- The second block matures while the transfer is under way. -/
def answeredCycle : List PayoutEvent :=
  [.updateNextPayout true, .transfer (.replied (Bytes.ascii "ab")),
    .pool true (.matureRewards 2 .CONFIRMED), .addPayout true, .getLastId true,
    .addPayoutEntry true, .addPayoutEntry true, .addPayoutEntry true]

/-- The fee of 10 ^ 8 is split between three payees, and 1 of it is left. -/
theorem payout_cycle_exact_three_payees :
    (Books.getUnpaidRewards minedBooks.tables.val zanoPayments.txFee).map (·.minerId) = [2, 3, 4] ∧
      zanoPayments.txFee %
        (Books.getUnpaidRewards minedBooks.tables.val zanoPayments.txFee).length = 1 ∧
      amounts ((Books.getUnpaidRewards minedBooks.tables.val zanoPayments.txFee).map
          (subtractFee (zanoPayments.txFee /
            (Books.getUnpaidRewards minedBooks.tables.val zanoPayments.txFee).length))) +
            zanoPayments.txFee =
        amounts (Books.getUnpaidRewards minedBooks.tables.val zanoPayments.txFee) +
          zanoPayments.txFee %
            (Books.getUnpaidRewards minedBooks.tables.val zanoPayments.txFee).length ∧
      (run (step zanoPayments) (loadedState zanoPayments minedBooks 3600 0)
        answeredCycle).phase = .waiting ∧
      ∀ miner, (run (step zanoPayments) (loadedState zanoPayments minedBooks 3600 0)
          answeredCycle).books.balanceOf miner +
            (loadedState zanoPayments minedBooks 3600 0).credited miner =
        (run (step zanoPayments) (loadedState zanoPayments minedBooks 3600 0)
          answeredCycle).credited miner +
            if ∃ p ∈ Books.getUnpaidRewards minedBooks.tables.val zanoPayments.txFee,
              p.minerId = miner then 0 else minedBooks.balanceOf miner := by
  obtain ⟨-, -, ⟨hcharged, -⟩, hcycle⟩ :=
    payout_cycle_exact zanoPayments minedBooks 3600 0 (by decide +kernel)
  exact ⟨by decide +kernel, by decide +kernel, hcharged, by decide +kernel,
    hcycle answeredCycle (by decide +kernel) (by decide +kernel)⟩

end PayoutState
end SickPool.Payouts
