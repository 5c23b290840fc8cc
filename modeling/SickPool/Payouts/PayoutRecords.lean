import SickPool.Payouts.FeeSplit

/-!
# The records of the payouts

A payout is written as one row of `payouts`, with the total that the loop of `main` has added
up, and one row of `payout_entries` for each payee, with the amounts of the list. The row also
goes into `payout_stats`. The member `total` is added to without having been set.
-/
namespace SickPool.Payouts

open SickPool.Library SickPool.Library.Run SickPool.Persistence

/-! ## The total -/

@[simp] theorem amounts_nil : amounts [] = 0 := rfl

@[simp] theorem amounts_cons (p : Payee) (rest : List Payee) :
    amounts (p :: rest) = p.amountClean + amounts rest := rfl

/-- `payout_info.total += amount_txfeed`, from what the member held. -/
theorem foldl_total (payees : List Payee) (total : Nat) :
    payees.foldl (fun sum p => (sum + p.amountClean) % uint64Size) total % uint64Size =
      (total + amounts payees) % uint64Size := by
  induction payees generalizing total with
  | nil => simp
  | cons p rest ih => rw [List.foldl_cons, ih, amounts_cons, Nat.mod_add_mod, Nat.add_assoc]

theorem foldl_total_lt {payees : List Payee} (hne : payees ≠ []) (total : Nat) :
    payees.foldl (fun sum p => (sum + p.amountClean) % uint64Size) total < uint64Size := by
  induction payees generalizing total with
  | nil => exact absurd rfl hne
  | cons p rest ih =>
    cases rest with
    | nil => exact Nat.mod_lt _ (by decide)
    | cons q rest => exact ih (List.cons_ne_nil q rest) _

/-- The total is the sum of the amounts exactly if the member happened to hold 0 and the sum
fits. -/
theorem total_eq_amounts_iff {payees : List Payee} (hne : payees ≠ []) (total : Nat) :
    payees.foldl (fun sum p => (sum + p.amountClean) % uint64Size) total = amounts payees ↔
      total % uint64Size = 0 ∧ amounts payees < uint64Size := by
  have hmod := foldl_total payees total
  have hlt := foldl_total_lt hne total
  rw [Nat.mod_eq_of_lt hlt] at hmod
  rw [hmod]
  constructor
  · intro h
    have hsum : amounts payees < uint64Size := h ▸ hmod ▸ hlt
    refine ⟨?_, hsum⟩
    rw [Nat.add_mod, Nat.mod_eq_of_lt hsum] at h
    have ht : total % uint64Size < uint64Size := Nat.mod_lt _ (by decide)
    by_cases hfit : total % uint64Size + amounts payees < uint64Size
    · rw [Nat.mod_eq_of_lt hfit] at h
      omega
    · rw [Nat.mod_eq_sub_mod (by omega), Nat.mod_eq_of_lt (by omega)] at h
      omega
  · rintro ⟨h0, hsum⟩
    rw [Nat.add_mod, h0, Nat.zero_add, Nat.mod_mod, Nat.mod_eq_of_lt hsum]

/-! ## What the records say -/

namespace Books

/-- The entries of a payout: the sum of their amounts, and their number. -/
def entryAmounts (books : Books) (id : Nat) : Nat :=
  Table.sumWhere (fun e => decide (e.payoutId = id)) (·.amount) books.payoutEntries

def entryCount (books : Books) (id : Nat) : Nat :=
  (books.payoutEntries.filter (fun e => decide (e.payoutId = id))).length

theorem entryAmounts_insert {books books' : Books} {e : PayoutEntryRow}
    (h : books'.payoutEntries = books.payoutEntries ++ [e]) (id : Nat) :
    books'.entryAmounts id = books.entryAmounts id + if id = e.payoutId then e.amount else 0 := by
  rw [entryAmounts, h, Table.sumWhere_append, Table.sumWhere_cons]
  by_cases hid : id = e.payoutId
  · simp [entryAmounts, hid]
  · simp [entryAmounts, hid, Ne.symm hid]

theorem entryCount_insert {books books' : Books} {e : PayoutEntryRow}
    (h : books'.payoutEntries = books.payoutEntries ++ [e]) (id : Nat) :
    books'.entryCount id = books.entryCount id + if id = e.payoutId then 1 else 0 := by
  rw [entryCount, h, List.filter_append, List.length_append]
  by_cases hid : id = e.payoutId
  · simp [entryCount, hid]
  · simp [entryCount, hid, Ne.symm hid]

end Books

/-- Between `AddPayout` and the last `AddPayoutEntry`. -/
def Phase.recording : Phase → Bool
  | .getLastId _ _ _ | .addPayoutEntry _ _ _ => true
  | _ => false

/-- Before the amounts are added up the total is 0 and they fit; afterwards it is their sum. -/
def Phase.TotalsRight : Phase → Prop
  | .updateNextPayout info payees =>
    info.total % uint64Size = 0 ∧ payees.length < uint32Size ∧
      amounts (payees.map (subtractFee (info.txFee / payees.length))) < uint64Size
  | .transfer info payees _ | .addPayout info payees _ =>
    info.total = amounts payees ∧ payees.length < uint32Size
  | _ => True

namespace PayoutState

/-- The records add up; those of a payout once all its entries are written. -/
structure RecordsAddUp (s : PayoutState) : Prop where
  paid : s.phase.recording = false → ∀ r ∈ s.books.payouts,
    r.paidAmount = s.books.entryAmounts r.id
  payees : s.phase.recording = false → ∀ r ∈ s.books.payouts,
    r.payeeAmount = s.books.entryCount r.id
  amount : s.books.payoutStats.amount = (s.books.payouts.map (·.paidAmount)).sum
  count : s.books.payoutStats.count = s.books.payouts.length

/-- The SQL calls that write a payout succeed; the balances may be loaded and the transfer may
end as they do. -/
def recordingSucceeds (s : PayoutState) : PayoutEvent → Bool
  | .loadUnpaidRewards _ _ | .transfer _ => true
  | e => s.cycleSucceeds e

/-- The payees of a cycle that is loaded now, with the fee subtracted. -/
def chargedPayees (cfg : PaymentConfig) (s : PayoutState) : List Payee :=
  let payees := Books.getUnpaidRewards s.books.tables.val cfg.txFee
  payees.map (subtractFee (cfg.txFee / payees.length))

/-- The new `PayoutInfo` happens to hold 0 in `total`, and what is to be paid fits. -/
def TotalsFromZero (cfg : PaymentConfig) (s : PayoutState) : PayoutEvent → Prop
  | .loadUnpaidRewards _ total => s.phase = .waiting →
      total % uint64Size = 0 ∧ amounts (s.chargedPayees cfg) < uint64Size
  | _ => True

instance TotalsFromZero.decidable (cfg : PaymentConfig) (s : PayoutState) :
    ∀ e, Decidable (s.TotalsFromZero cfg e)
  | .loadUnpaidRewards _ total => inferInstanceAs (Decidable (s.phase = .waiting →
      total % uint64Size = 0 ∧ amounts (s.chargedPayees cfg) < uint64Size))
  | .pool _ _ | .updateNextPayout _ | .transfer _ | .addPayout _ | .getLastId _
  | .addPayoutEntry _ | .restart _ => inferInstanceAs (Decidable True)

/-! ## The invariant -/

/-- The payees of a payout that have no entry yet. -/
def unwritten (s : PayoutState) (id : Nat) : List Payee :=
  match s.phase with
  | .getLastId _ payees _ => if id = s.books.lastInsertId then payees else []
  | .addPayoutEntry info payees _ => if id = info.id then payees else []
  | _ => []

/-- Every payout row has what was written of its entries and what is still to be written. -/
structure Recorded (s : PayoutState) : Prop where
  miners : s.books.tables.val.MinersCounted
  fresh : ∀ r ∈ s.books.payouts, r.id < s.books.nextPayout
  entries : ∀ e ∈ s.books.payoutEntries, e.payoutId < s.books.nextPayout
  paid : ∀ r ∈ s.books.payouts,
    r.paidAmount = s.books.entryAmounts r.id + amounts (s.unwritten r.id)
  payees : ∀ r ∈ s.books.payouts,
    r.payeeAmount = s.books.entryCount r.id + (s.unwritten r.id).length
  amount : s.books.payoutStats.amount = (s.books.payouts.map (·.paidAmount)).sum
  count : s.books.payoutStats.count = s.books.payouts.length
  totals : s.phase.TotalsRight

theorem unwritten_of_not_recording {s : PayoutState} (h : s.phase.recording = false) (id : Nat) :
    s.unwritten id = [] := by
  unfold unwritten
  cases hphase : s.phase <;> simp_all [Phase.recording]

theorem Recorded.recordsAddUp {s : PayoutState} (h : s.Recorded) : s.RecordsAddUp where
  paid hphase r hr := by
    rw [h.paid r hr, unwritten_of_not_recording hphase, amounts_nil, Nat.add_zero]
  payees hphase r hr := by
    rw [h.payees r hr, unwritten_of_not_recording hphase, List.length_nil, Nat.add_zero]
  amount := h.amount
  count := h.count

theorem recorded_start (nextPayment : Nat) : (start emptyBooks nextPayment).Recorded where
  miners := ⟨Nat.zero_lt_one, Nat.two_pow_pos 32⟩
  fresh _ h := absurd h List.not_mem_nil
  entries _ h := absurd h List.not_mem_nil
  paid _ h := absurd h List.not_mem_nil
  payees _ h := absurd h List.not_mem_nil
  amount := rfl
  count := rfl
  totals := trivial

/-! ## The steps -/

variable {cfg : PaymentConfig} {s s' : PayoutState}

/-- Books with the same payouts and entries. -/
structure SameRecords (books books' : Books) : Prop where
  payouts : books'.payouts = books.payouts
  entries : books'.payoutEntries = books.payoutEntries
  next : books'.nextPayout = books.nextPayout
  amount : books'.payoutStats.amount = books.payoutStats.amount
  count : books'.payoutStats.count = books.payoutStats.count

theorem SameRecords.refl (books : Books) : SameRecords books books := ⟨rfl, rfl, rfl, rfl, rfl⟩

/-- A step that writes no record. -/
theorem Recorded.frame (h : s.Recorded) (hm : s'.books.tables.val.MinersCounted)
    (hsame : SameRecords s.books s'.books) (hu : ∀ id, s'.unwritten id = s.unwritten id)
    (ht : s'.phase.TotalsRight) : s'.Recorded where
  miners := hm
  fresh := by
    rw [hsame.payouts, hsame.next]
    exact h.fresh
  entries := by
    rw [hsame.entries, hsame.next]
    exact h.entries
  paid := by
    intro r hr
    rw [hsame.payouts] at hr
    rw [hu, Books.entryAmounts, hsame.entries]
    exact h.paid r hr
  payees := by
    intro r hr
    rw [hsame.payouts] at hr
    rw [hu, Books.entryCount, hsame.entries]
    exact h.payees r hr
  amount := by
    rw [hsame.amount, hsame.payouts]
    exact h.amount
  count := by
    rw [hsame.count, hsame.payouts]
    exact h.count
  totals := ht

theorem recorded_pool (h : s.Recorded) (up : Bool) (st : PoolStatement) :
    (step cfg s (.pool up st)).Recorded := by
  cases up with
  | false => exact h
  | true =>
    exact h.frame (Db.exec_minersCounted h.miners st) ⟨rfl, rfl, rfl, rfl, rfl⟩ (fun _ => rfl)
      h.totals

/-- A step between two phases in neither of which a payout is being written. -/
theorem Recorded.outside (h : s.Recorded) (hbefore : s.phase.recording = false)
    (hafter : s'.phase.recording = false) (hm : s'.books.tables = s.books.tables)
    (hsame : SameRecords s.books s'.books) (ht : s'.phase.TotalsRight) : s'.Recorded := by
  refine h.frame (hm ▸ h.miners) hsame ?_ ht
  intro id
  rw [unwritten_of_not_recording hafter, unwritten_of_not_recording hbefore]

theorem recorded_load (h : s.Recorded) (up : Bool) (total : Nat)
    (hok : s.TotalsFromZero cfg (.loadUnpaidRewards up total)) :
    (step cfg s (.loadUnpaidRewards up total)).Recorded := by
  cases hphase : s.phase with
  | waiting =>
    obtain ⟨h0, hsum⟩ := hok hphase
    have hbefore : s.phase.recording = false := by rw [hphase]; rfl
    simp only [step, hphase]
    split
    · have hlen := getUnpaidRewards_length s.books.tables.property cfg.txFee
      have hmax := Nat.lt_of_lt_of_le h.miners.1 h.miners.2
      exact h.outside hbefore rfl rfl (.refl _) ⟨h0, Nat.lt_of_le_of_lt hlen hmax, hsum⟩
    · exact h.outside hbefore rfl rfl (.refl _) trivial
  | _ => simpa only [step, hphase] using h

theorem recorded_updateNextPayout (h : s.Recorded) (up : Bool) :
    (step cfg s (.updateNextPayout up)).Recorded := by
  cases hphase : s.phase with
  | updateNextPayout info payees =>
    have hloaded := h.totals
    rw [hphase] at hloaded
    obtain ⟨h0, hlen, hsum⟩ := hloaded
    have hbefore : s.phase.recording = false := by rw [hphase]; rfl
    simp only [step, hphase]
    split
    · cases up <;> exact h.outside hbefore rfl rfl ⟨rfl, rfl, rfl, rfl, rfl⟩ trivial
    · rename_i hne
      have hmap : payees.map (subtractFee (info.txFee / payees.length)) ≠ [] := by simpa using hne
      have htotal := (total_eq_amounts_iff hmap info.total).mpr ⟨h0, hsum⟩
      have hcount : (payees.map (subtractFee (info.txFee / payees.length))).length < uint32Size := by
        simpa using hlen
      cases up <;>
        exact h.outside hbefore rfl rfl ⟨rfl, rfl, rfl, rfl, rfl⟩ ⟨htotal, hcount⟩
  | _ => simpa only [step, hphase] using h

theorem recorded_transfer (h : s.Recorded) (reply : TransferReply) :
    (step cfg s (.transfer reply)).Recorded := by
  cases hphase : s.phase with
  | transfer info payees fee =>
    have hcharged := h.totals
    rw [hphase] at hcharged
    have hbefore : s.phase.recording = false := by rw [hphase]; rfl
    cases reply with
    | rejected =>
      simp only [step, hphase]
      exact h.outside hbefore rfl rfl (.refl _) trivial
    | unread =>
      simp only [step, hphase]
      exact h.outside hbefore rfl rfl (.refl _) trivial
    | replied txid =>
      simp only [step, hphase]
      exact h.outside hbefore rfl rfl (.refl _) hcharged
  | _ => simpa only [step, hphase] using h

/-- What `CALL AddPayout` writes when it succeeds. -/
theorem addPayout_written {books books' : Books} {txid : Bytes}
    {payeeAmount paidAmount txFee timeMs : Nat}
    (h : books.addPayout txid payeeAmount paidAmount txFee timeMs = (books', true)) :
    books' = { books with
      payouts := books.payouts ++
        [⟨books.nextPayout, txid, payeeAmount, paidAmount, txFee, timeMs⟩]
      nextPayout := books.nextPayout + 1
      lastInsertId := books.nextPayout
      payoutStats := { books.payoutStats with
        count := books.payoutStats.count + 1
        amount := books.payoutStats.amount + paidAmount } } := by
  unfold Books.addPayout at h
  split at h
  · dsimp only at h
    split at h
    · exact (Prod.mk.inj h).1.symm
    · cases h
  · cases h

/-- What `CALL AddPayoutEntry` writes when it succeeds. -/
theorem addPayoutEntry_written {books books' : Books} {payoutId minerId amount fee : Nat}
    (h : books.addPayoutEntry payoutId minerId amount fee = (books', true)) :
    (∃ r ∈ books.payouts, r.id = payoutId) ∧
      books' = { books with
        payoutEntries := books.payoutEntries ++ [⟨payoutId, minerId, amount⟩]
        tables := Books.debit books.tables minerId (amount + fee) } := by
  unfold Books.addPayoutEntry at h
  split at h
  · rename_i hrefs
    dsimp only at h
    split at h
    · exact ⟨hrefs.1, (Prod.mk.inj h).1.symm⟩
    · cases h
  · cases h

/-- A payout has no entry before it is inserted. -/
theorem Recorded.no_entries (h : s.Recorded) :
    s.books.payoutEntries.filter (fun e => decide (e.payoutId = s.books.nextPayout)) = [] := by
  refine List.filter_eq_nil_iff.mpr ?_
  intro e he
  have hlt := h.entries e he
  simp only [decide_eq_true_eq]
  omega

/-- The row of a payout: the rows from before are as they were, and all entries of the new one
are to be written. -/
theorem Recorded.insert (h : s.Recorded) (hbefore : s.phase.recording = false) {info : PayoutInfo}
    {payees : List Payee} {fee : Nat} (htotal : info.total = amounts payees)
    (hbooks : s'.books = { s.books with
      payouts := s.books.payouts ++
        [⟨s.books.nextPayout, info.txid, payees.length, info.total, info.txFee, info.time⟩]
      nextPayout := s.books.nextPayout + 1
      lastInsertId := s.books.nextPayout
      payoutStats := { s.books.payoutStats with
        count := s.books.payoutStats.count + 1
        amount := s.books.payoutStats.amount + info.total } })
    (hphase : s'.phase = .getLastId info payees fee) : s'.Recorded := by
  have hun : ∀ id, s'.unwritten id = if id = s.books.nextPayout then payees else [] := by
    intro id
    simp only [unwritten, hphase, hbooks]
  have hrows : ∀ r ∈ s'.books.payouts, (r ∈ s.books.payouts ∧ s'.unwritten r.id = []) ∨
      (r = ⟨s.books.nextPayout, info.txid, payees.length, info.total, info.txFee, info.time⟩ ∧
        s'.unwritten r.id = payees) := by
    intro r hr
    rw [hbooks] at hr
    rw [hun]
    rcases List.mem_append.mp hr with hold | hnew
    · exact .inl ⟨hold, if_neg (Nat.ne_of_lt (h.fresh r hold))⟩
    · obtain rfl := List.mem_singleton.mp hnew
      exact .inr ⟨rfl, if_pos rfl⟩
  refine ⟨?_, ?_, ?_, ?_, ?_, ?_, ?_, ?_⟩
  · rw [hbooks]
    exact h.miners
  · rw [hbooks]
    exact Table.lt_next_append_row h.fresh rfl
  · intro e he
    rw [hbooks] at he ⊢
    exact Nat.lt_succ_of_lt (h.entries e he)
  · intro r hr
    rcases hrows r hr with ⟨hold, hwritten⟩ | ⟨rfl, hunwritten⟩
    · rw [hwritten, h.paid r hold, unwritten_of_not_recording hbefore, hbooks]
      rfl
    · rw [hunwritten, hbooks]
      simp only [Books.entryAmounts, Table.sumWhere, h.no_entries, List.map_nil, List.sum_nil,
        Nat.zero_add]
      exact htotal
  · intro r hr
    rcases hrows r hr with ⟨hold, hwritten⟩ | ⟨rfl, hunwritten⟩
    · rw [hwritten, h.payees r hold, unwritten_of_not_recording hbefore, hbooks]
      rfl
    · rw [hunwritten, hbooks]
      simp only [Books.entryCount, h.no_entries, List.length_nil, Nat.zero_add]
  · rw [hbooks]
    simp [h.amount]
  · rw [hbooks]
    simp [h.count]
  · rw [hphase]
    trivial

theorem recorded_addPayout (h : s.Recorded) (up : Bool)
    (hok : s.recordingSucceeds (.addPayout up) = true) :
    (step cfg s (.addPayout up)).Recorded := by
  cases hphase : s.phase with
  | addPayout info payees fee =>
    have hcharged := h.totals
    rw [hphase] at hcharged
    obtain ⟨htotal, hlen⟩ := hcharged
    have hbefore : s.phase.recording = false := by rw [hphase]; rfl
    simp only [recordingSucceeds, cycleSucceeds, hphase, Bool.and_eq_true] at hok
    obtain ⟨rfl, hwritten⟩ := hok
    rw [Nat.mod_eq_of_lt hlen] at hwritten
    simp only [step, hphase, ↓reduceIte, Nat.mod_eq_of_lt hlen]
    generalize hcall : s.books.addPayout info.txid payees.length info.total info.txFee info.time =
      written at hwritten
    obtain ⟨books, done⟩ := written
    obtain rfl : done = true := hwritten
    exact h.insert hbefore htotal (addPayout_written hcall) rfl
  | _ => simpa only [step, hphase] using h

theorem recorded_getLastId (h : s.Recorded) (up : Bool)
    (hok : s.recordingSucceeds (.getLastId up) = true) :
    (step cfg s (.getLastId up)).Recorded := by
  cases hphase : s.phase with
  | getLastId info payees fee =>
    simp only [recordingSucceeds, cycleSucceeds, hphase] at hok
    subst hok
    simp only [step, hphase, ↓reduceIte]
    refine h.frame h.miners (.refl _) ?_ trivial
    intro id
    simp [unwritten, hphase]
  | _ => simpa only [step, hphase] using h

/-- After the last entry nothing is to be written, after any other the rest is. -/
theorem unwritten_entry {info : PayoutInfo} {rest : List Payee} {fee : Nat}
    (h : s.phase = if rest = [] then .waiting else .addPayoutEntry info rest fee) (id : Nat) :
    s.unwritten id = if id = info.id then rest else [] := by
  unfold unwritten
  rw [h]
  by_cases hrest : rest = []
  · simp [hrest]
  · simp [hrest]

/-- The entry of the next payee: what it adds to the entries of its payout is no longer to be
written. -/
theorem Recorded.write (h : s.Recorded) {info : PayoutInfo} {p : Payee} {rest : List Payee}
    {fee : Nat} (hphase : s.phase = .addPayoutEntry info (p :: rest) fee)
    (hrow : ∃ r ∈ s.books.payouts, r.id = info.id) (hm : s'.books.tables.val.MinersCounted)
    (hp : s'.books.payouts = s.books.payouts) (hn : s'.books.nextPayout = s.books.nextPayout)
    (hs : s'.books.payoutStats = s.books.payoutStats)
    (he : s'.books.payoutEntries =
      s.books.payoutEntries ++ [⟨info.id, p.minerId, p.amountClean⟩])
    (hafter : s'.phase = if rest = [] then .waiting else .addPayoutEntry info rest fee) :
    s'.Recorded := by
  have hun : ∀ id, s.unwritten id = if id = info.id then p :: rest else [] := by
    intro id
    simp only [unwritten, hphase]
  refine ⟨hm, ?_, ?_, ?_, ?_, ?_, ?_, ?_⟩
  · rw [hp, hn]
    exact h.fresh
  · intro e hmem
    rw [he] at hmem
    rw [hn]
    rcases List.mem_append.mp hmem with hmem | hmem
    · exact h.entries e hmem
    · obtain ⟨row, hrow, hid⟩ := hrow
      obtain rfl := List.mem_singleton.mp hmem
      exact hid ▸ h.fresh row hrow
  · intro r hr
    rw [hp] at hr
    rw [h.paid r hr, hun, unwritten_entry hafter, Books.entryAmounts_insert he]
    split
    · rw [amounts_cons, Nat.add_assoc]
    · rfl
  · intro r hr
    rw [hp] at hr
    rw [h.payees r hr, hun, unwritten_entry hafter, Books.entryCount_insert he]
    split
    · rw [List.length_cons, Nat.add_comm rest.length, Nat.add_assoc]
    · rfl
  · rw [hs, hp]
    exact h.amount
  · rw [hs, hp]
    exact h.count
  · rw [hafter]
    split <;> trivial

theorem recorded_addPayoutEntry (h : s.Recorded) (up : Bool)
    (hok : s.recordingSucceeds (.addPayoutEntry up) = true) :
    (step cfg s (.addPayoutEntry up)).Recorded := by
  cases hphase : s.phase with
  | addPayoutEntry info payees fee =>
    cases payees with
    | nil => simpa only [step, hphase] using h
    | cons p rest =>
      simp only [recordingSucceeds, cycleSucceeds, hphase, Bool.and_eq_true] at hok
      obtain ⟨rfl, hwritten⟩ := hok
      simp only [step, hphase, ↓reduceIte]
      generalize hcall : s.books.addPayoutEntry info.id p.minerId p.amountClean fee =
        written at hwritten
      obtain ⟨books, done⟩ := written
      obtain rfl : done = true := hwritten
      obtain ⟨hrow, rfl⟩ := addPayoutEntry_written hcall
      have hm : (Books.debit s.books.tables p.minerId (p.amountClean + fee)).val.MinersCounted :=
        h.miners.congr (List.length_map _) rfl
      exact h.write hphase hrow hm rfl rfl rfl rfl rfl
  | _ => simpa only [step, hphase] using h

theorem recorded_restart (h : s.Recorded) (nextPayment : Nat) :
    (step cfg s (.restart nextPayment)).Recorded := by
  cases hphase : s.phase with
  | exited =>
    simp only [step, hphase]
    exact h.outside (by rw [hphase]; rfl) rfl rfl (.refl _) trivial
  | _ => simpa only [step, hphase] using h

theorem recorded_step (cfg : PaymentConfig) (s : PayoutState) (e : PayoutEvent) (h : s.Recorded)
    (hok : s.recordingSucceeds e = true ∧ s.TotalsFromZero cfg e) : (step cfg s e).Recorded := by
  obtain ⟨hsql, hzero⟩ := hok
  cases e with
  | pool up st => exact recorded_pool h up st
  | loadUnpaidRewards up total => exact recorded_load h up total hzero
  | updateNextPayout up => exact recorded_updateNextPayout h up
  | transfer reply => exact recorded_transfer h reply
  | addPayout up => exact recorded_addPayout h up hsql
  | getLastId up => exact recorded_getLastId h up hsql
  | addPayoutEntry up => exact recorded_addPayoutEntry h up hsql
  | restart nextPayment => exact recorded_restart h nextPayment

/-- **The records add up** in every state of a run, from the empty tables on, in which the SQL
calls that write a payout succeed, the member `total` happens to hold 0 at the start of each
cycle, and no cycle pays more than 64 bits hold. -/
theorem records_add_up (cfg : PaymentConfig) (nextPayment : Nat) (events : List PayoutEvent)
    (h : Guarded (step cfg) (fun s e => s.recordingSucceeds e = true ∧ s.TotalsFromZero cfg e)
      (start emptyBooks nextPayment) events) :
    Always (step cfg) RecordsAddUp (start emptyBooks nextPayment) events :=
  always_of_guarded (fun _ hs => hs.recordsAddUp) (recorded_step cfg) (recorded_start nextPayment) h

/-- A miner with a reward of 300000000, and a cycle that pays it, with what `total` held. -/
def paidReward (total : Nat) : List PayoutEvent :=
  [.pool true (.addMiner (Bytes.ascii "a") none 0 0), .pool true (.addWorker 1 (Bytes.ascii "w") 0),
    .pool true (.addBlock 1 1 (Bytes.ascii "00") 300000000 0 0 1 1 1),
    .pool true (.addReward 1 1 300000000 1), .pool true (.matureRewards 1 .CONFIRMED),
    .loadUnpaidRewards true total, .updateNextPayout true, .transfer (.replied (Bytes.ascii "tx")),
    .addPayout true, .getLastId true, .addPayoutEntry true]

theorem records_add_up_paidReward :
    Always (step zanoPayments) RecordsAddUp (start emptyBooks 3600) (paidReward 0) :=
  records_add_up zanoPayments 3600 (paidReward 0) (by decide +kernel)

/-- With another value in `total` every call succeeds as well, and the payout of the one entry
of 200000000 is recorded with 200000007. -/
theorem uninitialised_total_recorded :
    (run (step zanoPayments) (start emptyBooks 3600) (paidReward 7)).books.payouts =
        [⟨1, Bytes.ascii "tx", 1, 200000007, 100000000, 3600000⟩] ∧
      (run (step zanoPayments) (start emptyBooks 3600) (paidReward 7)).books.payoutEntries =
        [⟨1, 1, 200000000⟩] ∧
      Guarded (step zanoPayments) (fun s e => s.recordingSucceeds e = true)
        (start emptyBooks 3600) (paidReward 7) ∧
      ¬ Always (step zanoPayments) RecordsAddUp (start emptyBooks 3600) (paidReward 7) := by
  refine ⟨by decide +kernel, by decide +kernel, by decide +kernel, ?_⟩
  intro h
  have hpaid := h.last.paid (by decide +kernel)
  revert hpaid
  decide +kernel

end PayoutState
end SickPool.Payouts
