import SickPool.Stratum.SystemSteps

/-!
# No share is paid twice

The share set of a client catches a share sent again, as long as it is neither another
client's nor cleared. It is cleared while jobs are still known: `HandleNewJob` runs after
`SetNewJob` has made the new job known, and the main thread runs it on the first job. And
it is a set per connection, while nothing in a CN header depends on the connection. The
theorems of this module say that these are the only ways to be paid twice.
-/
namespace SickPool.Stratum

open SickPool.Library SickPool.Library.Bytes SickPool.Library.Run SickPool.Utils SickPool.Crypto
open SickPool.Jobs SickPool.Persistence SickPool.Stats SickPool.Shares

variable {p : StratumProtocol} {R : Type}

/-! ## One connection -/

/-- The job and the proof-of-work hash of the shares paid on a connection. -/
def paidOn (conn : Nat) (o : Observed p R) : List (Bytes × Hash32) :=
  (o.paid.filter (fun payment => decide (payment.conn = conn))).map
    (fun payment => (payment.share.jobId, payment.hash))

/-- A share set is not cleared while the jobs of the shares paid on its connection are
known, and no such job comes back. -/
def JobsGone (jm : JobManager p) (conn : Nat) (paid : List (Bytes × Hash32)) :
    Observation p → Prop
  | .cleared c => c = conn → ∀ share ∈ paid, (jm.getJob share.1).isNone
  | .renewed job => ∀ share ∈ paid, (jm.getJob share.1).isNone → share.1 ≠ job.base.id
  | _ => True

instance (jm : JobManager p) (conn : Nat) (paid : List (Bytes × Hash32)) :
    (obs : Observation p) → Decidable (JobsGone jm conn paid obs)
  | .quiet => inferInstanceAs (Decidable True)
  | .paid _ => inferInstanceAs (Decidable True)
  | .granted _ _ _ => inferInstanceAs (Decidable True)
  | .renewed job => inferInstanceAs (Decidable (∀ share ∈ paid, _ → share.1 ≠ job.base.id))
  | .cleared c => inferInstanceAs (Decidable (c = conn → ∀ share ∈ paid, _))

/-- A step that clears the share set of the connection only when every job with a share paid
on it is gone, and that brings no such job back. -/
def KeepsShareSet (env : Env R) (conn : Nat) (o : Observed p R) (e : Event p) : Prop :=
  JobsGone o.system.server.jobManager conn (paidOn conn o) (o.system.observe env e)

instance (env : Env R) (conn : Nat) (o : Observed p R) (e : Event p) :
    Decidable (KeepsShareSet env conn o e) :=
  inferInstanceAs (Decidable (JobsGone _ _ _ _))

/-- No share is paid twice, and the set of the client holds every share paid for a job
that is still known. -/
structure ConnectionInv (conn : Nat) (o : Observed p R) : Prop where
  numbered : o.system.Numbered
  paid : ∀ payment ∈ o.paid, payment.conn < o.system.connections
  nodup : (paidOn conn o).Nodup
  remembered : ∀ cli, o.system.clients conn = some cli → ∀ paid ∈ paidOn conn o,
    (o.system.server.jobManager.getJob paid.1).isSome → shareStart paid.2 ∈ cli.shareUset

theorem paidOn_record_paid (conn : Nat) (o : Observed p R) (s' : System p R) (payment : Payment p) :
    paidOn conn (o.record s' (.paid payment)) = if payment.conn = conn
      then paidOn conn o ++ [(payment.share.jobId, payment.hash)] else paidOn conn o := by
  unfold paidOn
  simp only [Observed.record, List.filter_append, List.map_append]
  by_cases h : payment.conn = conn <;> simp [h]

theorem record_paid_of_ne (o : Observed p R) (s' : System p R) {obs : Observation p}
    (h : ∀ payment, obs ≠ .paid payment) : (o.record s' obs).paid = o.paid := by
  cases obs with
  | paid payment => exact absurd rfl (h payment)
  | _ => rfl

theorem connectionInv_start (conn : Nat) (srv : Server p R) :
    ConnectionInv conn (Observed.start srv) where
  numbered := by
    intro c cli h
    cases h
  paid := by
    intro payment h
    cases h
  nodup := List.nodup_nil
  remembered := by
    intro cli h
    cases h

theorem ConnectionInv.lt_of_mem {conn : Nat} {o : Observed p R} (h : ConnectionInv conn o)
    {paid : Bytes × Hash32} (hmem : paid ∈ paidOn conn o) : conn < o.system.connections := by
  obtain ⟨payment, hpay, -⟩ := List.mem_map.mp hmem
  obtain ⟨hpay, hconn⟩ := List.mem_filter.mp hpay
  exact of_decide_eq_true hconn ▸ h.paid payment hpay

/-- A paying step empties no share set, and the share paid is in the set of its client. -/
theorem shareUset_of_paid {s s' : System p R} {payment : Payment p} {conn : Nat}
    {cli' : StratumClient} (heff : System.Effect s (.paid payment) s')
    (hlt : conn < s.connections) (hcli' : s'.clients conn = some cli') :
    ∃ cli, s.clients conn = some cli ∧ cli.shareUset ⊆ cli'.shareUset ∧
      (payment.conn = conn → shareStart payment.hash ∈ cli'.shareUset) := by
  rcases heff.clients conn cli' hcli' with ⟨hge, -⟩ | ⟨cli, hcli, hch⟩
  · omega
  refine ⟨cli, hcli, ?_⟩
  rcases hch with ⟨-, -, -, hset⟩ | ⟨habout, -, hkeep⟩
  · rw [hset]
    exact ⟨Finset.subset_insert _ _, fun _ => Finset.mem_insert_self _ _⟩
  · rw [hkeep]
    exact ⟨Finset.Subset.refl _, fun he => absurd (congrArg some he) habout⟩

/-- The payments of a paying step, old and new, are on numbered connections. -/
theorem paid_lt_connections {s s' : System p R} {payment : Payment p} {old : List (Payment p)}
    (heff : System.Effect s (.paid payment) s') (hlt : payment.conn < s.connections)
    (hold : ∀ payment ∈ old, payment.conn < s.connections) :
    ∀ payment' ∈ old ++ [payment], payment'.conn < s.connections ∧
      payment'.conn < s'.connections := by
  intro payment' hmem
  have hbefore : payment'.conn < s.connections := by
    rcases List.mem_append.mp hmem with hmem | hmem
    · exact hold payment' hmem
    · rwa [List.mem_singleton.mp hmem]
  exact ⟨hbefore, hbefore.trans_le heff.connections⟩

/-- The job of a paid share that is known after the step was known before. -/
theorem JobsGone.known_before {jm : JobManager p} {conn : Nat} {paid : List (Bytes × Hash32)}
    {obs : Observation p} (h : JobsGone jm conn paid obs) {share : Bytes × Hash32}
    (hmem : share ∈ paid) (hlive : ((obs.jobs jm).getJob share.1).isSome) :
    (jm.getJob share.1).isSome := by
  cases obs with
  | renewed job =>
    rcases JobManager.isSome_getJob_setNewJob hlive with hold | hnew
    · exact hold
    · by_contra hgone
      rw [Option.not_isSome_iff_eq_none] at hgone
      exact h share hmem (by rw [hgone]; rfl) hnew.symm
  | _ => exact hlive

/-- A step that pays nothing. What may go wrong is that a job comes back, or that the set
is cleared, and both are excluded. -/
theorem ConnectionInv.of_quiet {env : Env R} {conn : Nat} {o : Observed p R} {e : Event p}
    (h : ConnectionInv conn o) (hok : KeepsShareSet env conn o e)
    (hpaid : ∀ payment, o.system.observe env e ≠ .paid payment) :
    ConnectionInv conn (o.step env e) := by
  have heff := o.system.step_effect env e
  unfold KeepsShareSet at hok
  unfold Observed.step
  generalize o.system.observe env e = obs at heff hok hpaid ⊢
  generalize o.system.step env e = s' at heff ⊢
  have hsame : paidOn conn (o.record s' obs) = paidOn conn o := by
    rw [paidOn, record_paid_of_ne o s' hpaid]
    rfl
  refine ⟨?_, ?_, hsame ▸ h.nodup, ?_⟩
  · rw [Observed.record_system]
    exact heff.numbered h.numbered
  · rw [Observed.record_system, record_paid_of_ne o s' hpaid]
    exact fun payment hp => (h.paid payment hp).trans_le heff.connections
  rw [Observed.record_system, hsame]
  intro cli' hcli' paid hmem hlive
  have hlt := h.lt_of_mem hmem
  have hbefore := hok.known_before hmem (heff.jobs ▸ hlive)
  rcases heff.clients conn cli' hcli' with ⟨hge, -⟩ | ⟨cli, hcli, hch⟩
  · omega
  · have hset := h.remembered cli hcli _ hmem hbefore
    rcases hch with ⟨habout, hch⟩ | ⟨-, -, hkeep⟩
    · cases obs with
      | cleared c =>
        have hgone := hok (Option.some.inj habout) _ hmem
        simp [Option.isNone_iff_eq_none.mp hgone] at hbefore
      | granted c worker params =>
        obtain ⟨name, fid, it, -, rfl⟩ := hch
        exact hset
      | paid payment => exact absurd rfl (hpaid payment)
      | quiet => exact hch.elim
      | renewed job => exact hch.elim
    · rw [hkeep]
      exact hset

/-- A step that pays a share. A share paid before for the same job would be in the set. -/
theorem ConnectionInv.of_paid {env : Env R} {conn : Nat} {o : Observed p R} {e : Event p}
    (h : ConnectionInv conn o) {payment : Payment p}
    (hpaid : o.system.observe env e = .paid payment) : ConnectionInv conn (o.step env e) := by
  have heff := o.system.step_effect env e
  obtain ⟨cli, job, worker, params, uninitialised, call, -, -, hcli, hjob, -, hnew⟩ :=
    System.observe_paid hpaid
  unfold Observed.step
  rw [hpaid] at heff ⊢
  generalize o.system.step env e = s' at heff ⊢
  have hlt := h.numbered payment.conn cli hcli
  have hnumbered := paid_lt_connections heff hlt h.paid
  refine ⟨heff.numbered h.numbered, fun payment' hp => (hnumbered payment' hp).2, ?_, ?_⟩
  · rw [paidOn_record_paid]
    split
    · rename_i hconn
      rw [← List.concat_eq_append]
      refine h.nodup.concat ?_
      intro hmem
      exact hnew (h.remembered cli (hconn ▸ hcli) _ hmem (by simp [hjob]))
    · exact h.nodup
  · intro cli' hcli' paid hmem hlive
    have hjobs : s'.server.jobManager = o.system.server.jobManager := heff.jobs
    change (s'.server.jobManager.getJob paid.1).isSome at hlive
    rw [hjobs] at hlive
    rw [paidOn_record_paid] at hmem
    -- a share paid before was remembered before, and no set has lost one
    have hkept : paid ∈ paidOn conn o → shareStart paid.2 ∈ cli'.shareUset := by
      intro hold
      obtain ⟨cli₀, hcli₀, hsub, -⟩ := shareUset_of_paid heff (h.lt_of_mem hold) hcli'
      exact hsub (h.remembered cli₀ hcli₀ paid hold hlive)
    split at hmem
    · rename_i hconn
      rcases List.mem_append.mp hmem with hmem | hmem
      · exact hkept hmem
      · rw [List.mem_singleton.mp hmem]
        obtain ⟨-, -, -, hset⟩ := shareUset_of_paid heff (hconn ▸ hlt) hcli'
        exact hset hconn
    · exact hkept hmem

/-- **Paid once per connection.** In every run in which the share set of a connection is
cleared only when the jobs of the shares paid on it are gone, and no such job comes back, no
share of one job with one proof-of-work hash is paid twice on the connection. -/
theorem paid_once_on_connection (env : Env R) (srv : Server p R) (conn : Nat)
    (events : List (Event p))
    (h : Guarded (Observed.step env) (KeepsShareSet env conn) (Observed.start srv) events) :
    (paidOn conn (run (Observed.step env) (Observed.start srv) events)).Nodup := by
  refine (invariant (I := ConnectionInv conn) ?_ (connectionInv_start conn srv) h).nodup
  intro o e hinv hok
  by_cases hpaid : ∃ payment, o.system.observe env e = .paid payment
  · obtain ⟨payment, hpaid⟩ := hpaid
    exact hinv.of_paid hpaid
  · exact hinv.of_quiet hok (fun payment he => hpaid ⟨payment, he⟩)

def loggedIn : List (Event .ZEC) :=
  connectClient 0 ⟨0, 0, 0⟩ 0 ++ [.authorize 0 [] [some (ascii "1.w")] 1 1]

def submitFor (jobId : Bytes) : Event .ZEC :=
  .submit 0 [] (submitParams (ascii "w") jobId) 0 sampleCall

def nextBlock : Event .ZEC := .blockNotify { sampleTemplateZec [] with height := 2 }

def handleNewJob : List (Event .ZEC) :=
  [.visit .control 0, .next .control, .visit .control 0, .next .control, .visit .control 0,
    .next .control]

/-- A share of the first job is sent twice, then one of the next job; each is paid once. -/
theorem paid_once_on_connection_sample :
    (paidOn 0 (run (Observed.step (sampleEnv maxHash)) (Observed.start zecServer)
      (loggedIn ++ submitFor (ascii "00000000") :: submitFor (ascii "00000000") :: nextBlock ::
        handleNewJob ++ [submitFor (ascii "00000001")]))).Nodup :=
  paid_once_on_connection _ _ 0 _ (by decide +kernel)

/-- A share of the new job, sent between `SetNewJob` and `ResetShareSet` and once more after
it, is paid twice. -/
theorem share_paid_twice_on_connection :
    ¬ (paidOn 0 (run (Observed.step (sampleEnv maxHash)) (Observed.start zecServer)
      (loggedIn ++ nextBlock :: submitFor (ascii "00000001") :: handleNewJob ++
        [submitFor (ascii "00000001")]))).Nodup := by
  decide +kernel

/-! ## All connections, for CN -/

def pairOf (payment : Payment .CN) : Bytes × Nat :=
  (ShareCn.jobId payment.share, ShareCn.nonce payment.share)

def submittedPair (uninitialised : Nat) (worker : Bytes) (params : Params) : Option (Bytes × Nat) :=
  match parseShareCn uninitialised worker params with
  | .ok (some share) => some (share.jobId, share.nonce)
  | _ => none

/-- A submission does not repeat a pair paid on another connection for a job that has stayed
since. -/
def OwnPairs (current : List (Payment .CN)) : Event .CN → Prop
  | .submit conn worker params uninitialised _ => ∀ payment ∈ current,
      submittedPair uninitialised worker params = some (pairOf payment) → payment.conn = conn
  | _ => True

instance (current : List (Payment .CN)) : (e : Event .CN) → Decidable (OwnPairs current e)
  | .submit conn worker params uninitialised _ => inferInstanceAs (Decidable (∀ payment ∈ current,
      submittedPair uninitialised worker params = some (pairOf payment) → payment.conn = conn))
  | .loadNonce _ | .storeNonce _ | .connect _ _ _ | .disconnect _ | .authorize _ _ _ _ _
  | .timeout _ _ _ | .pushPendingShares | .blockNotify _ | .listen | .visit _ _ | .next _ => inferInstanceAs (Decidable True)

/-- A share set is not cleared while the job of a share paid on its connection stays. -/
def NothingPaid (current : List (Payment .CN)) : Observation .CN → Prop
  | .cleared conn => ∀ payment ∈ current, payment.conn ≠ conn
  | _ => True

instance (current : List (Payment .CN)) : (obs : Observation .CN) →
    Decidable (NothingPaid current obs)
  | .cleared conn => inferInstanceAs (Decidable (∀ payment ∈ current, payment.conn ≠ conn))
  | .quiet | .paid _ | .granted _ _ _ | .renewed _ => inferInstanceAs (Decidable True)

/-- A step that repeats no pair of another connection and clears no set that is needed. -/
def KeepsPairs (env : Env R) (o : Observed .CN R) (e : Event .CN) : Prop :=
  OwnPairs o.current e ∧ NothingPaid o.current (o.system.observe env e)

instance (env : Env R) (o : Observed .CN R) (e : Event .CN) : Decidable (KeepsPairs env o e) :=
  inferInstanceAs (Decidable (_ ∧ _))

/-- What the CN path hashes: height, template hash and nonce. -/
def hashCn (hashes : Hashes) (job : Job .CN) (payment : Payment .CN) : Hash32 :=
  hashes.longhash (JobCn.toJobBase job).height (JobCn.templateHash job)
    (ShareCn.nonce payment.share)

/-- No pair is paid twice; the job of a payment is known, its hash is that of the pair, and
its client remembers it. -/
structure PairInv (env : Env R) (o : Observed .CN R) : Prop where
  numbered : o.system.Numbered
  paid : ∀ payment ∈ o.current, payment.conn < o.system.connections
  nodup : (o.current.map pairOf).Nodup
  known : ∀ payment ∈ o.current, ∃ job,
    o.system.server.jobManager.getJob (ShareCn.jobId payment.share) = some job ∧
      payment.hash = hashCn env.hashes job payment
  remembered : ∀ payment ∈ o.current, ∀ cli, o.system.clients payment.conn = some cli →
    shareStart payment.hash ∈ cli.shareUset

theorem pairInv_start (env : Env R) (srv : Server .CN R) : PairInv env (Observed.start srv) where
  numbered := by
    intro conn cli h
    cases h
  paid := by
    intro payment h
    cases h
  nodup := List.nodup_nil
  known := by
    intro payment h
    cases h
  remembered := by
    intro payment h
    cases h

theorem PairInv.of_kept {env : Env R} {o o' : Observed .CN R} {obs : Observation .CN}
    (h : PairInv env o) (heff : System.Effect o.system obs o'.system)
    (hcurrent : o'.current = o.current)
    (hjobs : ∀ id job, o.system.server.jobManager.getJob id = some job →
      o'.system.server.jobManager.getJob id = some job)
    (hsets : ∀ cli cli', obs.Changes cli cli' → ∀ payment ∈ o.current,
      obs.about = some payment.conn → cli.shareUset ⊆ cli'.shareUset) : PairInv env o' where
  numbered := heff.numbered h.numbered
  paid := by
    rw [hcurrent]
    exact fun payment hp => (h.paid payment hp).trans_le heff.connections
  nodup := hcurrent ▸ h.nodup
  known := by
    rw [hcurrent]
    intro payment hp
    obtain ⟨job, hjob, hhash⟩ := h.known payment hp
    exact ⟨job, hjobs _ job hjob, hhash⟩
  remembered := by
    rw [hcurrent]
    intro payment hp cli' hcli'
    have hlt := h.paid payment hp
    rcases heff.clients payment.conn cli' hcli' with ⟨hge, -⟩ | ⟨cli, hcli, hch⟩
    · omega
    · have hset := h.remembered payment hp cli hcli
      rcases hch with ⟨habout, hch⟩ | ⟨-, -, hkeep⟩
      · exact hsets cli cli' hch payment hp habout hset
      · rwa [hkeep]

/-- One pair has one hash, whatever the connection it was sent over. -/
theorem PairInv.hash_eq {env : Env R} {o : Observed .CN R} (h : PairInv env o)
    {payment old : Payment .CN} {job : Job .CN} (hold : old ∈ o.current)
    (hjob : o.system.server.jobManager.getJob (ShareCn.jobId payment.share) = some job)
    (hhash : payment.hash = hashCn env.hashes job payment) (hpair : pairOf old = pairOf payment) :
    old.hash = payment.hash := by
  obtain ⟨hid, hnonce⟩ := Prod.mk.inj hpair
  obtain ⟨job', hjob', hhash'⟩ := h.known old hold
  rw [hid] at hjob'
  obtain rfl : job = job' := Option.some.inj (hjob.symm.trans hjob')
  rw [hhash', hhash, hashCn, hnonce]
  rfl

/-- A step that pays a share. A payment for the same pair was made on the same connection, so
its hash is in the client's set. -/
theorem PairInv.of_paid {env : Env R} {o : Observed .CN R} {e : Event .CN}
    (h : PairInv env o) (hown : OwnPairs o.current e) {payment : Payment .CN}
    (hpaid : o.system.observe env e = .paid payment) : PairInv env (o.step env e) := by
  have heff := o.system.step_effect env e
  obtain ⟨cli, job, worker, params, uninitialised, call, rfl, hparse, hcli, hjob, hhash, hnew⟩ :=
    System.observe_paid hpaid
  unfold Observed.step
  rw [hpaid] at heff ⊢
  generalize o.system.step env _ = s' at heff ⊢
  have hlt := h.numbered payment.conn cli hcli
  have hjobs : s'.server.jobManager = o.system.server.jobManager := heff.jobs
  have hown' : ∀ old ∈ o.current, pairOf old = pairOf payment → old.conn = payment.conn := by
    have hpair : submittedPair uninitialised worker params = some (pairOf payment) := by
      change parseShareCn uninitialised worker params = .ok (some payment.share) at hparse
      rw [submittedPair, hparse]
      rfl
    exact fun old hold he => hown old hold (he ▸ hpair)
  have hnumbered := paid_lt_connections heff hlt h.paid
  refine ⟨heff.numbered h.numbered, fun old hold => (hnumbered old hold).2, ?_, ?_, ?_⟩
  · change ((o.current ++ [payment]).map pairOf).Nodup
    refine Table.nodup_append_row h.nodup ?_
    intro old hold hpair
    refine hnew ?_
    rw [← h.hash_eq hold hjob hhash hpair]
    exact h.remembered old hold cli (by rw [hown' old hold hpair]; exact hcli)
  · intro old hold
    change ∃ job, s'.server.jobManager.getJob _ = some job ∧ _
    rw [hjobs]
    rcases List.mem_append.mp hold with hold | hold
    · exact h.known old hold
    · rw [List.mem_singleton.mp hold]
      exact ⟨job, hjob, hhash⟩
  · intro old hold cli' hcli'
    obtain ⟨cli₀, hcli₀, hsub, hset⟩ := shareUset_of_paid heff (hnumbered old hold).1 hcli'
    rcases List.mem_append.mp hold with hold | hold
    · exact hsub (h.remembered old hold cli₀ hcli₀)
    · rw [List.mem_singleton.mp hold] at hset ⊢
      exact hset rfl

theorem PairInv.of_clean {env : Env R} {o o' : Observed .CN R} {obs : Observation .CN}
    (h : PairInv env o) (heff : System.Effect o.system obs o'.system) (hcurrent : o'.current = []) :
    PairInv env o' where
  numbered := heff.numbered h.numbered
  paid := by simp [hcurrent]
  nodup := by simp [hcurrent]
  known := by simp [hcurrent]
  remembered := by simp [hcurrent]

theorem PairInv.step {env : Env R} {o : Observed .CN R} {e : Event .CN} (h : PairInv env o)
    (hok : KeepsPairs env o e) : PairInv env (o.step env e) := by
  have heff := o.system.step_effect env e
  rw [← o.record_system (o.system.step env e) (o.system.observe env e)] at heff
  change System.Effect _ _ (o.step env e).system at heff
  have hcurrent : (o.step env e).current =
      (o.record (o.system.step env e) (o.system.observe env e)).current := rfl
  obtain ⟨hown, hclear⟩ := hok
  cases hobs : o.system.observe env e with
  | paid payment => exact h.of_paid hown hobs
  | quiet =>
    rw [hobs] at heff hcurrent
    exact h.of_kept heff hcurrent (fun _ _ hjob => heff.jobs ▸ hjob) (fun _ _ hch => hch.elim)
  | granted conn worker params =>
    rw [hobs] at heff hcurrent
    refine h.of_kept heff hcurrent (fun _ _ hjob => heff.jobs ▸ hjob) ?_
    rintro cli cli' ⟨name, fid, it, -, rfl⟩ _ _ _
    exact fun _ hmem => hmem
  | renewed job =>
    rw [hobs] at heff hcurrent
    cases hc : job.base.clean with
    | true => exact h.of_clean heff (hcurrent.trans (if_pos hc))
    | false =>
      refine h.of_kept heff (hcurrent.trans (if_neg (by simp [hc]))) ?_ (fun _ _ hch => hch.elim)
      intro id known hknown
      rw [heff.jobs]
      exact JobManager.getJob_setNewJob hc hknown
  | cleared conn =>
    rw [hobs] at heff hcurrent hclear
    refine h.of_kept heff hcurrent (fun _ _ hjob => heff.jobs ▸ hjob) ?_
    intro cli cli' _ payment hp habout
    exact absurd (Option.some.inj habout).symm (hclear payment hp)

/-- **Paid once across connections.** In every run in which no pair of job id and nonce is
sent over two connections while its job stays, and no share set is cleared while the job of a
share paid on it stays, no pair is paid twice while its job stays. -/
theorem paid_once_across_connections (env : Env R) (srv : Server .CN R) (events : List (Event .CN))
    (h : Guarded (Observed.step env) (KeepsPairs env) (Observed.start srv) events) :
    ((run (Observed.step env) (Observed.start srv) events).current.map pairOf).Nodup :=
  (invariant (I := PairInv env) (fun _ _ hinv hok => hinv.step hok) (pairInv_start env srv) h).nodup

def cnServer : Server .CN Round.RoundDb := freshServer (constHashes maxHash) sampleTemplate

def bothLoggedIn : List (Event .CN) :=
  connectClient 0 ⟨0, 0, 0⟩ 0 ++ connectClient 0 ⟨0, 0, 0⟩ 0 ++
    [.authorize 0 (ascii "w") [some (ascii "1")] 1 1, .authorize 1 (ascii "w") [some (ascii "1")] 1 1]

def submitNonce (conn : Nat) (nonce : Bytes) : Event .CN :=
  .submit conn (ascii "w") [some (ascii "0x" ++ nonce), some (ascii "0x" ++ hexlify maxHash.toList),
    some (List.replicate 66 48)] 0 sampleCall

/-- A pair sent twice over one connection is paid once. -/
theorem paid_once_across_connections_sample :
    ((run (Observed.step (sampleEnv maxHash)) (Observed.start cnServer)
        (bothLoggedIn ++ [submitNonce 0 (ascii "0000000000000007"),
          submitNonce 0 (ascii "0000000000000007")])).current.map pairOf).Nodup :=
  paid_once_across_connections _ _ _ (by decide +kernel)

/-- A pair sent over two connections is paid on both. -/
theorem pair_paid_on_two_connections :
    ¬ ((run (Observed.step (sampleEnv maxHash)) (Observed.start cnServer)
        (bothLoggedIn ++ [submitNonce 0 (ascii "0000000000000007"),
          submitNonce 1 (ascii "0000000000000007")])).current.map pairOf).Nodup := by
  decide +kernel

end SickPool.Stratum
