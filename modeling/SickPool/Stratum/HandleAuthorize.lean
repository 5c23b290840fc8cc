import SickPool.Stratum.StratumServer

/-!
# What `HandleAuthorize` does

An authorisation that is answered `OK` puts the worker name into the client's map, any
other leaves the client as it was; the jobs are left alone by both. The name is the part
behind the first dot for ZEC and the name in the request for CN.
-/
namespace SickPool.Stratum

open SickPool.Library SickPool.Library.Bytes SickPool.Jobs SickPool.Persistence SickPool.Stats
open SickPool.Shares

variable {p : StratumProtocol} {R : Type}

/-- The outcome of an authorisation of `worker`: granted or denied. -/
def Answers (srv : Server p R) (cli : StratumClient) (worker : Bytes) (o : AuthOutcome p R) :
    Prop :=
  o.server.jobManager = srv.jobManager ∧
    ((o.result.code = .OK ∧ ∃ fid it, o.client = cli.authorizeWorker fid worker it) ∨
      (o.result.code ≠ .OK ∧ o.client = cli))

theorem answers_unauthorized {srv srv' : Server p R} (cli : StratumClient) (worker msg : Bytes)
    (h : srv'.jobManager = srv.jobManager) :
    Answers srv cli worker (unauthorized srv' cli msg) :=
  ⟨h, .inr ⟨by simp [unauthorized], rfl⟩⟩

theorem authorizeMiner_answers (env : Env R) {srv srv' : Server p R} (cli : StratumClient)
    (address ali worker : Bytes) (minerId curtime : Nat) (h : srv'.jobManager = srv.jobManager) :
    Answers srv cli worker (authorizeMiner env srv' cli address ali worker minerId curtime) := by
  unfold authorizeMiner
  split
  · exact answers_unauthorized cli worker _ h
  · rename_i store workerId _
    exact ⟨h, .inl ⟨rfl, FullId.ofIds minerId workerId, _, rfl⟩⟩

/-- `HandleAuthorize` turns the worker away, or comes to its second half; until then it writes
to the store only. -/
theorem handleAuthorize_cases (env : Env R) (srv : Server p R) (cli : StratumClient)
    (address worker : Bytes) (time curtime : Nat) :
    (∃ store msg, handleAuthorize env srv cli address worker time curtime =
        unauthorized { srv with store := store } cli msg) ∨
      ∃ store resolved ali minerId, handleAuthorize env srv cli address worker time curtime =
        authorizeMiner env { srv with store := store } cli resolved ali worker minerId
          curtime := by
  unfold handleAuthorize
  split
  · exact .inl ⟨_, _, rfl⟩
  · split
    · exact .inl ⟨_, _, rfl⟩
    · simp only
      split
      · exact .inl ⟨_, _, rfl⟩
      · split
        · split
          · exact .inr ⟨_, _, _, _, rfl⟩
          · exact .inl ⟨_, _, rfl⟩
        · exact .inr ⟨_, _, _, _, rfl⟩

/-- `HandleAuthorize` grants the worker name it is given, or changes nothing of the client. -/
theorem handleAuthorize_answers (env : Env R) (srv : Server p R) (cli : StratumClient)
    (address worker : Bytes) (time curtime : Nat) :
    Answers srv cli worker (handleAuthorize env srv cli address worker time curtime) := by
  rcases handleAuthorize_cases env srv cli address worker time curtime with
    ⟨store, msg, h⟩ | ⟨store, resolved, ali, minerId, h⟩
  · rw [h]
    exact answers_unauthorized cli worker msg rfl
  · rw [h]
    exact authorizeMiner_answers env cli resolved ali worker minerId curtime rfl

/-- An authorisation that is denied leaves the statistics alone. -/
theorem handleAuthorize_denied (env : Env R) (srv : Server p R) (cli : StratumClient)
    (address worker : Bytes) (time curtime : Nat) :
    (handleAuthorize env srv cli address worker time curtime).result.code = .OK ∨
      (handleAuthorize env srv cli address worker time curtime).server.statsManager =
        srv.statsManager := by
  rcases handleAuthorize_cases env srv cli address worker time curtime with
    ⟨store, msg, h⟩ | ⟨store, resolved, ali, minerId, h⟩
  · rw [h]
    exact .inr rfl
  · rw [h]
    unfold authorizeMiner
    split
    · exact .inr rfl
    · exact .inl rfl

/-- The calls behind an authorisation answered `OK`, with the stores between them. -/
structure Granted (env : Env R) (srv : Server p R) (cli : StratumClient)
    (address worker : Bytes) (time curtime : Nat) where
  resolved : Bytes
  ali : Bytes
  minerId : Nat
  workerId : Nat
  added : R
  updated : R
  stored : R
  resolves : resolveAddress env address = .ok (resolved, ali)
  addMiner : StatsManager.addMiner env.layer srv.store
    (env.layer.getMinerId srv.store resolved ali).1 resolved ali env.config.minPayoutThreshold
    time = (added, some minerId)
  updateAlias : updated = added ∨ updated = (env.layer.updateAlias added minerId ali).1
  addWorker : StatsManager.addWorker env.layer updated
    (env.layer.getWorkerId updated (minerId % uint32Size) worker) minerId resolved worker ali
    curtime = (stored, some workerId)
  outcome : handleAuthorize env srv cli address worker time curtime =
    ⟨⟨.OK, ascii "true"⟩,
      { srv with
        store := stored
        statsManager := (srv.statsManager.addExistingWorker (FullId.ofIds minerId workerId)).1 },
      cli.authorizeWorker (FullId.ofIds minerId workerId) worker
        (srv.statsManager.addExistingWorker (FullId.ofIds minerId workerId)).2⟩

theorem authorizeMiner_granted {env : Env R} {srv : Server p R} {cli : StratumClient}
    {address ali worker : Bytes} {minerId curtime : Nat}
    (hok : (authorizeMiner env srv cli address ali worker minerId curtime).result.code = .OK) :
    ∃ store workerId, StatsManager.addWorker env.layer srv.store
        (env.layer.getWorkerId srv.store (minerId % uint32Size) worker) minerId address worker ali
        curtime = (store, some workerId) ∧
      authorizeMiner env srv cli address ali worker minerId curtime =
        ⟨⟨.OK, ascii "true"⟩,
          { srv with
            store := store
            statsManager := (srv.statsManager.addExistingWorker (FullId.ofIds minerId workerId)).1 },
          cli.authorizeWorker (FullId.ofIds minerId workerId) worker
            (srv.statsManager.addExistingWorker (FullId.ofIds minerId workerId)).2⟩ := by
  unfold authorizeMiner at hok ⊢
  split
  · rename_i store hadd
    rw [hadd] at hok
    cases hok
  · rename_i store workerId hadd
    exact ⟨store, workerId, hadd, rfl⟩

theorem handleAuthorize_granted {env : Env R} {srv : Server p R} {cli : StratumClient}
    {address worker : Bytes} {time curtime : Nat}
    (hok : (handleAuthorize env srv cli address worker time curtime).result.code = .OK) :
    Nonempty (Granted env srv cli address worker time curtime) := by
  have heq := handleAuthorize.eq_def env srv cli address worker time curtime
  rw [heq] at hok
  split at hok
  · cases hok
  · rename_i hlen
    split at hok
    · cases hok
    · rename_i resolved ali hres
      simp only at hok
      split at hok
      · cases hok
      · rename_i added minerId hadd
        rw [if_neg hlen, hres] at heq
        simp only [hadd] at heq
        split at hok
        · rename_i hali
          rw [if_pos hali] at heq
          split at hok
          · rename_i updated hup
            obtain ⟨stored, workerId, hworker, hout⟩ := authorizeMiner_granted hok
            simp only [hup] at heq
            exact ⟨⟨resolved, ali, minerId, workerId, added, updated, stored, hres, hadd,
              .inr (by rw [hup]), hworker, heq.trans hout⟩⟩
          · cases hok
        · rename_i hali
          rw [if_neg hali] at heq
          obtain ⟨stored, workerId, hworker, hout⟩ := authorizeMiner_granted hok
          exact ⟨⟨resolved, ali, minerId, workerId, added, added, stored, hres, hadd, .inl rfl,
            hworker, heq.trans hout⟩⟩

/-! ## Splitting the name -/

theorem splitWorker_eq_some {workerFull miner worker : Bytes} :
    splitWorker workerFull = some (miner, worker) ↔
      (46 : UInt8) ∉ miner ∧ workerFull = miner ++ 46 :: worker := by
  unfold splitWorker
  rw [List.span_eq_takeWhile_dropWhile]
  constructor
  · intro h
    split at h
    · rename_i hp
      obtain ⟨hm, hd⟩ := Prod.mk.inj hp
      obtain ⟨rfl, rfl⟩ := Prod.mk.inj (Option.some.inj h)
      -- what stops the search is a dot
      have hdot := List.head?_dropWhile_not (fun c : UInt8 => decide (c ≠ 46)) workerFull
      rw [hd] at hdot
      simp only [List.head?_cons, ne_eq, decide_not, Bool.not_eq_false', decide_eq_true_eq] at hdot
      refine ⟨fun hmem => ?_, ?_⟩
      · rw [← hm] at hmem
        simpa using List.mem_takeWhile_imp hmem
      · rw [hdot] at hd
        rw [← hm, ← hd, List.takeWhile_append_dropWhile]
    · cases h
  · rintro ⟨hm, rfl⟩
    have hall : ∀ c ∈ miner, (fun c : UInt8 => decide (c ≠ 46)) c = true := by
      intro c hc
      exact decide_eq_true (fun he => hm (he ▸ hc))
    rw [List.takeWhile_append_of_pos hall, List.dropWhile_append_of_pos hall]
    simp

end SickPool.Stratum
