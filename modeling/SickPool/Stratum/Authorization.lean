import SickPool.Stratum.SystemSteps

/-!
# Authorised workers and their submissions

The map of a client holds exactly the worker names of the logins answered `OK` on its
connection. A ZEC login is for `miner.worker` and puts `worker` into the map; a submit
looks up its first parameter as it is. So a miner that submits under the string it
authorised with is turned away, unless some login on the connection was for a string
with that whole string behind its first dot.
-/
namespace SickPool.Stratum

open SickPool.Library SickPool.Library.Bytes SickPool.Library.Run SickPool.Jobs
open SickPool.Persistence SickPool.Shares

variable {p : StratumProtocol} {R : Type}

/-! ## The map of a client -/

def LoggedIn (o : Observed p R) (conn : Nat) (name : Bytes) : Prop :=
  ∃ login ∈ o.logins, login.conn = conn ∧ loginName p login.worker login.params = some name

/-- The maps of the clients are the logins answered `OK`. -/
structure AuthorizedInv (o : Observed p R) : Prop where
  numbered : o.system.Numbered
  logins : ∀ login ∈ o.logins, login.conn < o.system.connections
  workers : ∀ conn cli, o.system.clients conn = some cli →
    ∀ name, (cli.getAuthorizedId name).isSome ↔ LoggedIn o conn name

theorem authorizedInv_start (srv : Server p R) : AuthorizedInv (Observed.start srv) where
  numbered := by
    intro conn cli h
    cases h
  logins := by
    intro login h
    cases h
  workers := by
    intro conn cli h
    cases h

theorem loggedIn_granted {o : Observed p R} {system : System p R} {conn c : Nat}
    {worker name : Bytes} {params : Params} :
    LoggedIn (o.record system (.granted c worker params)) conn name ↔
      LoggedIn o conn name ∨ c = conn ∧ loginName p worker params = some name := by
  unfold LoggedIn
  simp only [Observed.record, List.mem_append, List.mem_singleton]
  constructor
  · rintro ⟨login, hmem | rfl, hconn, hname⟩
    · exact .inl ⟨login, hmem, hconn, hname⟩
    · exact .inr ⟨hconn, hname⟩
  · rintro (⟨login, hmem, hconn, hname⟩ | ⟨hconn, hname⟩)
    · exact ⟨login, .inl hmem, hconn, hname⟩
    · exact ⟨⟨c, worker, params⟩, .inr rfl, hconn, hname⟩

theorem record_logins (o : Observed p R) (system : System p R) {obs : Observation p}
    (h : ∀ conn worker params, obs ≠ .granted conn worker params) :
    (o.record system obs).logins = o.logins := by
  cases obs with
  | granted conn worker params => exact absurd rfl (h conn worker params)
  | _ => rfl

theorem AuthorizedInv.not_loggedIn {o : Observed p R} (h : AuthorizedInv o) {conn : Nat}
    (hge : o.system.connections ≤ conn) (name : Bytes) : ¬ LoggedIn o conn name := by
  rintro ⟨login, hl, rfl, -⟩
  have hlt := h.logins login hl
  omega

/-- A login answered `OK` puts its name into the map of its client and on the books. -/
theorem AuthorizedInv.of_granted {o : Observed p R} (h : AuthorizedInv o) {s' : System p R}
    {c : Nat} {worker : Bytes} {params : Params}
    (heff : System.Effect o.system (.granted c worker params) s') :
    AuthorizedInv (o.record s' (.granted c worker params)) := by
  obtain ⟨cli₀, hcli₀⟩ := Option.isSome_iff_exists.mp (heff.present c rfl)
  have hc : c < o.system.connections := h.numbered c cli₀ hcli₀
  refine ⟨heff.numbered h.numbered, ?_, ?_⟩
  · intro login hl
    rcases List.mem_append.mp hl with hl | hl
    · exact (h.logins login hl).trans_le heff.connections
    · rw [List.mem_singleton.mp hl]
      exact hc.trans_le heff.connections
  · intro conn cli' hcli' name
    rw [loggedIn_granted]
    rcases heff.clients conn cli' hcli' with ⟨hge, -, hnone, -⟩ | ⟨cli, hcli, hch⟩
    · have hne : c ≠ conn := by omega
      simp [StratumClient.getAuthorizedId, hnone, h.not_loggedIn hge name, hne]
    · rcases hch with ⟨ha, granted, fid, it, hname, rfl⟩ | ⟨ha, hw, -⟩
      · obtain rfl := Option.some.inj ha
        rw [StratumClient.authorizeWorker_getAuthorizedId, h.workers _ cli hcli, hname]
        simp [eq_comm]
      · have hne : c ≠ conn := fun he => ha (congrArg some he)
        rw [or_iff_left (fun hc => hne hc.1), StratumClient.getAuthorizedId, hw]
        exact h.workers conn cli hcli name

/-- Any other step leaves the maps and the logins alone. -/
theorem AuthorizedInv.of_other {o : Observed p R} (h : AuthorizedInv o) {s' : System p R}
    {obs : Observation p} (heff : System.Effect o.system obs s')
    (hobs : ∀ conn worker params, obs ≠ .granted conn worker params) :
    AuthorizedInv (o.record s' obs) := by
  have hlogins : (o.record s' obs).logins = o.logins := record_logins o s' hobs
  refine ⟨?_, ?_, ?_⟩
  · rw [Observed.record_system]
    exact heff.numbered h.numbered
  · rw [Observed.record_system, hlogins]
    exact fun login hl => (h.logins login hl).trans_le heff.connections
  · intro conn cli' hcli' name
    rw [Observed.record_system] at hcli'
    rw [LoggedIn, hlogins]
    rcases heff.clients conn cli' hcli' with ⟨hge, -, hnone, -⟩ | ⟨cli, hcli, hch⟩
    · have hnot := h.not_loggedIn hge name
      rw [LoggedIn] at hnot
      simp [StratumClient.getAuthorizedId, hnone, hnot]
    · have hw : cli'.authorizedWorkers = cli.authorizedWorkers := by
        rcases hch with ⟨-, hch⟩ | ⟨-, hw, -⟩
        · cases obs with
          | granted c worker params => exact absurd rfl (hobs c worker params)
          | paid payment => exact hch.1
          | cleared c => exact hch.1
          | quiet => exact hch.elim
          | renewed job => exact hch.elim
        · exact hw
      rw [StratumClient.getAuthorizedId, hw]
      exact h.workers conn cli hcli name

theorem AuthorizedInv.step (env : Env R) {o : Observed p R} (h : AuthorizedInv o) (e : Event p) :
    AuthorizedInv (o.step env e) := by
  have heff := o.system.step_effect env e
  unfold Observed.step
  by_cases hg : ∃ conn worker params, o.system.observe env e = .granted conn worker params
  · obtain ⟨conn, worker, params, hobs⟩ := hg
    rw [hobs] at heff ⊢
    exact h.of_granted heff
  · exact h.of_other heff (fun conn worker params he => hg ⟨conn, worker, params, he⟩)

/-- In every run the maps are the logins answered `OK`. -/
theorem authorizedInv_run (env : Env R) (srv : Server p R) (events : List (Event p)) :
    AuthorizedInv (run (Observed.step env) (Observed.start srv) events) :=
  invariant (fun _ e h _ => h.step env e) (authorizedInv_start srv) (guarded_true _ _ events)

/-! ## Submitting under the string of the login -/

theorem parseShareZec_worker {uninitialised : Nat} {params : Params} {s : Bytes} {share : ShareZec}
    (hs : params.head? = some (some s)) (h : parseShareZec uninitialised params = .ok share) :
    share.worker = s := by
  obtain ⟨rest, rfl⟩ : ∃ rest, params = some s :: rest := by
    cases params with
    | nil => cases hs
    | cons param rest => exact ⟨rest, by rw [Option.some.inj hs]⟩
  simp only [parseShareZec, zecFields, parseShareParams, getArrField, ne_eq, not_true_eq_false,
    and_false, ↓reduceIte] at h
  revert h
  generalize parseShareParams _ rest = parsed
  cases parsed with
  | error err => exact fun h => by cases h
  | ok values => exact fun h => by cases h; rfl

theorem loginName_zec {worker s : Bytes} {params : Params} :
    loginName .ZEC worker params = some s ↔
      ∃ miner, (46 : UInt8) ∉ miner ∧ params.head? = some (some (miner ++ 46 :: s)) := by
  unfold loginName
  constructor
  · intro h
    obtain ⟨⟨miner, worker⟩, hsplit, rfl⟩ := Option.map_eq_some_iff.mp h
    obtain ⟨workerFull, hhead, hsplit⟩ := Option.bind_eq_some_iff.mp hsplit
    obtain ⟨hm, rfl⟩ := splitWorker_eq_some.mp hsplit
    exact ⟨miner, hm, Option.join_eq_some_iff.mp hhead⟩
  · rintro ⟨miner, hm, hhead⟩
    simp [hhead, splitWorker_eq_some.mpr ⟨hm, rfl⟩]

/-- **Who may submit.** On a connection, in the state any run has reached, a submit whose
first parameter is `s` is not answered `UNAUTHORIZED_WORKER` exactly when its fields do not
parse, or a login answered `OK` on the connection was for a string with `s` behind its first
dot. -/
theorem submit_served_iff (env : Env R) (srv : Server .ZEC R) (events : List (Event .ZEC))
    {conn : Nat} {cli : StratumClient} {s : Bytes} {params : Params} (uninitialised : Nat)
    (call : Call)
    (hcli : (run (Observed.step env) (Observed.start srv) events).system.clients conn = some cli)
    (hs : params.head? = some (some s)) :
    (∀ o ∈ handleSubmitZec env (run (Observed.step env) (Observed.start srv) events).system.server
        cli params uninitialised call, o.result.code ≠ .UNAUTHORIZED_WORKER) ↔
      (∃ err, parseShareZec uninitialised params = .error err) ∨
      ∃ login ∈ (run (Observed.step env) (Observed.start srv) events).logins, login.conn = conn ∧
        ∃ miner, (46 : UInt8) ∉ miner ∧
          login.params.head? = some (some (miner ++ 46 :: s)) := by
  have hworkers := (authorizedInv_run env srv events).workers conn cli hcli s
  cases hparse : parseShareZec uninitialised params with
  | error err => simp [handleSubmitZec, hparse, parseFailure]
  | ok share =>
    have hname := parseShareZec_worker hs hparse
    have hiff := handleShare_unauthorized_iff (p := .ZEC) env
      (run (Observed.step env) (Observed.start srv) events).system.server cli share call
    have hserved : (∀ o ∈ handleSubmitZec env
        (run (Observed.step env) (Observed.start srv) events).system.server cli params uninitialised
          call, o.result.code ≠ .UNAUTHORIZED_WORKER) ↔ (cli.getAuthorizedId s).isSome := by
      unfold handleSubmitZec
      simp only [hparse]
      split
      · -- the process dies of a share whose worker is authorised
        rename_i hnull
        exact iff_of_true (by simp) (hname ▸ authorized_of_readsNull hnull)
      · simp only [Option.mem_def, Option.some.injEq, forall_eq']
        rw [ne_eq, hiff, ← ne_eq, Option.ne_none_iff_isSome,
          show Share.worker (p := .ZEC) share = s from hname]
    rw [hserved, hworkers, or_iff_right (by simp)]
    simp only [LoggedIn, loginName_zec]

/-! ## A worker that is turned away -/

def loginEvents (names : List Bytes) : List (Event .ZEC) :=
  connectClient 0 ⟨0, 0, 0⟩ 0 ++ names.map (fun name => .authorize 0 [] [some name] 1 1)

/-- The worker `1.w` may submit after a login of `1.w` and one of `1.1.w`. -/
theorem submit_served_iff_nested :
    ∃ o, handleSubmitZec (sampleEnv maxHash)
        (run (Observed.step (sampleEnv maxHash)) (Observed.start zecServer)
          (loginEvents [ascii "1.w", ascii "1.1.w"])).system.server
        (((run (Observed.step (sampleEnv maxHash)) (Observed.start zecServer)
          (loginEvents [ascii "1.w", ascii "1.1.w"])).system.clients 0).get (by decide +kernel))
        (submitParams (ascii "1.w") (ascii "00000000")) 0 sampleCall = some o ∧
      o.result.code ≠ .UNAUTHORIZED_WORKER := by
  refine ⟨_, (Option.some_get (by decide +kernel)).symm, ?_⟩
  refine (submit_served_iff (sampleEnv maxHash) zecServer
    (loginEvents [ascii "1.w", ascii "1.1.w"]) (s := ascii "1.w") 0 sampleCall
    (Option.some_get _).symm rfl).mpr ?_ _ (Option.get_mem _)
  exact .inr ⟨⟨0, [], [some (ascii "1.1.w")]⟩, by decide +kernel, rfl, ascii "1",
    by decide +kernel, by decide +kernel⟩

/-- A client logs in as `1.w`, which is answered `OK`, and submits as `1.w`, which is
answered `UNAUTHORIZED_WORKER`. -/
theorem authorized_worker_rejected :
    (run (Observed.step (sampleEnv maxHash)) (Observed.start zecServer)
        (loginEvents [ascii "1.w"])).logins = [⟨0, [], [some (ascii "1.w")]⟩] ∧
      (handleSubmitZec (sampleEnv maxHash)
        (run (Observed.step (sampleEnv maxHash)) (Observed.start zecServer)
          (loginEvents [ascii "1.w"])).system.server
        (((run (Observed.step (sampleEnv maxHash)) (Observed.start zecServer)
          (loginEvents [ascii "1.w"])).system.clients 0).get (by decide +kernel))
        (submitParams (ascii "1.w") (ascii "00000000")) 0 sampleCall).map (·.result.code) =
        some .UNAUTHORIZED_WORKER := by
  constructor <;> decide +kernel

end SickPool.Stratum
