import SickPool.Library.Run
import SickPool.Stratum.HandleAuthorize
import SickPool.Stratum.HandleShare

/-!
# Several workers on one connection

The map of a client is keyed by the worker name alone and keeps the first id of a name; its
iterator into the statistics is that of the last authorisation. So the effort of a share goes
to the miner that first used its worker name on the connection, and its statistics go to the
worker that came last.
-/
namespace SickPool.Stratum

open SickPool.Library SickPool.Library.Bytes SickPool.Library.Run SickPool.Jobs
open SickPool.Persistence SickPool.Stats SickPool.Shares

variable {p : StratumProtocol} {R : Type}

/-- A login answered `OK`, with the id it was given. -/
structure IdentityLogin where
  address : Bytes
  worker : Bytes
  fid : FullId
  deriving DecidableEq

/-- The server, one client and the logins answered `OK` on its connection. -/
structure Session (p : StratumProtocol) (R : Type) where
  server : Server p R
  client : StratumClient
  logins : List IdentityLogin

/-- A share carries a worker name only; the address is that of the identity it is meant for. -/
inductive SessionEvent (p : StratumProtocol) where
  | authorize (address worker : Bytes) (time curtime : Nat)
  | share (address : Bytes) (share : Share p) (call : Call)

namespace Session

def start (srv : Server p R) (old : Uninitialised) (extraNonce time : Nat) (diff rate : Double)
    (retargetInterval : Nat) : Session p R :=
  ⟨srv, StratumClient.new old extraNonce time diff rate retargetInterval, []⟩

/-- The id of a login answered `OK`: that of the entry its iterator points to. -/
def grantedId (o : AuthOutcome p R) : Option FullId :=
  o.server.statsManager.owners[o.client.statsIt]?

def step (env : Env R) (s : Session p R) : SessionEvent p → Session p R
  | .authorize address worker time curtime =>
    let o := handleAuthorize env s.server s.client address worker time curtime
    { server := o.server
      client := o.client
      logins := if o.result.code = .OK then
        s.logins ++ ((grantedId o).map (IdentityLogin.mk address worker)).toList else s.logins }
  | .share _ share call =>
    let o := handleShare env s.server s.client share call
    { s with server := o.server, client := o.client }

/-- The id of an identity: that of its last login. -/
def identityId (s : Session p R) (address worker : Bytes) : Option FullId :=
  (s.logins.reverse.find? (fun l => decide (l.address = address ∧ l.worker = worker))).map (·.fid)

/-- The first login under a worker name. -/
def firstLogin (s : Session p R) (worker : Bytes) : Option IdentityLogin :=
  s.logins.find? (fun l => decide (l.worker = worker))

/-- A crediting call is for an id: for its miner, or for an entry that is its own. -/
def GoesTo (sm : StatsManager) (fid : FullId) : Credit → Prop
  | .addRoundShare minerId _ | .addRoundSharePPLNS minerId _ => minerId = fid.minerId
  | .addValidShare it _ => sm.owners[it]? = some fid

/-- Every call that credits a share is for the identity it is meant for. -/
def CreditsIdentity (env : Env R) (s : Session p R) : SessionEvent p → Prop
  | .authorize _ _ _ _ => True
  | .share address share call => ∀ fid, s.identityId address share.worker = some fid →
      ∀ c ∈ (handleShare env s.server s.client share call).credits,
        GoesTo s.server.statsManager fid c

/-- An accepted share is meant for an identity whose miner was the first to log in under the
worker name, and which was the last to log in. -/
def FirstAndLast (env : Env R) (s : Session p R) : SessionEvent p → Prop
  | .authorize _ _ _ _ => True
  | .share address share call => Accepted env s.server s.client share call →
      ∀ fid, s.identityId address share.worker = some fid →
        (∀ l ∈ s.firstLogin share.worker, l.fid.minerId = fid.minerId) ∧
          ∀ l ∈ s.logins.getLast?, l.fid = fid

/-- The map and the iterator in terms of the logins. -/
structure Routed (s : Session p R) : Prop where
  workers : ∀ worker, s.client.getAuthorizedId worker = (s.firstLogin worker).map (·.fid)
  stats : ∀ l ∈ s.logins.getLast?, s.server.statsManager.owners[s.client.statsIt]? = some l.fid

theorem routed_start (srv : Server p R) (old : Uninitialised) (extraNonce time : Nat)
    (diff rate : Double) (retargetInterval : Nat) :
    Routed (start srv old extraNonce time diff rate retargetInterval) :=
  ⟨fun _ => rfl, by simp [start]⟩

/-- A login answered `OK` is on the books with the id given to `AuthorizeWorker`. -/
theorem step_granted (env : Env R) {s : Session p R} {address worker : Bytes} {time curtime : Nat}
    (hok : (handleAuthorize env s.server s.client address worker time curtime).result.code = .OK) :
    ∃ fid, (step env s (.authorize address worker time curtime)).logins =
        s.logins ++ [⟨address, worker, fid⟩] ∧
      (step env s (.authorize address worker time curtime)).client =
        s.client.authorizeWorker fid worker s.server.statsManager.owners.length ∧
      (step env s (.authorize address worker time curtime)).server.statsManager.owners =
        s.server.statsManager.owners ++ [fid] := by
  obtain ⟨g⟩ := handleAuthorize_granted hok
  have howners : (handleAuthorize env s.server s.client address worker time
      curtime).server.statsManager.owners =
      s.server.statsManager.owners ++ [FullId.ofIds g.minerId g.workerId] := by
    rw [g.outcome]
    simp [StatsManager.addExistingWorker, StatsManager.owners]
  have hcli : (handleAuthorize env s.server s.client address worker time curtime).client =
      s.client.authorizeWorker (FullId.ofIds g.minerId g.workerId) worker
        s.server.statsManager.owners.length := by
    rw [g.outcome]
    simp [StatsManager.addExistingWorker, StatsManager.owners]
  have hid : grantedId (handleAuthorize env s.server s.client address worker time curtime) =
      some (FullId.ofIds g.minerId g.workerId) := by
    rw [grantedId, howners, hcli]
    exact List.getElem?_concat_length
  refine ⟨FullId.ofIds g.minerId g.workerId, ?_, hcli, howners⟩
  simp only [step, hok, ↓reduceIte, hid]
  rfl

theorem Routed.of_same {s s' : Session p R} (h : Routed s) (hlogins : s'.logins = s.logins)
    (hworkers : s'.client.authorizedWorkers = s.client.authorizedWorkers)
    (hit : s'.client.statsIt = s.client.statsIt)
    (howners : s'.server.statsManager.owners = s.server.statsManager.owners) : Routed s' := by
  refine ⟨fun name => ?_, fun l hl => ?_⟩
  · have hname := h.workers name
    rw [StratumClient.getAuthorizedId, firstLogin] at hname ⊢
    rw [hworkers, hlogins]
    exact hname
  · rw [hlogins] at hl
    rw [howners, hit]
    exact h.stats l hl

/-- A login answered `OK` is the first under its name if there was none, and it is the last. -/
theorem routed_granted (env : Env R) {s : Session p R} (h : Routed s) {address worker : Bytes}
    {time curtime : Nat}
    (hok : (handleAuthorize env s.server s.client address worker time curtime).result.code = .OK) :
    Routed (step env s (.authorize address worker time curtime)) := by
  obtain ⟨fid, hlogins, hcli, howners⟩ := step_granted env hok
  refine ⟨fun name => ?_, fun l hl => ?_⟩
  · rw [firstLogin, hlogins, List.find?_append, Option.map_or, hcli,
      StratumClient.authorizeWorker_lookup, h.workers name]
    by_cases hn : name = worker
    · simp [firstLogin, hn]
    · have hn' : ¬ worker = name := fun he => hn he.symm
      simp [firstLogin, hn, hn']
  · rw [hlogins, List.getLast?_concat] at hl
    obtain rfl := Option.some.inj hl
    rw [howners, hcli]
    exact List.getElem?_concat_length

theorem routed_step (env : Env R) {s : Session p R} (h : Routed s) (e : SessionEvent p) :
    Routed (step env s e) := by
  cases e with
  | authorize address worker time curtime =>
    by_cases hok : (handleAuthorize env s.server s.client address worker time
        curtime).result.code = .OK
    · exact routed_granted env h hok
    · have hsm := (handleAuthorize_denied env s.server s.client address worker time
        curtime).resolve_left hok
      rcases (handleAuthorize_answers env s.server s.client address worker time curtime).2 with
        ⟨hgranted, -⟩ | ⟨-, hcli⟩
      · exact absurd hgranted hok
      · exact h.of_same (if_neg hok) (congrArg StratumClient.authorizedWorkers hcli)
          (congrArg StratumClient.statsIt hcli) (congrArg StatsManager.owners hsm)
  | share address share call =>
    obtain ⟨hworkers, hit⟩ := handleShare_routes env s.server s.client share call
    exact h.of_same rfl hworkers hit (handleShare_owners env s.server s.client share call)

/-- Whom an accepted share is credited to. -/
theorem goesTo_iff {env : Env R} {s : Session p R} (h : Routed s) {share : Share p} {call : Call}
    (hacc : Accepted env s.server s.client share call) (fid : FullId) :
    (∀ c ∈ (handleShare env s.server s.client share call).credits,
        GoesTo s.server.statsManager fid c) ↔
      (∀ l ∈ s.firstLogin share.worker, l.fid.minerId = fid.minerId) ∧
        ∀ l ∈ s.logins.getLast?, l.fid = fid := by
  obtain ⟨id, hid, effort, diff, hcredits⟩ := handleShare_credits hacc
  rw [h.workers] at hid
  obtain ⟨first, hfirst, rfl⟩ := Option.map_eq_some_iff.mp hid
  -- there was a login, so there is a last one
  have hne : s.logins ≠ [] := fun hnil => by simp [firstLogin, hnil] at hfirst
  have hlast := List.getLast?_eq_some_getLast hne
  have hstats := h.stats _ hlast
  have hboth : (∀ c ∈ (handleShare env s.server s.client share call).credits,
      GoesTo s.server.statsManager fid c) ↔
      first.fid.minerId = fid.minerId ∧
        s.server.statsManager.owners[s.client.statsIt]? = some fid := by
    rcases hcredits with hc | hc
    · rw [hc]
      simp [GoesTo]
    · rw [hc]
      simp [GoesTo]
  rw [hboth, hfirst, hlast, hstats]
  simp

/-- A share that is not accepted is not credited. -/
theorem creditsIdentity_iff {env : Env R} {s : Session p R} (h : Routed s) (e : SessionEvent p) :
    CreditsIdentity env s e ↔ FirstAndLast env s e := by
  cases e with
  | authorize address worker time curtime => exact Iff.rfl
  | share address share call =>
    by_cases hacc : Accepted env s.server s.client share call
    · simp only [CreditsIdentity, FirstAndLast, goesTo_iff h hacc]
      exact ⟨fun hall _ => hall, fun hall => hall hacc⟩
    · have hnil := (handleShare_rejected hacc).1.credits
      refine iff_of_true (fun fid _ c hc => ?_) (fun ha => absurd ha hacc)
      rw [hnil] at hc
      cases hc

/-- **Credit routing.** On a new connection, every share of a run is credited to the identity
it is meant for exactly if every accepted share is meant for an identity whose miner logged in
first under its worker name, and which logged in last. -/
theorem credit_routing_iff (env : Env R) (srv : Server p R) (old : Uninitialised)
    (extraNonce time : Nat) (diff rate : Double) (retargetInterval : Nat)
    (events : List (SessionEvent p)) :
    Guarded (step env) (CreditsIdentity env)
        (start srv old extraNonce time diff rate retargetInterval) events ↔
      Guarded (step env) (FirstAndLast env)
        (start srv old extraNonce time diff rate retargetInterval) events :=
  guarded_congr (I := Routed) (fun _ e h => routed_step env h e)
    (fun _ e h => creditsIdentity_iff h e)
    (routed_start srv old extraNonce time diff rate retargetInterval) events

/-! ## Two miners with one worker name -/

/-- The miners `1` and `11` log in as worker `w`. -/
def twoMiners : List (SessionEvent .CN) :=
  [.authorize (ascii "1") (ascii "w") 0 0, .authorize (ascii "11") (ascii "w") 0 0]

def twoMinersSession : Session .CN Round.RoundDb :=
  run (step (sampleEnv maxHash)) (start (freshServer (constHashes maxHash) sampleTemplate)
    ⟨0, 0, 0⟩ 0 0 1 30 60) twoMiners

/-- Both logins are answered `OK`. A share of miner 2 is credited to miner 1 by effort, and to
miner 2 in the statistics. -/
theorem share_credited_elsewhere :
    twoMinersSession.logins =
        [⟨ascii "1", ascii "w", ⟨1, 1⟩⟩, ⟨ascii "11", ascii "w", ⟨2, 2⟩⟩] ∧
      twoMinersSession.identityId (ascii "11") (ascii "w") = some ⟨2, 2⟩ ∧
      (handleShare (p := .CN) (sampleEnv maxHash) twoMinersSession.server twoMinersSession.client
        sampleShare sampleCall).server.roundManager.effortsMap.map Prod.fst = [1] ∧
      ¬ CreditsIdentity (sampleEnv maxHash) twoMinersSession
        (.share (ascii "11") sampleShare sampleCall) := by
  refine ⟨by decide +kernel, by decide +kernel, by decide +kernel, fun h => ?_⟩
  have hcredit : Credit.addRoundSharePPLNS 1 1 ∈ (handleShare (p := .CN) (sampleEnv maxHash)
      twoMinersSession.server twoMinersSession.client sampleShare sampleCall).credits := by
    decide +kernel
  have hminer : (1 : Nat) = 2 := h ⟨2, 2⟩ (by decide +kernel) _ hcredit
  cases hminer

end Session
end SickPool.Stratum
