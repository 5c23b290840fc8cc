import SickPool.Stratum.System

/-!
# The sweep of the clients

The second loop of `HandleNewJob` under the shared lock on `clients`. It disconnects clients
of too low a difficulty, for which `DisconnectClient` takes the lock exclusively, and it writes
the difficulty of a client after the iterator has gone on, to the entry of the next one.
-/
namespace SickPool.Stratum

open SickPool.Library SickPool.Library.Run SickPool.Jobs SickPool.Stats

/-- An entry of `clients`: the connection with its client, and the value of the map. -/
structure Entry where
  conn : Nat
  cli : StratumClient
  diff : Double

/-- `std::map` keeps its keys in order. -/
structure ClientMap where
  entries : List Entry
  ordered : (entries.map Entry.conn).Pairwise (· < ·)

/-- How the loop ends: at the end of the map, with what is left of it, the connections visited
and those disconnected; with a wait for the lock; at an entry that has been erased; or with a
write to the end position. -/
inductive SweepEnd where
  | finished (statsManager : StatsManager) (clients : List Entry) (visited disconnected : List Nat)
  | blocked
  | erased
  | wroteEnd (statsManager : StatsManager) (clients : List Entry) (diff : Double)

/-- `DisconnectClient` of a thread that holds the lock shared. What `std::shared_mutex` then does
is undefined; it waits forever unless it is `reentrant`. -/
def disconnectClient (reentrant : Bool) (statsManager : StatsManager) (clients : List Entry)
    (e : Entry) : Option (StatsManager × List Entry) :=
  if reentrant then
    some (statsManager.popWorker e.cli.statsIt, clients.filter (fun e' => e'.conn ≠ e.conn))
  else none

/-- The loop with the iterator between `before` and the list it recurses on. -/
def sweepLoop (reentrant : Bool) (minimumDiff : Double) (statsManager : StatsManager)
    (before : List Entry) : List Entry → SweepEnd
  | [] => .finished statsManager before (before.map Entry.conn) []
  | e :: after =>
    if e.cli.currentDiff < minimumDiff then
      match disconnectClient reentrant statsManager (before ++ e :: after) e with
      | none => .blocked
      -- `it++` goes on from the entry that is gone
      | some _ => .erased
    else
      match after with
      | [] => .wroteEnd statsManager (before ++ [e]) e.cli.currentDiff
      | next :: after => sweepLoop reentrant minimumDiff statsManager (before ++ [e])
          ({ next with diff := e.cli.currentDiff } :: after)
  termination_by after => after.length

def sweep (reentrant : Bool) (minimumDiff : Double) (statsManager : StatsManager)
    (clients : ClientMap) : SweepEnd :=
  sweepLoop reentrant minimumDiff statsManager [] clients.entries

/-! ## What the sweep is for -/

/-- Every client is visited once, those below the minimum are disconnected, and the others are
mapped to their own difficulties. -/
def Sweeps (minimumDiff : Double) (clients : ClientMap) (res : SweepEnd) : Prop :=
  ∃ statsManager, res = .finished statsManager
    ((clients.entries.filter (fun e => ¬ e.cli.currentDiff < minimumDiff)).map
      (fun e => { e with diff := e.cli.currentDiff }))
    (clients.entries.map Entry.conn)
    ((clients.entries.filter (fun e => e.cli.currentDiff < minimumDiff)).map Entry.conn)

/-! ## What it does -/

/-- The entries with the first one mapped to `diff` and each other to the difficulty of the client
before it. -/
def shifted (diff : Double) : List Entry → List Entry
  | [] => []
  | e :: after => { e with diff } :: shifted e.cli.currentDiff after

/-- The difficulty of the last client. -/
def lastDiff (diff : Double) : List Entry → Double
  | [] => diff
  | e :: after => lastDiff e.cli.currentDiff after

section SweepLoop

variable {reentrant : Bool} {minimumDiff : Double} {statsManager : StatsManager}

/-- The entry behind `before` has been written to already, those behind it have not. -/
theorem sweepLoop_above {before : List Entry} {e : Entry} {after : List Entry}
    (h : ∀ e' ∈ e :: after, ¬ e'.cli.currentDiff < minimumDiff) :
    sweepLoop reentrant minimumDiff statsManager before (e :: after) =
      .wroteEnd statsManager (before ++ e :: shifted e.cli.currentDiff after)
        (lastDiff e.cli.currentDiff after) := by
  induction after generalizing before e with
  | nil =>
    rw [sweepLoop, if_neg (h e (List.mem_cons_self ..))]
    rfl
  | cons next after ih =>
    have hnext : ∀ e' ∈ { next with diff := e.cli.currentDiff } :: after,
        ¬ e'.cli.currentDiff < minimumDiff := by
      intro e' he'
      rcases List.mem_cons.mp he' with rfl | he'
      · exact h next (List.mem_cons_of_mem _ (List.mem_cons_self ..))
      · exact h e' (List.mem_cons_of_mem _ (List.mem_cons_of_mem _ he'))
    rw [sweepLoop, if_neg (h e (List.mem_cons_self ..))]
    rw [ih hnext, List.append_assoc]
    rfl

/-- A client below the minimum is the last one visited. -/
theorem sweepLoop_head_below {before after : List Entry} {e : Entry}
    (h : e.cli.currentDiff < minimumDiff) :
    sweepLoop reentrant minimumDiff statsManager before (e :: after) =
      if reentrant then .erased else .blocked := by
  rw [sweepLoop.eq_def]
  dsimp only
  rw [if_pos h, disconnectClient]
  cases reentrant <;> rfl

/-- The loop gets as far as the first client below the minimum. -/
theorem sweepLoop_below {before entries : List Entry}
    (h : ∃ e ∈ entries, e.cli.currentDiff < minimumDiff) :
    sweepLoop reentrant minimumDiff statsManager before entries =
      if reentrant then .erased else .blocked := by
  induction hn : entries.length generalizing before entries with
  | zero =>
    obtain ⟨e, he, -⟩ := h
    rw [List.length_eq_zero_iff.mp hn] at he
    exact absurd he List.not_mem_nil
  | succ n ih =>
    obtain ⟨low, hmem, hlow⟩ := h
    match entries, hn with
    | [e], _ =>
      obtain rfl := List.mem_singleton.mp hmem
      exact sweepLoop_head_below hlow
    | e :: next :: after, hn =>
      by_cases hbelow : e.cli.currentDiff < minimumDiff
      · exact sweepLoop_head_below hbelow
      · rw [sweepLoop, if_neg hbelow]
        apply ih
        · rcases List.mem_cons.mp hmem with rfl | hmem
          · exact absurd hlow hbelow
          · rcases List.mem_cons.mp hmem with rfl | hmem
            · exact ⟨_, List.mem_cons_self .., hlow⟩
            · exact ⟨low, List.mem_cons_of_mem _ hmem, hlow⟩
        · simpa using hn

end SweepLoop

section Sweep

variable (reentrant : Bool) (minimumDiff : Double) (statsManager : StatsManager)
  (clients : ClientMap)

/-- How a sweep ends: there is nobody; a client is below the minimum; or every difficulty has
been moved on. -/
theorem sweep_cases :
    (clients.entries = [] ∧
      sweep reentrant minimumDiff statsManager clients = .finished statsManager [] [] []) ∨
    ((∃ e ∈ clients.entries, e.cli.currentDiff < minimumDiff) ∧
      sweep reentrant minimumDiff statsManager clients =
        if reentrant then .erased else .blocked) ∨
    (clients.entries ≠ [] ∧ (∀ e ∈ clients.entries, ¬ e.cli.currentDiff < minimumDiff) ∧
      ∃ moved diff,
        sweep reentrant minimumDiff statsManager clients = .wroteEnd statsManager moved diff) := by
  rw [sweep]
  by_cases hlow : ∃ e ∈ clients.entries, e.cli.currentDiff < minimumDiff
  · exact .inr (.inl ⟨hlow, sweepLoop_below hlow⟩)
  · have habove : ∀ e ∈ clients.entries, ¬ e.cli.currentDiff < minimumDiff := by
      intro e he hbelow
      exact hlow ⟨e, he, hbelow⟩
    cases hentries : clients.entries with
    | nil =>
      left
      rw [sweepLoop]
      exact ⟨rfl, rfl⟩
    | cons e after =>
      rw [hentries] at habove
      exact .inr (.inr ⟨List.cons_ne_nil _ _, habove, _, _, sweepLoop_above habove⟩)

theorem sweep_blocked_iff :
    sweep false minimumDiff statsManager clients = .blocked ↔
      ∃ e ∈ clients.entries, e.cli.currentDiff < minimumDiff := by
  rcases sweep_cases false minimumDiff statsManager clients with
    ⟨hnil, hsweep⟩ | ⟨hlow, hsweep⟩ | ⟨-, habove, moved, diff, hsweep⟩
  · rw [hsweep, hnil]
    simp
  · rw [hsweep]
    exact iff_of_true rfl hlow
  · rw [hsweep]
    refine iff_of_false (by simp) ?_
    intro ⟨e, he, hbelow⟩
    exact habove e he hbelow

/-- The sweep does what it is for exactly if there is nobody to sweep. -/
theorem sweeps_iff :
    Sweeps minimumDiff clients (sweep reentrant minimumDiff statsManager clients) ↔
      clients.entries = [] := by
  rcases sweep_cases reentrant minimumDiff statsManager clients with
    ⟨hnil, hsweep⟩ | ⟨⟨e, he, -⟩, hsweep⟩ | ⟨hne, -, moved, diff, hsweep⟩
  · refine iff_of_true ⟨statsManager, ?_⟩ hnil
    rw [hsweep, hnil]
    rfl
  · refine iff_of_false ?_ (List.ne_nil_of_mem he)
    intro ⟨statsManager', hres⟩
    rw [hsweep] at hres
    cases reentrant <;> exact absurd hres (by simp)
  · refine iff_of_false ?_ hne
    intro ⟨statsManager', hres⟩
    rw [hsweep] at hres
    exact absurd hres (by simp)

end Sweep

/-! ## The sweep as a part of the system -/

section Visits

variable {p : StratumProtocol} {R : Type} {env : Env R} {thread : Thread} {job : Job p}

/-- A thread that waits for the lock does not go on. -/
theorem visits_of_blocked {s : System p R} (h : s.phase thread = .blocked) (conns : List Nat) :
    run (System.step env) s (conns.map (Event.visit thread)) = s := by
  induction conns with
  | nil => rfl
  | cons conn conns ih =>
    have hstep : System.step env s (.visit thread conn) = s := by
      rw [System.step]
      split
      · rfl
      · rw [h]
    rw [List.map_cons, run_cons, hstep, ih]

/-- The step of the system is the body of the loop. -/
theorem step_visit_sweep {s : System p R} {conn : Nat} {conns : List Nat} {cli : StratumClient}
    (hrunning : s.terminated = false) (hphase : s.phase thread = .loop .sweep job (conn :: conns))
    (hcli : s.clients conn = some cli) :
    System.step env s (.visit thread conn) =
      if cli.currentDiff < env.config.minimumDiff then (s.popWorker cli).setPhase thread .blocked
      else s.setPhase thread (.loop .sweep job conns) := by
  rw [System.step, if_neg (by simp [hrunning])]
  rw [hphase]
  dsimp only
  rw [hcli]
  dsimp only
  rw [if_pos (List.mem_cons_self ..), List.erase_cons_head]
  rfl

/-- A thread of the system that visits the clients in order ends up waiting for the lock exactly
if the loop does. -/
theorem visits_blocked_iff {s : System p R} (clients : ClientMap) (hrunning : s.terminated = false)
    (hphase : s.phase thread = .loop .sweep job (clients.entries.map Entry.conn))
    (hclients : ∀ e ∈ clients.entries, s.clients e.conn = some e.cli) :
    (run (System.step env) s ((clients.entries.map Entry.conn).map (Event.visit thread))).phase
        thread = .blocked ↔
      sweep false env.config.minimumDiff s.server.statsManager clients = .blocked := by
  rw [sweep_blocked_iff]
  generalize clients.entries = entries at hphase hclients ⊢
  induction entries generalizing s with
  | nil =>
    rw [List.map_nil, List.map_nil, run_nil, hphase]
    simp
  | cons e after ih =>
    rw [List.map_cons] at hphase
    have hcli := hclients e (List.mem_cons_self ..)
    rw [List.map_cons, List.map_cons, run_cons, step_visit_sweep hrunning hphase hcli]
    by_cases hbelow : e.cli.currentDiff < env.config.minimumDiff
    · rw [if_pos hbelow, visits_of_blocked (by simp [System.setPhase])]
      exact iff_of_true (by simp [System.setPhase]) ⟨e, List.mem_cons_self .., hbelow⟩
    · rw [if_neg hbelow]
      have hrest := ih (s := s.setPhase thread (.loop .sweep job (after.map Entry.conn))) hrunning
        (by simp [System.setPhase]) (fun e' he' => hclients e' (List.mem_cons_of_mem _ he'))
      rw [hrest, List.exists_mem_cons_iff]
      exact (or_iff_right hbelow).symm

end Visits

/-- A single client that mines at the minimum: the write goes to the end position. -/
theorem not_sweeps_single :
    let clients : ClientMap :=
      ⟨[⟨0, StratumClient.new ⟨0, 0, 0⟩ 0 0 1 30 60, 0⟩], List.pairwise_singleton ..⟩
    (∃ entries, sweep false 1 ⟨[], []⟩ clients = .wroteEnd ⟨[], []⟩ entries 1) ∧
      ¬ Sweeps 1 clients (sweep false 1 ⟨[], []⟩ clients) := by
  intro clients
  have habove : ∀ e ∈ clients.entries, ¬ e.cli.currentDiff < 1 := by
    intro e he
    rw [List.mem_singleton.mp he]
    show ¬ (1 : Double) < 1
    decide
  have hsweep : sweep false 1 ⟨[], []⟩ clients = .wroteEnd ⟨[], []⟩ clients.entries 1 :=
    sweepLoop_above habove
  refine ⟨⟨_, hsweep⟩, ?_⟩
  intro ⟨statsManager, h⟩
  rw [hsweep] at h
  exact absurd h (by simp)

end SickPool.Stratum
