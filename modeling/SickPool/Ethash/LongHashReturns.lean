import SickPool.Ethash.KeccakF
import SickPool.Ethash.LongHash

/-!
# The long hash returns

A thread that is the only one in a call comes to the end of it: it takes the mutex, finds or
makes the context, and does its 64 rounds, each with one item looked up and at most one item
written.
-/
namespace SickPool.Ethash

open SickPool.Library

variable {K : Keccak}

namespace Process

variable {p p' : Process} {t : Nat}

/-- `n` steps of thread `t`, with memory there for a context. -/
def solo (t n : Nat) : List Event := List.replicate n (.step t true)

theorem step_phase_of_ne (p : Process) {t' : Nat} (h : t' ≠ t) (calloc : Bool) :
    (p.step K t calloc).phase t' = p.phase t' := by
  cases hph : p.phase t with
  | idle => rw [step, hph]
  | entered q =>
    rw [step, hph]
    simp only
    split <;> exact goto_phase_of_ne _ _ h
  | waiting q =>
    rw [step, hph]
    simp only
    split
    · exact goto_phase_of_ne _ _ h
    · rfl
  | locked q =>
    rw [step, hph]
    simp only
    split <;> exact goto_phase_of_ne _ _ h
  | building q =>
    rw [step, hph]
    cases calloc <;> exact goto_phase_of_ne _ _ h
  | sharing q =>
    rw [step, hph]
    exact goto_phase_of_ne _ _ h
  | returned q =>
    rw [step, hph]
    cases hptr : p.threadLocalContextFull t <;> exact goto_phase_of_ne _ _ h
  | lookup hh =>
    rw [step, hph]
    simp only
    split <;> exact goto_phase_of_ne _ _ h
  | fill hh w =>
    rw [step, hph]
    simp only
    split <;> exact goto_phase_of_ne _ _ h
  | copy hh =>
    rw [step, hph]
    exact goto_phase_of_ne _ _ h
  | apply hh item =>
    rw [step, hph]
    simp only [finishRound]
    split <;> exact goto_phase_of_ne _ _ h

/-- No other thread is in a call. -/
def Alone (p : Process) (t : Nat) : Prop := ∀ t', t' ≠ t → p.phase t' = .idle

theorem Alone.step (h : p.Alone t) (calloc : Bool) : (p.step K t calloc).Alone t :=
  fun t' ht => (step_phase_of_ne p ht calloc).trans (h t' ht)

theorem Alone.noTornRead (h : p.Alone t) (calloc : Bool) : p.NoTornRead (.step t calloc) := by
  intro hh _ t' ht hfill
  obtain ⟨h', w, hph, -⟩ := hfill
  rw [h t' ht] at hph
  cases hph

theorem Alone.guarded (h : p.Alone t) (n : Nat) :
    Run.Guarded (Process.exec K) NoTornRead p (solo t n) := by
  induction n generalizing p with
  | zero => trivial
  | succ n ih => exact ⟨h.noTornRead true, ih (h.step true)⟩

theorem Alone.run (h : p.Alone t) (n : Nat) :
    (Run.run (Process.exec K) p (solo t n)).Alone t := by
  induction n generalizing p with
  | zero => exact h
  | succ n ih => exact ih (h.step true)

/-- Thread `t` alone takes the process from `p` to `p'`. -/
def Reaches (K : Keccak) (t : Nat) (p p' : Process) : Prop :=
  ∃ n, Run.run (Process.exec K) p (solo t n) = p'

theorem Reaches.refl (p : Process) : Reaches K t p p := ⟨0, rfl⟩

theorem Reaches.head (h : Reaches K t (p.step K t true) p') : Reaches K t p p' := by
  obtain ⟨n, hn⟩ := h
  exact ⟨n + 1, hn⟩

theorem Reaches.trans {p'' : Process} (h : Reaches K t p p') (h' : Reaches K t p' p'') :
    Reaches K t p p'' := by
  obtain ⟨n, hn⟩ := h
  obtain ⟨m, hm⟩ := h'
  refine ⟨n + m, ?_⟩
  rw [solo, ← List.replicate_append_replicate, Run.run_append]
  exact (congrArg (fun s => Run.run (Process.exec K) s (solo t m)) hn).trans hm

/-- Thread `t` reaches a phase without ending a call or touching the mutex. -/
def ReachesPhase (K : Keccak) (p : Process) (t : Nat) (ph : Phase) : Prop :=
  ∃ p', Reaches K t p p' ∧ p'.phase t = ph ∧ p'.log = p.log ∧
    p'.sharedContextFullMutex = p.sharedContextFullMutex

theorem ReachesPhase.head {ph : Phase} (h : ReachesPhase K (p.step K t true) t ph)
    (hlog : (p.step K t true).log = p.log)
    (hmutex : (p.step K t true).sharedContextFullMutex = p.sharedContextFullMutex) :
    ReachesPhase K p t ph := by
  obtain ⟨p', hr, hph, hl, hm⟩ := h
  exact ⟨p', hr.head, hph, hl.trans hlog, hm.trans hmutex⟩

theorem ReachesPhase.done {ph : Phase} (h : p.phase t = ph) : ReachesPhase K p t ph :=
  ⟨p, .refl p, h, rfl, rfl⟩

theorem ReachesPhase.goto {ph ph' : Phase} (hstep : p.step K t true = p.goto t ph)
    (h : ReachesPhase K (p.goto t ph) t ph') : ReachesPhase K p t ph' := by
  refine ReachesPhase.head (hstep ▸ h) ?_ ?_
  · rw [hstep]
    rfl
  · rw [hstep]
    rfl

theorem ReachesPhase.goto_done {ph : Phase} (hstep : p.step K t true = p.goto t ph) :
    ReachesPhase K p t ph :=
  .goto hstep (.done (goto_phase_self p t ph))

/-- The copy of an item ends. -/
theorem reaches_of_fill {h : Hashing} {w : Nat} (hph : p.phase t = .fill h w) :
    ReachesPhase K p t (.copy h) := by
  induction hk : 64 - w generalizing p w with
  | zero =>
    refine .goto_done ?_
    rw [step, hph]
    exact dif_neg (by omega)
  | succ k ih =>
    have hw : w < 64 := by omega
    have hstep : p.step K t true = (p.write K h ⟨w, hw⟩).goto t (.fill h (w + 1)) := by
      rw [step, hph]
      exact dif_pos hw
    refine ReachesPhase.head (ih (w := w + 1) ?_ (by omega)) ?_ ?_
    · rw [hstep]
      exact goto_phase_self _ _ _
    · rw [hstep]
      rfl
    · rw [hstep]
      rfl

theorem ReachesPhase.trans {ph ph' : Phase} (h : ReachesPhase K p t ph)
    (h' : ∀ p', p'.phase t = ph → ReachesPhase K p' t ph') : ReachesPhase K p t ph' := by
  obtain ⟨p', hr, hph, hl, hm⟩ := h
  obtain ⟨p'', hr', hph', hl', hm'⟩ := h' p' hph
  exact ⟨p'', hr.trans hr', hph', hl'.trans hl, hm'.trans hm⟩

/-- A round comes to the point where its item is read. -/
theorem reaches_of_lookup {h : Hashing} (hph : p.phase t = .lookup h) :
    ReachesPhase K p t (.copy h) := by
  by_cases htest : notGenerated ((p.heap h.context).dataset (p.item h)) = true
  · have hstep : p.step K t true = p.goto t (.fill h 0) := by
      rw [step, hph]
      exact if_pos htest
    exact .goto hstep (reaches_of_fill (goto_phase_self _ _ _))
  · refine .goto_done ?_
    rw [step, hph]
    exact if_neg htest

/-- The call of thread `t` for `q` ends with a hash, and with the mutex free. -/
def Returns (K : Keccak) (p : Process) (t : Nat) (q : Request) : Prop :=
  ∃ p' r, Reaches K t p p' ∧ p'.phase t = .idle ∧ p'.log = p.log ++ [(q, some r)] ∧
    p'.sharedContextFullMutex = none

theorem Returns.head {q : Request} (h : Returns K (p.step K t true) t q)
    (hlog : (p.step K t true).log = p.log) : Returns K p t q := by
  obtain ⟨p', r, hr, hph, hl, hm⟩ := h
  exact ⟨p', r, hr.head, hph, hlog ▸ hl, hm⟩

theorem ReachesPhase.returns {ph : Phase} {q : Request} (h : ReachesPhase K p t ph)
    (hmutex : p.sharedContextFullMutex = none)
    (h' : ∀ p', p'.phase t = ph → p'.sharedContextFullMutex = none → Returns K p' t q) :
    Returns K p t q := by
  obtain ⟨p', hr, hph, hl, hm⟩ := h
  obtain ⟨p'', r, hr', hph', hl', hm'⟩ := h' p' hph (hm.trans hmutex)
  exact ⟨p'', r, hr.trans hr', hph', hl ▸ hl', hm'⟩

/-- The rounds that are left. -/
theorem returns_of_lookup {h : Hashing} (hph : p.phase t = .lookup h) (hr : h.round < numRounds)
    (hmutex : p.sharedContextFullMutex = none) : Returns K p t h.request := by
  induction hk : numRounds - h.round generalizing p h with
  | zero => omega
  | succ k ih =>
    refine (reaches_of_lookup hph).returns hmutex fun p₁ hcopy hmutex₁ => ?_
    have hread : ReachesPhase K p₁ t (.apply h ((p₁.heap h.context).dataset (p₁.item h))) := by
      refine .goto_done ?_
      rw [step, hcopy]
    refine hread.returns hmutex₁ fun p₂ happly hmutex₂ => ?_
    have hstep : p₂.step K t true =
        p₂.finishRound K t h ((p₁.heap h.context).dataset (p₁.item h)) := by
      rw [step, happly]
    unfold finishRound at hstep
    by_cases hlast : h.round + 1 < numRounds
    · simp only [if_pos hlast] at hstep
      refine (ReachesPhase.goto_done hstep).returns hmutex₂ fun p₃ hlookup hmutex₃ => ?_
      have hrest := ih hlookup hlast hmutex₃ (by show numRounds - (h.round + 1) = k; omega)
      exact hrest
    · simp only [if_neg hlast] at hstep
      refine ⟨p₂.step K t true, _, .head (.refl _), ?_, congrArg Process.log hstep, ?_⟩
      · rw [hstep]
        exact goto_phase_self _ _ _
      · rw [hstep]
        exact hmutex₂

/-- A call that has got a context. -/
theorem returns_of_returned {q : Request} {c : Nat} (hph : p.phase t = .returned q)
    (hptr : p.threadLocalContextFull t = some c) (hmutex : p.sharedContextFullMutex = none) :
    Returns K p t q := by
  have hzero : 0 < numRounds := by decide
  have hstep : p.step K t true = p.goto t
      (.lookup { request := q, context := c, round := 0, mix := initMix (q.seed K) }) := by
    rw [step, hph]
    simp only [hptr]
  refine (ReachesPhase.goto_done hstep).returns hmutex fun p' hlookup hmutex' => ?_
  have hrest := returns_of_lookup (K := K) hlookup hzero hmutex'
  exact hrest

theorem returns_of_sharing {q : Request} {c : Nat} (hph : p.phase t = .sharing q)
    (hshared : p.sharedContextFull = some c) : Returns K p t q := by
  have hstep : p.step K t true = { p with
      threadLocalContextFull := Function.update p.threadLocalContextFull t p.sharedContextFull
      sharedContextFullMutex := none }.goto t (.returned q) := by
    rw [step, hph]
  refine Returns.head (returns_of_returned (c := c) ?_ ?_ ?_) ?_
  · rw [hstep]
    exact goto_phase_self _ _ _
  · rw [hstep]
    exact (Function.update_self _ _ _).trans hshared
  · rw [hstep]
    rfl
  · rw [hstep]
    rfl

/-- A pointer that passes the test points somewhere. -/
theorem exists_of_pointsTo {ptr : Option Nat} {epoch : Nat} (h : p.pointsTo ptr epoch = true) :
    ∃ c, ptr = some c := by
  cases ptr with
  | none => cases h
  | some c => exact ⟨c, rfl⟩

theorem returns_of_locked {q : Request} (hph : p.phase t = .locked q) : Returns K p t q := by
  by_cases htest : p.pointsTo p.sharedContextFull q.epoch = true
  · obtain ⟨c, hc⟩ := exists_of_pointsTo htest
    have hstep : p.step K t true = p.goto t (.sharing q) := by
      rw [step, hph]
      exact if_pos htest
    refine Returns.head (returns_of_sharing (c := c) ?_ ?_) ?_
    · rw [hstep]
      exact goto_phase_self _ _ _
    · rw [hstep]
      exact hc
    · rw [hstep]
      rfl
  · have hstep : p.step K t true = { p with sharedContextFull := none }.goto t (.building q) := by
      rw [step, hph]
      exact if_neg htest
    have hbuild : (p.step K t true).phase t = .building q := by
      rw [hstep]
      exact goto_phase_self _ _ _
    have hstep' : (p.step K t true).step K t true =
        ((p.step K t true).share K q.epoch).goto t (.sharing q) := by
      rw [step, hbuild]
      rfl
    refine Returns.head
      (Returns.head (returns_of_sharing (c := (p.step K t true).allocated) ?_ ?_) ?_) ?_
    · rw [hstep']
      exact goto_phase_self _ _ _
    · rw [hstep']
      rfl
    · rw [hstep']
      rfl
    · rw [hstep]
      rfl

/-- With the mutex free, a call comes to its end. -/
theorem returns_of_entered {q : Request} (hph : p.phase t = .entered q)
    (hmutex : p.sharedContextFullMutex = none) : Returns K p t q := by
  by_cases htest : p.pointsTo (p.threadLocalContextFull t) q.epoch = true
  · obtain ⟨c, hc⟩ := exists_of_pointsTo htest
    have hstep : p.step K t true = p.goto t (.returned q) := by
      rw [step, hph]
      exact if_pos htest
    refine Returns.head (returns_of_returned (c := c) ?_ ?_ ?_) ?_
    · rw [hstep]
      exact goto_phase_self _ _ _
    · rw [hstep]
      exact hc
    · rw [hstep]
      exact hmutex
    · rw [hstep]
      rfl
  · have hstep : p.step K t true = { p with
        threadLocalContextFull := Function.update p.threadLocalContextFull t none }.goto t
          (.waiting q) := by
      rw [step, hph]
      exact if_neg htest
    have hwait : (p.step K t true).phase t = .waiting q := by
      rw [hstep]
      exact goto_phase_self _ _ _
    have hfree : (p.step K t true).sharedContextFullMutex = none := by
      rw [hstep]
      exact hmutex
    have hstep' : (p.step K t true).step K t true =
        { p.step K t true with sharedContextFullMutex := some t }.goto t (.locked q) := by
      rw [step, hwait]
      exact if_pos hfree
    refine Returns.head (Returns.head (returns_of_locked ?_) ?_) ?_
    · rw [hstep']
      exact goto_phase_self _ _ _
    · rw [hstep']
      rfl
    · rw [hstep]
      rfl

/-- Between two calls: the invariant holds, no thread is in a call and the mutex is free. -/
structure Rest (K : Keccak) (p : Process) : Prop where
  inv : p.Inv K
  idle : ∀ t, p.phase t = .idle
  mutex : p.sharedContextFullMutex = none

theorem rest_start (K : Keccak) : Rest K (start K) := ⟨inv_start K, fun _ => rfl, rfl⟩

end Process

/-- What a call is to end with. -/
def Request.entry (K : Keccak) (q : Request) : Request × Option Result :=
  (q, some (hashLight K (epochContext K q.epoch) q.height q.headerHash q.nonce))

/-- A call and the steps that its thread takes for it. -/
def callEvents (t : Nat) (q : Request) (n : Nat) : List Event := .call t q :: Process.solo t n

/-- A call made between two calls ends after finitely many steps of its thread with the hash of
the light context of its epoch. -/
theorem Process.Rest.call_returns {p : Process} (h : p.Rest K) (t : Nat) (q : Request) :
    ∃ n, Run.Guarded (Process.exec K) Process.NoTornRead p (callEvents t q n) ∧
      (Run.run (Process.exec K) p (callEvents t q n)).log = p.log ++ [q.entry K] ∧
      (Run.run (Process.exec K) p (callEvents t q n)).Rest K := by
  have hcall : p.exec K (.call t q) = p.goto t (.entered q) := by
    rw [Process.exec, h.idle t]
  have hentered : (p.exec K (.call t q)).phase t = .entered q := by
    rw [hcall]
    exact Process.goto_phase_self _ _ _
  have hfree : (p.exec K (.call t q)).sharedContextFullMutex = none := by
    rw [hcall]
    exact h.mutex
  have halone : (p.exec K (.call t q)).Alone t := by
    intro t' ht
    rw [hcall, Process.goto_phase_of_ne _ _ ht]
    exact h.idle t'
  obtain ⟨p', r, ⟨n, hrun⟩, hph, hlog, hm⟩ :=
    Process.returns_of_entered (K := K) hentered hfree
  have hguard : Run.Guarded (Process.exec K) Process.NoTornRead p (callEvents t q n) :=
    ⟨trivial, halone.guarded n⟩
  have hrun' : Run.run (Process.exec K) p (callEvents t q n) = p' := hrun
  have hinv' : p'.Inv K := by
    have hlast := Run.invariant (I := Process.Inv K) (fun _ e h hok => Process.Inv.exec h e hok)
      h.inv hguard
    rwa [hrun'] at hlast
  have hlog' : p'.log = p.log ++ [(q, some r)] := by
    rw [hlog, hcall]
    rfl
  have hr := hinv'.log q r (by rw [hlog']; simp)
  refine ⟨n, hguard, ?_, ?_⟩
  · rw [hrun', hlog', Request.entry, hr]
  · rw [hrun']
    refine ⟨hinv', fun t' => ?_, hm⟩
    by_cases ht : t' = t
    · exact ht ▸ hph
    · exact hrun ▸ halone.run n t' ht

/-- Calls made between two calls, one after the other, end with the hashes of the light contexts of
their epochs. -/
theorem Process.Rest.calls_return {p : Process} (h : p.Rest K) (calls : List (Nat × Request)) :
    ∃ steps : List Nat, steps.length = calls.length ∧
      (Run.run (Process.exec K) p
        ((calls.zip steps).flatMap fun c => callEvents c.1.1 c.1.2 c.2)).log =
      p.log ++ calls.map fun c => c.2.entry K := by
  induction calls generalizing p with
  | nil => exact ⟨[], rfl, (List.append_nil _).symm⟩
  | cons c calls ih =>
    obtain ⟨n, -, hlog, hnext⟩ := h.call_returns c.1 c.2
    obtain ⟨steps, hlen, hlogs⟩ := ih hnext
    refine ⟨n :: steps, by simp [hlen], ?_⟩
    rw [List.zip_cons_cons, List.flatMap_cons, Run.run_append, hlogs, hlog, List.append_assoc]
    rfl

/-- Calls of `get_block_longhash_sick` made one after the other, by whichever threads and for
whichever hashes and nonces, all return when there is memory for the contexts, and in their order
the results are those of the light contexts of their epochs. Up to epoch 32639 the sizes of a
context are numbers of type `int`, as they are in the source. -/
theorem longHash_calls_return (K : Keccak) (calls : List (Nat × Request))
    (hepochs : ∀ c ∈ calls, c.2.epoch ≤ 32639) :
    (∀ c ∈ calls, lightCacheUpperBound c.2.epoch < 2 ^ 31 ∧
        fullDatasetUpperBound c.2.epoch < 2 ^ 31) ∧
      ∃ steps : List Nat, steps.length = calls.length ∧
        (Run.run (Process.exec K) (Process.start K)
          ((calls.zip steps).flatMap fun c => callEvents c.1.1 c.1.2 c.2)).log =
        calls.map fun c => c.2.entry K :=
  ⟨fun c hc => itemsUpperBound_fits (hepochs c hc), (Process.rest_start K).calls_return calls⟩

/-- Two threads, the first and the last epoch, and the first epoch again. -/
def sampleCalls : List (Nat × Request) :=
  [(0, ⟨1, Vector.replicate 8 0, 0⟩), (1, ⟨979199999, Vector.replicate 8 1, 5⟩),
    (0, ⟨29999, Vector.replicate 8 2, 7⟩)]

theorem longHash_calls_return_two_threads : ∃ steps : List Nat, steps.length = 3 ∧
    (Run.run (Process.exec ethashKeccak) (Process.start ethashKeccak)
      ((sampleCalls.zip steps).flatMap fun c => callEvents c.1.1 c.1.2 c.2)).log =
    sampleCalls.map fun c => c.2.entry ethashKeccak :=
  (longHash_calls_return ethashKeccak sampleCalls (by decide)).2

def firstRequest : Request := ⟨1, Vector.replicate 8 0, 0⟩

/-- The first call of a process ends, so there is a hash in a log. -/
theorem longHash_eq_hashLight_first_call : ∃ events r,
    (firstRequest, some r) ∈
      (Run.run (Process.exec ethashKeccak) (Process.start ethashKeccak) events).log ∧
    r = hashLight ethashKeccak (epochContext ethashKeccak firstRequest.epoch) firstRequest.height
      firstRequest.headerHash firstRequest.nonce := by
  obtain ⟨n, hguard, hlog, -⟩ := (Process.rest_start ethashKeccak).call_returns 0 firstRequest
  have hmem : firstRequest.entry ethashKeccak ∈
      (Run.run (Process.exec ethashKeccak) (Process.start ethashKeccak)
        (callEvents 0 firstRequest n)).log := by
    rw [hlog]
    exact List.mem_append_right _ (List.mem_singleton_self _)
  exact ⟨_, _, hmem, longHash_eq_hashLight ethashKeccak _ hguard hmem⟩

end SickPool.Ethash
