import SickPool.Stratum.Header
import SickPool.Stratum.SystemSteps

/-!
# The work of two clients

A ZEC client is told its `extra_nonce` and fills the rest of the nonce itself. The counter it
comes from runs through 2^32 values, so that among as many clients no two search the same
headers, as long as no service thread loads the counter between the load and the store of
another. A client's own headers differ unless it sends the same bytes again.
-/
namespace SickPool.Stratum

open SickPool.Library SickPool.Library.Bytes SickPool.Library.Run SickPool.Utils SickPool.Crypto
open SickPool.Jobs
open SickPool.Persistence (uint32Size)

/-! ## The header determines its parts -/

/-- A share as `HandleSubmit` makes it of a request that has all its fields. -/
structure WellFormed (share : ShareZec) : Prop where
  nonce2 : share.nonce2.length = 56
  solution : share.solution.length = 2694
  time : share.time < uint32Size

/-- A submit request with fields of the required lengths gives a well-formed share, whatever
characters they are made of. -/
theorem parseShareZec_wellFormed (uninitialised : Nat) (worker : Bytes)
    {jobId time nonce2 solution : Bytes} (more : Params) (hj : jobId.length = 8)
    (ht : time.length = 8) (hn : nonce2.length = 56) (hs : solution.length = 2694) :
    ∃ share, parseShareZec uninitialised
        (some worker :: some jobId :: some time :: some nonce2 :: some solution :: more) =
      .ok share ∧ WellFormed share := by
  refine ⟨_, parseShareZec_ok uninitialised worker more hj ht hn hs, hn, hs, ?_⟩
  have hlt := leNat_lt (leBytes 4 (fromChars16 uint32Size uninitialised time)).reverse
  rw [List.length_reverse, leBytes_length] at hlt
  exact hlt

/-- Two headers of one job: the parts that are not the job's are the same. -/
theorem getHeaderData_inj (job : JobZec) {buff buff' : Bytes} {share share' : ShareZec}
    {nonce1 nonce1' : Nat} (hb : buff.length = vrscStatic.BLOCK_HEADER_SIZE)
    (hb' : buff'.length = vrscStatic.BLOCK_HEADER_SIZE) (hw : WellFormed share)
    (hw' : WellFormed share') (hn : nonce1 < uint32Size) (hn' : nonce1' < uint32Size)
    (h : job.getHeaderData buff share nonce1 = job.getHeaderData buff' share' nonce1') :
    nonce1 = nonce1' ∧ share.time = share'.time ∧
      unhexlify share.nonce2 = unhexlify share'.nonce2 ∧
      unhexlify share.solution = unhexlify share'.solution := by
  have hlen : ∀ {s s' : Bytes}, s.length = s'.length →
      (unhexlify s).length = (unhexlify s').length := by
    intro s s' hss
    rw [unhexlify_length, unhexlify_length, hss]
  obtain ⟨worker, jobId, nonce2, solution, time⟩ := share
  obtain ⟨worker', jobId', nonce2', solution', time'⟩ := share'
  rw [getHeaderData_eq job worker jobId time nonce1 hb hw.nonce2 hw.solution,
    getHeaderData_eq job worker' jobId' time' nonce1' hb' hw'.nonce2 hw'.solution] at h
  -- from the last part to the first: each has the same length in both headers
  obtain ⟨h, hsolution⟩ :=
    List.append_inj' h (hlen (hw.solution.trans hw'.solution.symm))
  obtain ⟨h, hnonce2⟩ := List.append_inj' h (hlen (hw.nonce2.trans hw'.nonce2.symm))
  obtain ⟨h, hnonce1⟩ := List.append_inj' h (by simp)
  obtain ⟨h, -⟩ := List.append_inj' h (by simp)
  obtain ⟨-, htime⟩ := List.append_inj' h (by simp)
  exact ⟨leBytes_inj hn hn' hnonce1, leBytes_inj hw.time hw'.time htime, hnonce2, hsolution⟩

/-! ## The counter -/

namespace System

variable {p : StratumProtocol} {R : Type} {s : System p R}

/-- A client keeps its `extra_nonce` through everything a step does to it. -/
theorem ClientChange.extraNonce {env : Env R} {cli cli' : StratumClient}
    (h : ClientChange env s cli cli') : cli'.extraNonce = cli.extraNonce := by
  cases h with
  | same => rfl
  | login worker params time curtime =>
    obtain ⟨name, ⟨-, hans⟩, -⟩ := handleLogin_answers env s.server cli worker params time curtime
    rcases hans with ⟨-, fid, it, h⟩ | ⟨-, h⟩
    · rw [h]
      rfl
    · rw [h]
  | share share call =>
    by_cases hacc : Accepted env s.server cli share call
    · obtain ⟨ha, job, hj, ht, hd⟩ := hacc
      exact (handleShare_accepted ha hj ht hd).2.2.1
    · exact (handleShare_rejected hacc).2.2.1
  | adjust time curtime =>
    obtain ⟨varDiff, pendingDiff, lastAdjusted, h⟩ := cli.setAdjusted_eq
      (cli.varDiff.adjust cli.currentDiff time cli.lastAdjusted) curtime
    rw [StratumClient.handleAdjust, h]
  | broadcast =>
    unfold broadcastJob
    split <;> rfl
  | reset => rfl

theorem ClientsFrom.extraNonce {env : Env R} {s' : System p R} (h : ClientsFrom env s s')
    {conn : Nat} {cli' : StratumClient} (hcli' : s'.clients conn = some cli') :
    ∃ cli, s.clients conn = some cli ∧ cli'.extraNonce = cli.extraNonce := by
  obtain ⟨cli, hcli, hc⟩ := h conn cli' hcli'
  exact ⟨cli, hcli, hc.extraNonce⟩

/-- A client in the map, or a service thread in the constructor of one, with its nonce. -/
def Holds (s : System p R) : Nat ⊕ Nat → Nat → Prop
  | .inl conn, nonce => ∃ cli, s.clients conn = some cli ∧ cli.extraNonce = nonce
  | .inr thread, nonce => s.nonces.construction thread = .loaded nonce ∨
      s.nonces.construction thread = .stored nonce

theorem Holds.of_keeps {env : Env R} {s' : System p R} (hn : s'.nonces = s.nonces)
    (hc : ClientsFrom env s s') {holder : Nat ⊕ Nat} {nonce : Nat} (h : s'.Holds holder nonce) :
    s.Holds holder nonce := by
  rcases holder with conn | thread
  · obtain ⟨cli', hcli', rfl⟩ := h
    obtain ⟨cli, hcli, hnonce⟩ := hc.extraNonce hcli'
    exact ⟨cli, hcli, hnonce.symm⟩
  · rwa [Holds, hn] at h

theorem holds_loadNonce {thread nonce : Nat} {holder : Nat ⊕ Nat}
    (h : (s.loadNonce thread).Holds holder nonce) :
    (holder = .inr thread ∧ nonce = s.nonces.extraNonceCounter) ∨ s.Holds holder nonce := by
  rcases holder with conn | thread'
  · exact .inr h
  · by_cases ht : thread' = thread
    · subst ht
      simp only [Holds, loadNonce, setConstruction, Function.update_self, Construction.loaded.injEq,
        reduceCtorEq, or_false] at h
      exact .inl ⟨rfl, h.symm⟩
    · simp only [Holds, loadNonce, setConstruction, Function.update_of_ne ht] at h
      exact .inr h

theorem holds_storeNonce {thread extraNonce nonce : Nat} {holder : Nat ⊕ Nat}
    (hl : s.nonces.construction thread = .loaded extraNonce)
    (h : (s.storeNonce thread extraNonce).Holds holder nonce) : s.Holds holder nonce := by
  rcases holder with conn | thread'
  · exact h
  · by_cases ht : thread' = thread
    · subst ht
      simp only [Holds, storeNonce, setConstruction, Function.update_self, reduceCtorEq,
        Construction.stored.injEq, false_or] at h
      exact .inl (h ▸ hl)
    · simp only [Holds, storeNonce, setConstruction, Function.update_of_ne ht] at h
      exact h

theorem holds_handleConnected {env : Env R} {thread extraNonce nonce : Nat} {old : Uninitialised}
    {time : Nat} {holder : Nat ⊕ Nat}
    (h : (s.handleConnected env thread extraNonce old time).Holds holder nonce) :
    (holder = .inl s.connections ∧ nonce = extraNonce) ∨
      (holder ≠ .inr thread ∧ s.Holds holder nonce) := by
  rcases holder with conn | thread'
  · by_cases hconn : conn = s.connections
    · subst hconn
      simp only [Holds, handleConnected, setConstruction, Function.update_self, Option.some.injEq,
        exists_eq_left'] at h
      exact .inl ⟨rfl, h.symm⟩
    · simp only [Holds, handleConnected, setConstruction, Function.update_of_ne hconn] at h
      exact .inr ⟨by simp, h⟩
  · by_cases ht : thread' = thread
    · subst ht
      simp [Holds, handleConnected, setConstruction] at h
    · simp only [Holds, handleConnected, setConstruction, Function.update_of_ne ht] at h
      exact .inr ⟨by simpa using ht, h⟩

/-- The holders of nonces hold different ones, which the counter has passed. A thread between
its load and its store is the only one, and holds the value of the counter. -/
structure Apart (s : System p R) : Prop where
  numbered : s.Numbered
  counter : (∀ thread nonce, s.nonces.construction thread ≠ .loaded nonce) →
    s.nonces.extraNonceCounter = s.nonces.created % uint32Size
  loading : ∀ thread nonce, s.nonces.construction thread = .loaded nonce →
    s.nonces.extraNonceCounter = nonce ∧ nonce + 1 = s.nonces.created
  below : ∀ holder nonce, s.Holds holder nonce → nonce < s.nonces.created
  distinct : ∀ holder holder' nonce, s.Holds holder nonce → s.Holds holder' nonce →
    holder = holder'

/-- No thread loads the counter while another one is between its load and its store. -/
def LoadsAlone (s : System p R) : Event p → Prop
  | .loadNonce thread => ∀ thread' nonce, thread' ≠ thread →
      s.nonces.construction thread' ≠ .loaded nonce
  | _ => True

/-- A thread that does not load alone gets the nonce of the other. -/
theorem Apart.same_nonce (h : s.Apart) {thread thread' nonce : Nat}
    (hl : s.nonces.construction thread' = .loaded nonce) (hne : thread' ≠ thread) :
    (s.loadNonce thread).Holds (.inr thread) nonce ∧
      (s.loadNonce thread).Holds (.inr thread') nonce := by
  refine ⟨.inl ?_, .inl ?_⟩
  · simp [loadNonce, setConstruction, (h.loading thread' nonce hl).1]
  · simpa [loadNonce, setConstruction, Function.update_of_ne hne] using hl

theorem not_holds_start (srv : Server p R) (holder : Nat ⊕ Nat) (nonce : Nat) :
    ¬ (start srv).Holds holder nonce := by
  rcases holder with conn | thread
  · rintro ⟨cli, h, -⟩
    cases h
  · rintro (h | h) <;> cases h

theorem Apart.start (srv : Server p R) : (start srv).Apart where
  numbered := fun _ _ h => by cases h
  counter := fun _ => rfl
  loading := fun _ _ h => by cases h
  below := fun _ _ h => absurd h (not_holds_start srv _ _)
  distinct := fun _ _ _ h => absurd h (not_holds_start srv _ _)

/-- A thread that loads alone finds the number of objects made before. -/
theorem Apart.counter_eq (h : s.Apart) {thread : Nat} (halone : s.LoadsAlone (.loadNonce thread))
    (hidle : s.nonces.construction thread = .idle) (hcount : s.nonces.created < uint32Size) :
    s.nonces.extraNonceCounter = s.nonces.created := by
  have hnone : ∀ thread' nonce, s.nonces.construction thread' ≠ .loaded nonce := by
    intro thread' nonce
    by_cases ht : thread' = thread
    · rw [ht, hidle]
      simp
    · exact halone thread' nonce ht
  rw [h.counter hnone, Nat.mod_eq_of_lt hcount]

theorem Apart.loadNonce (h : s.Apart) {thread : Nat} (halone : s.LoadsAlone (.loadNonce thread))
    (hidle : s.nonces.construction thread = .idle) (hcount : s.nonces.created < uint32Size) :
    (s.loadNonce thread).Apart := by
  have hfresh := h.counter_eq halone hidle hcount
  have hholds : ∀ holder nonce, (s.loadNonce thread).Holds holder nonce →
      (holder = .inr thread ∧ nonce = s.nonces.created) ∨
        (s.Holds holder nonce ∧ nonce < s.nonces.created) := by
    intro holder nonce hh
    rcases holds_loadNonce hh with ⟨rfl, rfl⟩ | hh
    · exact .inl ⟨rfl, hfresh⟩
    · exact .inr ⟨hh, h.below _ _ hh⟩
  refine ⟨h.numbered, fun hno => ?_, ?_, ?_, ?_⟩
  · exact absurd (by simp [System.loadNonce, setConstruction])
      (hno thread s.nonces.extraNonceCounter)
  · intro thread' nonce hl
    by_cases ht : thread' = thread
    · subst ht
      obtain rfl : s.nonces.extraNonceCounter = nonce := by
        simpa [System.loadNonce, setConstruction] using hl
      exact ⟨rfl, congrArg (· + 1) hfresh⟩
    · refine absurd ?_ (halone thread' nonce ht)
      simpa [System.loadNonce, setConstruction, Function.update_of_ne ht] using hl
  · intro holder nonce hh
    change nonce < s.nonces.created + 1
    rcases hholds holder nonce hh with ⟨-, rfl⟩ | ⟨-, hlt⟩ <;> omega
  · intro holder holder' nonce hh hh'
    rcases hholds holder nonce hh with ⟨rfl, rfl⟩ | ⟨hh, hlt⟩ <;>
      rcases hholds holder' _ hh' with ⟨rfl, he⟩ | ⟨hh', hlt'⟩
    · rfl
    · omega
    · omega
    · exact h.distinct holder holder' nonce hh hh'

theorem Apart.storeNonce (h : s.Apart) {thread extraNonce : Nat}
    (hl : s.nonces.construction thread = .loaded extraNonce) :
    (s.storeNonce thread extraNonce).Apart := by
  have hcreated := (h.loading thread extraNonce hl).2
  have hother : ∀ thread' nonce,
      (s.storeNonce thread extraNonce).nonces.construction thread' ≠ .loaded nonce := by
    intro thread' nonce hl'
    by_cases ht : thread' = thread
    · subst ht
      simp [System.storeNonce, setConstruction] at hl'
    · -- two threads between load and store would hold the same nonce
      have hbefore : s.nonces.construction thread' = .loaded nonce := by
        simpa [System.storeNonce, setConstruction, Function.update_of_ne ht] using hl'
      have hcreated' := (h.loading thread' nonce hbefore).2
      obtain rfl : nonce = extraNonce := by omega
      exact ht (Sum.inr.inj (h.distinct (.inr thread') (.inr thread) nonce (.inl hbefore)
        (.inl hl)))
  refine ⟨h.numbered, fun _ => ?_, fun thread' nonce hl' => absurd hl' (hother thread' nonce),
    fun holder nonce hh => h.below holder nonce (holds_storeNonce hl hh),
    fun holder holder' nonce hh hh' =>
      h.distinct holder holder' nonce (holds_storeNonce hl hh) (holds_storeNonce hl hh')⟩
  exact congrArg (· % uint32Size) hcreated

/-- The threads between a load and a store are the same as before. -/
theorem loaded_handleConnected {env : Env R} {thread thread' extraNonce nonce : Nat}
    {old : Uninitialised} {time : Nat} (hs : s.nonces.construction thread = .stored extraNonce) :
    (s.handleConnected env thread extraNonce old time).nonces.construction thread' =
        .loaded nonce ↔
      s.nonces.construction thread' = .loaded nonce := by
  by_cases ht : thread' = thread
  · subst ht
    simp [handleConnected, setConstruction, hs]
  · simp [handleConnected, setConstruction, Function.update_of_ne ht]

theorem Apart.handleConnected (h : s.Apart) (env : Env R) {thread extraNonce : Nat}
    (hs : s.nonces.construction thread = .stored extraNonce) (old : Uninitialised) (time : Nat) :
    (s.handleConnected env thread extraNonce old time).Apart := by
  have hthread : s.Holds (.inr thread) extraNonce := .inr hs
  have hnumbered := (handleConnected_effect env s thread extraNonce old time).numbered h.numbered
  refine ⟨hnumbered, fun hno => ?_, fun thread' nonce hl => ?_, fun holder nonce hh => ?_,
    fun holder holder' nonce hh hh' => ?_⟩
  · exact h.counter (fun thread' nonce hl =>
      hno thread' nonce ((loaded_handleConnected hs).mpr hl))
  · exact h.loading thread' nonce ((loaded_handleConnected hs).mp hl)
  · rcases holds_handleConnected hh with ⟨-, rfl⟩ | ⟨-, hh⟩
    · exact h.below (.inr thread) nonce hthread
    · exact h.below holder nonce hh
  · -- the new client has the nonce that its thread held
    rcases holds_handleConnected hh with ⟨rfl, rfl⟩ | ⟨hne, hb⟩ <;>
      rcases holds_handleConnected hh' with ⟨rfl, he⟩ | ⟨hne', hb'⟩
    · rfl
    · exact absurd (h.distinct _ _ nonce hb' hthread) hne'
    · subst he
      exact absurd (h.distinct _ _ nonce hb hthread) hne
    · exact h.distinct holder holder' nonce hb hb'

/-- The holder of a nonce that the counter has passed is the only one. -/
def Reserved (conn nonce : Nat) (s : System p R) : Prop :=
  conn < s.connections ∧ nonce < s.nonces.created ∧
    ∀ holder, s.Holds holder nonce → holder = .inl conn

theorem Apart.reserved (h : s.Apart) {conn : Nat} {cli : StratumClient}
    (hcli : s.clients conn = some cli) : s.Reserved conn cli.extraNonce :=
  have hholds : s.Holds (.inl conn) cli.extraNonce := ⟨cli, hcli, rfl⟩
  ⟨h.numbered conn cli hcli, h.below _ _ hholds, fun _ hh => h.distinct _ _ _ hh hholds⟩

/-- A step that loads alone, and makes no more than the 2^32nd client. -/
def CountsOn (env : Env R) (s : System p R) (e : Event p) : Prop :=
  s.LoadsAlone e ∧ (s.step env e).nonces.created ≤ uint32Size

theorem step_apart (env : Env R) (s : System p R) (e : Event p) (h : s.Apart)
    (hok : CountsOn env s e) : (s.step env e).Apart := by
  obtain ⟨halone, hcount⟩ := hok
  have hnumbered := (step_effect env s e).numbered h.numbered
  have hstep := step_nonceStep env s e
  generalize s.step env e = s' at hcount hnumbered hstep ⊢
  cases hstep with
  | keeps hn hc =>
    refine ⟨hnumbered, ?_, ?_, fun _ _ hh => ?_, fun _ _ _ hh hh' => ?_⟩
    · rw [hn]
      exact h.counter
    · rw [hn]
      exact h.loading
    · rw [hn]
      exact h.below _ _ (hh.of_keeps hn hc)
    · exact h.distinct _ _ _ (hh.of_keeps hn hc) (hh'.of_keeps hn hc)
  | loads hidle => exact h.loadNonce halone hidle hcount
  | stores hl => exact h.storeNonce hl
  | connects hs old time => exact h.handleConnected env hs old time

theorem step_reserved (env : Env R) (s : System p R) (e : Event p) {conn nonce : Nat}
    (h : s.Apart) (hr : s.Reserved conn nonce) (hok : CountsOn env s e) :
    (s.step env e).Reserved conn nonce := by
  obtain ⟨halone, hcount⟩ := hok
  obtain ⟨hconn, hlt, hown⟩ := hr
  have hle := (step_effect env s e).connections
  have hstep := step_nonceStep env s e
  generalize s.step env e = s' at hcount hle hstep ⊢
  cases hstep with
  | keeps hn hc =>
    rw [Reserved, hn]
    exact ⟨hconn.trans_le hle, hlt, fun holder hh => hown holder (hh.of_keeps hn hc)⟩
  | loads hidle =>
    refine ⟨hconn, Nat.lt_succ_of_lt hlt, fun holder hh => ?_⟩
    rcases holds_loadNonce hh with ⟨-, he⟩ | hh
    · rw [h.counter_eq halone hidle hcount] at he
      omega
    · exact hown holder hh
  | stores hl => exact ⟨hconn, hlt, fun holder hh => hown holder (holds_storeNonce hl hh)⟩
  | connects hs old time =>
    refine ⟨Nat.lt_succ_of_lt hconn, hlt, fun holder hh => ?_⟩
    rcases holds_handleConnected hh with ⟨-, rfl⟩ | ⟨-, hh⟩
    · exact absurd (hown (.inr _) (.inr hs)) (by simp)
    · exact hown holder hh

/-- The number of objects made does not fall. -/
theorem created_le_step (env : Env R) (s : System p R) (e : Event p) :
    s.nonces.created ≤ (s.step env e).nonces.created := by
  have hstep := step_nonceStep env s e
  generalize s.step env e = s' at hstep ⊢
  cases hstep with
  | keeps hn hc => exact (congrArg Nonces.created hn).ge
  | loads hidle => exact Nat.le_succ _
  | stores hl => exact Nat.le_refl _
  | connects hs old time => exact Nat.le_refl _

theorem created_le_run (env : Env R) (s : System p R) (events : List (Event p)) :
    s.nonces.created ≤ (run (step env) s events).nonces.created := by
  induction events generalizing s with
  | nil => exact Nat.le_refl _
  | cons e es ih => exact (created_le_step env s e).trans (ih _)

theorem guarded_countsOn (env : Env R) {s : System p R} {events : List (Event p)}
    (h : Guarded (step env) LoadsAlone s events)
    (hcount : (run (step env) s events).nonces.created ≤ uint32Size) :
    Guarded (step env) (CountsOn env) s events := by
  induction events generalizing s with
  | nil => trivial
  | cons e es ih => exact ⟨⟨h.1, (created_le_run env _ es).trans hcount⟩, ih h.2 hcount⟩

/-- The nonces of two connections at two times of a run, the first not later than the second. -/
theorem nonce_ne_of_prefix (env : Env R) (srv : Server p R) {before after : List (Event p)}
    (h : Guarded (step env) (CountsOn env) (start srv) (before ++ after)) {conn conn' : Nat}
    {cli cli' : StratumClient} (hcli : (run (step env) (start srv) before).clients conn = some cli)
    (hcli' : (run (step env) (start srv) (before ++ after)).clients conn' = some cli')
    (hne : conn ≠ conn') : cli.extraNonce ≠ cli'.extraNonce := by
  obtain ⟨hbefore, hafter⟩ := guarded_append.mp h
  have hapart := invariant (step_apart env) (Apart.start srv) hbefore
  rw [run_append] at hcli'
  have hreserved := invariant
    (I := fun s => s.Apart ∧ s.Reserved conn cli.extraNonce)
    (fun s e hs hok => ⟨step_apart env s e hs.1 hok, step_reserved env s e hs.1 hs.2 hok⟩)
    ⟨hapart, hapart.reserved hcli⟩ hafter
  intro he
  have hinl := hreserved.2.2.2 (.inl conn') ⟨cli', hcli', he.symm⟩
  exact hne (Sum.inl.inj hinl).symm

/-- Every nonce is a `uint32_t`. -/
def NonceBound (s : System p R) : Prop :=
  s.nonces.extraNonceCounter < uint32Size ∧ ∀ holder nonce, s.Holds holder nonce → nonce < uint32Size

theorem step_nonceBound (env : Env R) (s : System p R) (e : Event p) (h : s.NonceBound) :
    (s.step env e).NonceBound := by
  obtain ⟨hcounter, hholds⟩ := h
  have hstep := step_nonceStep env s e
  generalize s.step env e = s' at hstep ⊢
  cases hstep with
  | keeps hn hc =>
    rw [NonceBound, hn]
    exact ⟨hcounter, fun holder nonce hh => hholds holder nonce (hh.of_keeps hn hc)⟩
  | loads hidle =>
    refine ⟨hcounter, fun holder nonce hh => ?_⟩
    rcases holds_loadNonce hh with ⟨-, rfl⟩ | hh
    · exact hcounter
    · exact hholds holder nonce hh
  | stores hl =>
    exact ⟨Nat.mod_lt _ (by decide), fun holder nonce hh =>
      hholds holder nonce (holds_storeNonce hl hh)⟩
  | connects hs old time =>
    refine ⟨hcounter, fun holder nonce hh => ?_⟩
    rcases holds_handleConnected hh with ⟨-, rfl⟩ | ⟨-, hh⟩
    · exact hholds (.inr _) nonce (.inr hs)
    · exact hholds holder nonce hh

theorem extraNonce_lt (env : Env R) (srv : Server p R) (events : List (Event p)) {conn : Nat}
    {cli : StratumClient} (hcli : (run (step env) (start srv) events).clients conn = some cli) :
    cli.extraNonce < uint32Size := by
  have h0 : (start srv).NonceBound :=
    ⟨show 0 < uint32Size by decide, fun _ _ h => absurd h (not_holds_start srv _ _)⟩
  have hrun := (always_of_invariant (fun _ h => h) (step_nonceBound env) h0 events).last
  exact hrun.2 (.inl conn) _ ⟨cli, hcli, rfl⟩

/-- The steps in which a thread makes a client, with no other step between them. -/
theorem run_connectClient (env : Env R) {s : System p R} {thread : Nat} (old : Uninitialised)
    (time : Nat) (hruns : s.terminated = false) (hfree : s.unlocked = true)
    (hidle : s.nonces.construction thread = .idle) :
    run (step env) s (connectClient thread old time) =
      { s with
        nonces := ⟨(s.nonces.extraNonceCounter + 1) % uint32Size, s.nonces.created + 1,
          s.nonces.construction⟩
        clients := Function.update s.clients s.connections (some (StratumClient.new old
          s.nonces.extraNonceCounter time env.config.defaultDiff env.config.targetSharesRate
          env.config.retargetInterval))
        connections := s.connections + 1 } := by
  have hload : s.step env (.loadNonce thread) = s.loadNonce thread := by
    simp [step, hruns, hidle]
  have hstore : (s.loadNonce thread).step env (.storeNonce thread) =
      (s.loadNonce thread).storeNonce thread s.nonces.extraNonceCounter := by
    simp [step, loadNonce, setConstruction, hruns]
  have hunlocked : ((s.loadNonce thread).storeNonce thread s.nonces.extraNonceCounter).unlocked =
      true := hfree
  have hconnect : ((s.loadNonce thread).storeNonce thread s.nonces.extraNonceCounter).step env
      (.connect thread old time) = ((s.loadNonce thread).storeNonce thread
        s.nonces.extraNonceCounter).handleConnected env thread s.nonces.extraNonceCounter old time := by
    rw [step, if_neg (by simp [storeNonce, loadNonce, setConstruction, hruns]), hunlocked]
    simp [storeNonce, setConstruction]
  have hback : Function.update s.nonces.construction thread .idle = s.nonces.construction := by
    rw [← hidle, Function.update_eq_self]
  simp only [connectClient, run_cons, run_nil, hload, hstore, hconnect]
  simp [handleConnected, storeNonce, loadNonce, setConstruction, hback]

end System

/-- **Clients search apart.** In a run with at most 2^32 clients, take any two clients that are
connected at some time of it, and any two well-formed shares on one job. The headers of two
different clients differ when no thread loads the counter between the load and the store of
another; those of one client are the same only if time, nonce and solution are. -/
theorem zec_headers_separated {R : Type} (env : Env R) (srv : Server .ZEC R)
    (events before before' : List (Event .ZEC)) (hpre : before <+: events)
    (hpre' : before' <+: events)
    (hcount : (run (System.step env) (System.start srv) events).nonces.created ≤ uint32Size)
    (conn conn' : Nat) (cli cli' : StratumClient)
    (hcli : (run (System.step env) (System.start srv) before).clients conn = some cli)
    (hcli' : (run (System.step env) (System.start srv) before').clients conn' = some cli')
    (job : JobZec) (buff buff' : Bytes) (hbuff : buff.length = vrscStatic.BLOCK_HEADER_SIZE)
    (hbuff' : buff'.length = vrscStatic.BLOCK_HEADER_SIZE) (share share' : ShareZec)
    (hshare : WellFormed share) (hshare' : WellFormed share') :
    (Guarded (System.step env) System.LoadsAlone (System.start srv) events → conn ≠ conn' →
        job.getHeaderData buff share cli.extraNonce ≠
          job.getHeaderData buff' share' cli'.extraNonce) ∧
      (conn = conn' → job.getHeaderData buff share cli.extraNonce =
          job.getHeaderData buff' share' cli'.extraNonce →
        share.time = share'.time ∧ unhexlify share.nonce2 = unhexlify share'.nonce2 ∧
          unhexlify share.solution = unhexlify share'.solution) := by
  have hinj := getHeaderData_inj job hbuff hbuff' hshare hshare'
    (System.extraNonce_lt env srv before hcli) (System.extraNonce_lt env srv before' hcli')
  refine ⟨fun hguard hne heq => ?_, fun _ heq => (hinj heq).2⟩
  have hcounts := System.guarded_countsOn env hguard hcount
  have hsame := (hinj heq).1
  -- one of the two times comes first
  rcases List.prefix_or_prefix_of_prefix hpre hpre' with ⟨after, rfl⟩ | ⟨after, rfl⟩
  · obtain ⟨rest, rfl⟩ := hpre'
    exact System.nonce_ne_of_prefix env srv (guarded_append.mp hcounts).1 hcli hcli' hne hsame
  · obtain ⟨rest, rfl⟩ := hpre
    exact System.nonce_ne_of_prefix env srv (guarded_append.mp hcounts).1 hcli' hcli hne.symm
      hsame.symm

def twoConnects : List (Event .ZEC) := connectClient 0 ⟨0, 0, 0⟩ 0 ++ connectClient 1 ⟨0, 0, 0⟩ 0

def zeroShare (time : Nat) : ShareZec :=
  ⟨ascii "w", ascii "00000000", List.replicate 56 48, List.replicate 2694 48, time⟩

theorem zeroShare_wellFormed {time : Nat} (h : time < uint32Size) : WellFormed (zeroShare time) :=
  ⟨List.length_replicate, List.length_replicate, h⟩

def zeroJob : JobZec := JobZec.new (constHashes maxHash) (fmtHex 8 0) (sampleTemplateZec []) true

/-- The client of a connection to the sample server. -/
def connectedClient (conn : Nat) : StratumClient := StratumClient.new ⟨0, 0, 0⟩ conn 0 1000000 30 60

theorem twoConnects_clients :
    (run (System.step (sampleEnv maxHash)) (System.start zecServer) twoConnects).clients 0 =
        some (connectedClient 0) ∧
      (run (System.step (sampleEnv maxHash)) (System.start zecServer) twoConnects).clients 1 =
        some (connectedClient 1) := by
  decide +kernel

theorem twoConnects_loadsAlone : Guarded (System.step (sampleEnv maxHash)) System.LoadsAlone
    (System.start zecServer) twoConnects := by
  refine guarded_append.mpr ⟨⟨fun _ _ _ h => (nomatch h), trivial, trivial, trivial⟩, ?_⟩
  rw [System.run_connectClient (sampleEnv maxHash) ⟨0, 0, 0⟩ 0 rfl rfl rfl]
  exact ⟨fun _ _ _ h => (nomatch h), trivial, trivial, trivial⟩

/-- The same share of the first and of the second client of a server, and two shares of the
first that differ in their time. -/
theorem zec_headers_separated_two :
    zeroJob.getHeaderData (List.replicate 1487 0) (zeroShare 0) (connectedClient 0).extraNonce ≠
        zeroJob.getHeaderData (List.replicate 1487 0) (zeroShare 0)
          (connectedClient 1).extraNonce ∧
      zeroJob.getHeaderData (List.replicate 1487 0) (zeroShare 0) (connectedClient 0).extraNonce ≠
        zeroJob.getHeaderData (List.replicate 1487 0) (zeroShare 1)
          (connectedClient 0).extraNonce := by
  obtain ⟨hfirst, hsecond⟩ := twoConnects_clients
  have hcount : (run (System.step (sampleEnv maxHash)) (System.start zecServer)
      twoConnects).nonces.created ≤ uint32Size := by decide +kernel
  constructor
  · exact (zec_headers_separated (sampleEnv maxHash) zecServer twoConnects twoConnects twoConnects
      List.prefix_rfl List.prefix_rfl hcount 0 1 _ _ hfirst hsecond zeroJob _ _
      List.length_replicate List.length_replicate _ _ (zeroShare_wellFormed (by decide))
      (zeroShare_wellFormed (by decide))).1 twoConnects_loadsAlone (by decide)
  · intro heq
    have h := (zec_headers_separated (sampleEnv maxHash) zecServer twoConnects twoConnects
      twoConnects List.prefix_rfl List.prefix_rfl hcount 0 0 _ _ hfirst hfirst zeroJob _ _
      List.length_replicate List.length_replicate _ _ (zeroShare_wellFormed (by decide))
      (zeroShare_wellFormed (by decide))).2 rfl heq
    exact absurd h.1 (by decide)

/-- Two service threads load the counter before either has stored. -/
def racingConnects : List (Event .ZEC) :=
  [.loadNonce 0, .loadNonce 1, .storeNonce 0, .storeNonce 1, .connect 0 ⟨0, 0, 0⟩ 0,
    .connect 1 ⟨0, 0, 0⟩ 0]

/-- Two clients of one nonce, for whom the same share has the same header. -/
theorem headers_collide :
    (run (System.step (sampleEnv maxHash)) (System.start zecServer) racingConnects).nonces.created =
        2 ∧
      ∃ cli cli' share,
        (run (System.step (sampleEnv maxHash)) (System.start zecServer) racingConnects).clients 0 =
          some cli ∧
        (run (System.step (sampleEnv maxHash)) (System.start zecServer) racingConnects).clients 1 =
          some cli' ∧
        WellFormed share ∧
        zeroJob.getHeaderData (List.replicate 1487 0) share cli.extraNonce =
          zeroJob.getHeaderData (List.replicate 1487 0) share cli'.extraNonce :=
  ⟨by decide +kernel, connectedClient 0, connectedClient 0, zeroShare 0, by decide +kernel,
    by decide +kernel, zeroShare_wellFormed (by decide), rfl⟩

end SickPool.Stratum
