import SickPool.Ethash.Managed
import SickPool.Library.Run

/-!
# The long hash is a function

The hash of a share is computed with pointers that threads share and with a dataset that is
written while it is read. The invariant here says what a thread may rely on in each phase; from
it, whatever the threads do and in whatever order, a call that returns has computed
`progpow::hash` of the light context of its epoch. The copy of an item into the dataset takes
many steps, and a thread that tests the item in the middle of it can take it for a finished
one: the runs are those in which this does not happen.
-/
namespace SickPool.Ethash

open SickPool.Library

/-! ## The L1 cache -/

theorem cacheAccess_congr {f g : Nat → UInt32} (h : ∀ k, k < l1CacheNumItems → f k = g k) :
    cacheAccess f = cacheAccess g := by
  funext mix s
  unfold cacheAccess
  have hread : ∀ (row : Row) (src : Reg),
      f ((row.get src).toNat % l1CacheNumItems) = g ((row.get src).toNat % l1CacheNumItems) :=
    fun row src => h _ (Nat.mod_lt _ (by decide))
  simp only [hread]

/-- A round reads the first 4096 words behind `l1_cache` only. -/
theorem roundWith_congr {f g : Nat → UInt32} (h : ∀ k, k < l1CacheNumItems → f k = g k)
    (item : Hash2048) (r : Nat) (mix : Mix) (s : MixRngState) :
    roundWith f item r mix s = roundWith g item r mix s := by
  have hop : operation f = operation g := by
    funext acc i
    unfold operation
    rw [cacheAccess_congr h]
  rw [roundWith, roundWith, operations, operations, hop]

variable (K : Keccak)

theorem lightMix_succ (context : EpochContext) (blockNumber : Nat) (seed : UInt64) (n : Nat) :
    lightMix K context blockNumber seed (n + 1) =
      roundWith (lightL1Cache K context)
        (calculateDatasetItem2048 K context
          (itemIndex context n (lightMix K context blockNumber seed n)))
        n (lightMix K context blockNumber seed n) (periodState blockNumber) := by
  rw [lightMix, List.range_succ, List.foldl_append]
  rfl

/-! ## What a thread relies on -/

namespace Process

/-- Word `k` of item `i` of context `c` has been written. -/
def Right (p : Process) (c i : Nat) (k : Fin 64) : Prop :=
  LazyTable.Right (calculateDatasetItem2048 K (p.heap c).context) (p.heap c).dataset i k

def Complete (p : Process) (c i : Nat) : Prop :=
  (p.heap c).dataset i = calculateDatasetItem2048 K (p.heap c).context i

/-- Pointer `c` is to a context of an epoch. -/
def IsContext (p : Process) (c epoch : Nat) : Prop :=
  c < p.allocated ∧ (p.heap c).context = epochContext K epoch

end Process

/-- A hash under way has the registers that the light hash has after as many rounds. -/
structure Hashing.Ok (p : Process) (h : Hashing) : Prop where
  context : p.IsContext K h.context h.request.epoch
  round : h.round < numRounds
  mix : h.mix = lightMix K (epochContext K h.request.epoch) h.request.height (h.request.seed K) h.round

/-- What holds of the process when thread `t` is in a phase. -/
def Process.PhaseOk (p : Process) (t : Nat) : Phase → Prop
  | .idle | .entered _ | .waiting _ => True
  | .locked _ => p.sharedContextFullMutex = some t
  | .building _ => p.sharedContextFullMutex = some t ∧ p.sharedContextFull = none
  | .sharing q => p.sharedContextFullMutex = some t ∧
      ∀ c, p.sharedContextFull = some c → p.IsContext K c q.epoch
  | .returned q => ∀ c, p.threadLocalContextFull t = some c → p.IsContext K c q.epoch
  | .lookup h => h.Ok K p
  | .fill h w => h.Ok K p ∧ ∀ k : Fin 64, k < w → p.Right K h.context (p.item h) k
  | .copy h => h.Ok K p ∧ p.Complete K h.context (p.item h)
  | .apply h item => h.Ok K p ∧ item = calculateDatasetItem2048 K (p.heap h.context).context (p.item h)

/-- A thread is in the middle of writing item `i` of context `c`. -/
def Process.Filling (p : Process) (ph : Phase) (c i : Nat) : Prop :=
  ∃ h w, ph = .fill h w ∧ h.context = c ∧ p.item h = i

structure Process.Inv (p : Process) : Prop where
  phases : ∀ t, p.PhaseOk K t (p.phase t)
  contexts : ∀ c, c < p.allocated → (p.heap c).context = epochContext K (p.heap c).context.epochNumber
  threadLocal : ∀ t c, p.threadLocalContextFull t = some c → c < p.allocated
  shared : ∀ c, p.sharedContextFull = some c → c < p.allocated
  l1 : ∀ c, c < p.allocated → ∀ i, i < 64 → p.Complete K c i
  items : ∀ c, c < p.allocated → ∀ i, p.Complete K c i ∨
    (p.heap c).dataset i = Vector.replicate 64 0 ∨ ∃ t, p.Filling (p.phase t) c i
  log : ∀ q r, (q, some r) ∈ p.log →
    r = hashLight K (epochContext K q.epoch) q.height q.headerHash q.nonce

theorem Process.inv_start : (Process.start K).Inv K where
  phases _ := trivial
  contexts c h := absurd h (Nat.not_lt_zero c)
  threadLocal _ _ h := by cases h
  shared _ h := by cases h
  l1 c h := absurd h (Nat.not_lt_zero c)
  items c h := absurd h (Nat.not_lt_zero c)
  log _ _ h := by cases h

/-- Contexts and right words stay, whoever takes a step. -/
structure Process.Grows (p p' : Process) : Prop where
  allocated : p.allocated ≤ p'.allocated
  context : ∀ c, c < p.allocated → (p'.heap c).context = (p.heap c).context
  right : ∀ c, c < p.allocated → ∀ i k, p.Right K c i k → p'.Right K c i k

namespace Process

variable {K} {p p' : Process}

theorem Complete.right {c i : Nat} (h : p.Complete K c i) (k : Fin 64) : p.Right K c i k :=
  LazyTable.right_of_eq h k

theorem complete_of_right {c i : Nat} (h : ∀ k, p.Right K c i k) : p.Complete K c i :=
  LazyTable.eq_of_right h

theorem Grows.complete (hg : p.Grows K p') {c i : Nat} (hc : c < p.allocated)
    (h : p.Complete K c i) : p'.Complete K c i :=
  complete_of_right fun k => hg.right c hc i k (h.right k)

theorem Grows.isContext (hg : p.Grows K p') {c epoch : Nat} (h : p.IsContext K c epoch) :
    p'.IsContext K c epoch :=
  ⟨h.1.trans_le hg.allocated, (hg.context c h.1).trans h.2⟩

theorem Grows.item_eq (hg : p.Grows K p') {h : Hashing} (hc : h.context < p.allocated) :
    p'.item h = p.item h := by
  rw [Process.item, Process.item, hg.context _ hc]

theorem Grows.ok (hg : p.Grows K p') {h : Hashing} (hok : h.Ok K p) : h.Ok K p' where
  context := hg.isContext hok.context
  round := hok.round
  mix := hok.mix

/-- What the other threads leave to thread `t`: its own pointer, and the shared one while it
holds the mutex. -/
structure Leaves (p p' : Process) (t : Nat) : Prop where
  threadLocal : p'.threadLocalContextFull t = p.threadLocalContextFull t
  mutex : p.sharedContextFullMutex = some t →
    p'.sharedContextFullMutex = some t ∧ p'.sharedContextFull = p.sharedContextFull

theorem PhaseOk.stable {t : Nat} {ph : Phase} (hg : p.Grows K p') (hl : p.Leaves p' t)
    (h : p.PhaseOk K t ph) : p'.PhaseOk K t ph := by
  cases ph with
  | idle => trivial
  | entered q => trivial
  | waiting q => trivial
  | locked q => exact (hl.mutex h).1
  | building q => exact ⟨(hl.mutex h.1).1, (hl.mutex h.1).2.trans h.2⟩
  | sharing q =>
    refine ⟨(hl.mutex h.1).1, fun c hc => hg.isContext (h.2 c ?_)⟩
    rw [← (hl.mutex h.1).2]
    exact hc
  | returned q =>
    intro c hc
    rw [hl.threadLocal] at hc
    exact hg.isContext (h c hc)
  | lookup hh => exact hg.ok h
  | fill hh w =>
    refine ⟨hg.ok h.1, fun k hk => ?_⟩
    rw [hg.item_eq h.1.context.1]
    exact hg.right _ h.1.context.1 _ _ (h.2 k hk)
  | copy hh =>
    refine ⟨hg.ok h.1, ?_⟩
    rw [hg.item_eq h.1.context.1]
    exact hg.complete h.1.context.1 h.2
  | apply hh item =>
    refine ⟨hg.ok h.1, ?_⟩
    rw [hg.item_eq h.1.context.1, hg.context _ h.1.context.1]
    exact h.2

/-! ## Steps that leave the heap alone -/

theorem grows_of_heap_eq (hheap : p'.heap = p.heap) (halloc : p'.allocated = p.allocated) :
    p.Grows K p' where
  allocated := halloc.ge
  context c _ := by rw [hheap]
  right c _ i k h := by
    rw [Right, hheap]
    exact h

/-- A step of thread `t` to phase `ph` that leaves the heap alone. -/
structure Control (p p' : Process) (t : Nat) (ph : Phase) : Prop where
  heap : p'.heap = p.heap
  allocated : p'.allocated = p.allocated
  phase : p'.phase = Function.update p.phase t ph
  others : ∀ t', t' ≠ t → p.Leaves p' t'

theorem Control.phase_self {t : Nat} {ph : Phase} (hc : p.Control p' t ph) : p'.phase t = ph := by
  rw [hc.phase, Function.update_self]

theorem Control.phase_of_ne {t t' : Nat} {ph : Phase} (hc : p.Control p' t ph) (h : t' ≠ t) :
    p'.phase t' = p.phase t' := by
  rw [hc.phase, Function.update_of_ne h]

/-- The items of a context after a step of thread `t`, if that thread leaves an item it was
writing only when the item is complete. -/
theorem Control.items {t : Nat} {ph : Phase} (hc : p.Control p' t ph) (hinv : p.Inv K)
    (hfill : ∀ h w, p.phase t = .fill h w → p.Complete K h.context (p.item h)) {c : Nat}
    (hlt : c < p.allocated) (i : Nat) : p'.Complete K c i ∨
      (p'.heap c).dataset i = Vector.replicate 64 0 ∨ ∃ t, p'.Filling (p'.phase t) c i := by
  have hg : p.Grows K p' := grows_of_heap_eq hc.heap hc.allocated
  rcases hinv.items c hlt i with h | h | ⟨t', h, w, hph, rfl, rfl⟩
  · exact .inl (hg.complete hlt h)
  · exact .inr (.inl (by rw [hc.heap]; exact h))
  · by_cases ht : t' = t
    · subst ht
      exact .inl (hg.complete hlt (hfill h w hph))
    · exact .inr (.inr ⟨t', h, w, (hc.phase_of_ne ht).trans hph, rfl, hg.item_eq hlt⟩)

theorem Control.inv {t : Nat} {ph : Phase} (hc : p.Control p' t ph) (hinv : p.Inv K)
    (hok : p'.PhaseOk K t ph)
    (hfill : ∀ h w, p.phase t = .fill h w → p.Complete K h.context (p.item h))
    (hthread : ∀ c, p'.threadLocalContextFull t = some c → c < p.allocated)
    (hshared : ∀ c, p'.sharedContextFull = some c → c < p.allocated)
    (hlog : ∀ q r, (q, some r) ∈ p'.log →
      r = hashLight K (epochContext K q.epoch) q.height q.headerHash q.nonce) : p'.Inv K where
  phases t' := by
    by_cases ht : t' = t
    · subst ht
      rw [hc.phase_self]
      exact hok
    · rw [hc.phase_of_ne ht]
      exact (hinv.phases t').stable (grows_of_heap_eq hc.heap hc.allocated) (hc.others t' ht)
  contexts c hlt := by
    rw [hc.heap]
    exact hinv.contexts c (hc.allocated ▸ hlt)
  threadLocal t' c h := by
    rw [hc.allocated]
    by_cases ht : t' = t
    · subst ht
      exact hthread c h
    · rw [(hc.others t' ht).threadLocal] at h
      exact hinv.threadLocal t' c h
  shared c h := by
    rw [hc.allocated]
    exact hshared c h
  l1 c hlt i hi := by
    have hlt' : c < p.allocated := hc.allocated ▸ hlt
    exact (grows_of_heap_eq hc.heap hc.allocated).complete hlt' (hinv.l1 c hlt' i hi)
  items c hlt i := hc.items hinv hfill (hc.allocated ▸ hlt) i
  log := hlog

/-- A step that moves thread `t` on and changes nothing else. -/
theorem control_goto (p : Process) (t : Nat) (ph : Phase) : p.Control (p.goto t ph) t ph where
  heap := rfl
  allocated := rfl
  phase := rfl
  others _ _ := ⟨rfl, fun h => ⟨h, rfl⟩⟩

theorem goto_phase_self (p : Process) (t : Nat) (ph : Phase) : (p.goto t ph).phase t = ph :=
  Function.update_self _ _ _

theorem goto_phase_of_ne (p : Process) (ph : Phase) {t t' : Nat} (h : t' ≠ t) :
    (p.goto t ph).phase t' = p.phase t' :=
  Function.update_of_ne h _ _

theorem grows_goto (p : Process) (t : Nat) (ph : Phase) : p.Grows K (p.goto t ph) :=
  grows_of_heap_eq rfl rfl

theorem Inv.goto (hinv : p.Inv K) {t : Nat} {ph : Phase} (hok : (p.goto t ph).PhaseOk K t ph)
    (hfill : ∀ h w, p.phase t = .fill h w → p.Complete K h.context (p.item h)) :
    (p.goto t ph).Inv K :=
  (control_goto p t ph).inv hinv hok hfill (hinv.threadLocal t) hinv.shared hinv.log

/-- A pointer that passes the test of `managed.cpp` is to a context of the epoch. -/
theorem Inv.isContext_of_pointsTo (hinv : p.Inv K) {ptr : Option Nat} {epoch c : Nat}
    (hptr : ptr = some c) (hlt : c < p.allocated) (h : p.pointsTo ptr epoch = true) :
    p.IsContext K c epoch := by
  subst hptr
  have hepoch : (p.heap c).context.epochNumber = epoch := by simpa [pointsTo] using h
  exact ⟨hlt, hepoch ▸ hinv.contexts c hlt⟩

theorem not_filling {t : Nat} {ph : Phase} (hph : p.phase t = ph) (hne : ∀ h w, ph ≠ .fill h w) :
    ∀ h w, p.phase t = .fill h w → p.Complete K h.context (p.item h) :=
  fun h w hf => absurd (hph.symm.trans hf) (hne h w)

theorem Inv.step_entered (hinv : p.Inv K) {t : Nat} {q : Request} (hph : p.phase t = .entered q)
    (calloc : Bool) : (p.step K t calloc).Inv K := by
  have hnofill := not_filling (K := K) hph (fun _ _ h => by cases h)
  rw [step, hph]
  by_cases htest : p.pointsTo (p.threadLocalContextFull t) q.epoch = true
  · simp only [if_pos htest]
    refine hinv.goto ?_ hnofill
    intro c hc
    exact hinv.isContext_of_pointsTo hc (hinv.threadLocal t c hc) htest
  · simp only [if_neg htest]
    have hctl : p.Control ({ p with
        threadLocalContextFull := Function.update p.threadLocalContextFull t none }.goto t
          (.waiting q)) t (.waiting q) :=
      ⟨rfl, rfl, rfl, fun t' ht => ⟨Function.update_of_ne ht _ _, fun h => ⟨h, rfl⟩⟩⟩
    refine hctl.inv hinv trivial hnofill ?_ hinv.shared hinv.log
    intro c hc
    simp [Process.goto] at hc

theorem Inv.step_waiting (hinv : p.Inv K) {t : Nat} {q : Request} (hph : p.phase t = .waiting q)
    (calloc : Bool) : (p.step K t calloc).Inv K := by
  rw [step, hph]
  by_cases hfree : p.sharedContextFullMutex = none
  · simp only [if_pos hfree]
    have hctl : p.Control ({ p with sharedContextFullMutex := some t }.goto t (.locked q)) t
        (.locked q) := by
      refine ⟨rfl, rfl, rfl, fun t' _ => ⟨rfl, fun h => ?_⟩⟩
      rw [hfree] at h
      cases h
    exact hctl.inv hinv rfl (not_filling hph (fun _ _ h => by cases h)) (hinv.threadLocal t)
      hinv.shared hinv.log
  · simp only [if_neg hfree]
    exact hinv

theorem Inv.step_locked (hinv : p.Inv K) {t : Nat} {q : Request} (hph : p.phase t = .locked q)
    (calloc : Bool) : (p.step K t calloc).Inv K := by
  have hnofill := not_filling (K := K) hph (fun _ _ h => by cases h)
  have hmutex : p.PhaseOk K t (.locked q) := hph ▸ hinv.phases t
  rw [step, hph]
  by_cases htest : p.pointsTo p.sharedContextFull q.epoch = true
  · simp only [if_pos htest]
    refine hinv.goto ⟨hmutex, ?_⟩ hnofill
    intro c hc
    exact hinv.isContext_of_pointsTo hc (hinv.shared c hc) htest
  · simp only [if_neg htest]
    have hctl : p.Control ({ p with sharedContextFull := none }.goto t (.building q)) t
        (.building q) := by
      refine ⟨rfl, rfl, rfl, fun t' ht => ⟨rfl, fun h => ?_⟩⟩
      exact absurd (Option.some.inj (h.symm.trans hmutex)) ht
    refine hctl.inv hinv ⟨hmutex, rfl⟩ hnofill (hinv.threadLocal t) ?_ hinv.log
    intro c hc
    cases hc

theorem Inv.step_sharing (hinv : p.Inv K) {t : Nat} {q : Request} (hph : p.phase t = .sharing q)
    (calloc : Bool) : (p.step K t calloc).Inv K := by
  have hok : p.PhaseOk K t (.sharing q) := hph ▸ hinv.phases t
  rw [step, hph]
  have hctl : p.Control ({ p with
      threadLocalContextFull := Function.update p.threadLocalContextFull t p.sharedContextFull
      sharedContextFullMutex := none }.goto t (.returned q)) t (.returned q) := by
    refine ⟨rfl, rfl, rfl, fun t' ht => ⟨Function.update_of_ne ht _ _, fun h => ?_⟩⟩
    exact absurd (Option.some.inj (h.symm.trans hok.1)) ht
  have hself : ∀ c, Function.update p.threadLocalContextFull t p.sharedContextFull t = some c →
      p.sharedContextFull = some c := by
    intro c hc
    rwa [Function.update_self] at hc
  refine hctl.inv hinv ?_ (not_filling hph (fun _ _ h => by cases h)) ?_ hinv.shared hinv.log
  · exact fun c hc => hok.2 c (hself c hc)
  · exact fun c hc => hinv.shared c (hself c hc)

/-- A call that ends keeps the log right if its own entry is. -/
theorem Inv.endCall (hinv : p.Inv K) {t : Nat} {q : Request} {res : Option Result}
    (hnofill : ∀ h w, p.phase t = .fill h w → p.Complete K h.context (p.item h))
    (hres : ∀ r, res = some r →
      r = hashLight K (epochContext K q.epoch) q.height q.headerHash q.nonce) :
    ({ p with log := p.log ++ [(q, res)] }.goto t .idle).Inv K := by
  have hctl : p.Control ({ p with log := p.log ++ [(q, res)] }.goto t .idle) t .idle :=
    ⟨rfl, rfl, rfl, fun _ _ => ⟨rfl, fun h => ⟨h, rfl⟩⟩⟩
  refine hctl.inv hinv trivial hnofill (hinv.threadLocal t) hinv.shared ?_
  intro q' r hmem
  rcases List.mem_append.mp hmem with h | h
  · exact hinv.log q' r h
  · obtain ⟨rfl, hr⟩ := Prod.mk.inj (List.mem_singleton.mp h)
    exact hres r hr.symm

theorem Inv.step_returned (hinv : p.Inv K) {t : Nat} {q : Request} (hph : p.phase t = .returned q)
    (calloc : Bool) : (p.step K t calloc).Inv K := by
  have hnofill := not_filling (K := K) hph (fun _ _ h => by cases h)
  have hok : p.PhaseOk K t (.returned q) := hph ▸ hinv.phases t
  rw [step, hph]
  cases hptr : p.threadLocalContextFull t with
  | none => exact hinv.endCall hnofill (fun r hr => by cases hr)
  | some c =>
    refine hinv.goto ?_ hnofill
    have hzero : 0 < numRounds := by decide
    exact { context := hok c hptr, round := hzero, mix := rfl }

theorem Inv.step_copy (hinv : p.Inv K) {t : Nat} {h : Hashing} (hph : p.phase t = .copy h)
    (calloc : Bool) : (p.step K t calloc).Inv K := by
  have hok : p.PhaseOk K t (.copy h) := hph ▸ hinv.phases t
  rw [step, hph]
  exact hinv.goto ⟨(grows_goto p t _).ok hok.1, hok.2⟩ (not_filling hph (fun _ _ h => by cases h))

/-- What a thread reads behind `l1_cache` of its context is the L1 cache of the light
context. -/
theorem Inv.l1Cache_eq (hinv : p.Inv K) {c epoch : Nat} (hc : p.IsContext K c epoch) {k : Nat}
    (hk : k < l1CacheNumItems) :
    l1Cache (p.heap c).dataset k = lightL1Cache K (epochContext K epoch) k := by
  have hitem : k / 64 < 64 := Nat.div_lt_of_lt_mul hk
  have hcomplete := hinv.l1 c hc.1 (k / 64) hitem
  rw [l1Cache, lightL1Cache, hcomplete, hc.2]

/-- The registers after the round are those of the light hash. -/
theorem Inv.round_eq (hinv : p.Inv K) {h : Hashing} (hok : h.Ok K p) :
    roundWith (l1Cache (p.heap h.context).dataset)
      (calculateDatasetItem2048 K (p.heap h.context).context (p.item h)) h.round h.mix
      (periodState h.request.height) =
    lightMix K (epochContext K h.request.epoch) h.request.height (h.request.seed K) (h.round + 1) := by
  rw [lightMix_succ, roundWith_congr (fun k hk => hinv.l1Cache_eq hok.context hk), ← hok.mix,
    Process.item, hok.context.2]

theorem Inv.step_apply (hinv : p.Inv K) {t : Nat} {h : Hashing} {item : Hash2048}
    (hph : p.phase t = .apply h item) (calloc : Bool) : (p.step K t calloc).Inv K := by
  have hnofill := not_filling (K := K) hph (fun _ _ h => by cases h)
  obtain ⟨hok, rfl⟩ : p.PhaseOk K t (.apply h item) := hph ▸ hinv.phases t
  have hround := hinv.round_eq hok
  rw [step, hph]
  simp only [finishRound, hround]
  by_cases hlast : h.round + 1 < numRounds
  · rw [if_pos hlast]
    refine hinv.goto ?_ hnofill
    exact { context := hok.context, round := hlast, mix := rfl }
  · rw [if_neg hlast]
    have hend : h.round + 1 = numRounds := by
      have := hok.round
      omega
    rw [hend]
    exact hinv.endCall hnofill (fun r hr => (Option.some.inj hr).symm)

/-! ## Steps that write the heap -/

theorem createEpochContextFull_dataset (epoch i : Nat) :
    (createEpochContextFull K epoch).dataset i =
      if i < 64 then calculateDatasetItem2048 K (epochContext K epoch) i
      else Vector.replicate 64 0 := by
  rw [createEpochContextFull]
  simp only [LazyTable.foldl_update, List.mem_range]

/-- The process after a new context is made and shared. -/
def share (K : Keccak) (p : Process) (epoch : Nat) : Process :=
  { p with
    heap := Function.update p.heap p.allocated (createEpochContextFull K epoch)
    allocated := p.allocated + 1
    sharedContextFull := some p.allocated }

theorem share_heap_new (p : Process) (epoch : Nat) :
    (p.share K epoch).heap p.allocated = createEpochContextFull K epoch :=
  Function.update_self _ _ _

theorem share_heap_old {c : Nat} (epoch : Nat) (h : c < p.allocated) :
    (p.share K epoch).heap c = p.heap c :=
  Function.update_of_ne (Nat.ne_of_lt h) _ _

theorem grows_share (p : Process) (epoch t : Nat) (ph : Phase) :
    p.Grows K ((p.share K epoch).goto t ph) where
  allocated := Nat.le_succ _
  context c h := by rw [goto, share_heap_old epoch h]
  right c h i k hr := by
    rw [Right, goto, share_heap_old epoch h]
    exact hr

/-- A new context has its L1 cache and nothing else. -/
theorem share_items (p : Process) (epoch i : Nat) :
    ((p.share K epoch).Complete K p.allocated i) ∨
      ¬i < 64 ∧ ((p.share K epoch).heap p.allocated).dataset i = Vector.replicate 64 0 := by
  rw [Complete, share_heap_new, createEpochContextFull_dataset]
  by_cases h : i < 64
  · rw [if_pos h]
    exact .inl rfl
  · rw [if_neg h]
    exact .inr ⟨h, rfl⟩

theorem Inv.share (hinv : p.Inv K) {t : Nat} {q : Request} (hph : p.phase t = .building q) :
    ((p.share K q.epoch).goto t (.sharing q)).Inv K := by
  have hg := grows_share (K := K) p q.epoch t (.sharing q)
  have hmutex : p.PhaseOk K t (.building q) := hph ▸ hinv.phases t
  have hnew : ((p.share K q.epoch).goto t (.sharing q)).IsContext K p.allocated q.epoch :=
    ⟨Nat.lt_succ_self _, congrArg FullContext.context (share_heap_new p q.epoch)⟩
  constructor
  case phases =>
    intro t'
    by_cases ht : t' = t
    · subst ht
      rw [goto_phase_self]
      refine ⟨hmutex.1, fun c hc => ?_⟩
      exact Option.some.inj hc ▸ hnew
    · rw [goto_phase_of_ne _ _ ht]
      refine (hinv.phases t').stable hg ⟨rfl, fun h => ?_⟩
      exact absurd (Option.some.inj (h.symm.trans hmutex.1)) ht
  case contexts =>
    intro c hc
    rcases Nat.lt_succ_iff_lt_or_eq.mp hc with hlt | rfl
    · rw [hg.context c hlt]
      exact hinv.contexts c hlt
    · rw [hnew.2]
      rfl
  case threadLocal => exact fun t' c h => (hinv.threadLocal t' c h).trans_le hg.allocated
  case shared =>
    intro c hc
    exact Option.some.inj hc ▸ Nat.lt_succ_self _
  case l1 =>
    intro c hc i hi
    rcases Nat.lt_succ_iff_lt_or_eq.mp hc with hlt | rfl
    · exact hg.complete hlt (hinv.l1 c hlt i hi)
    · rcases share_items p q.epoch i with h | h
      · exact h
      · exact absurd hi h.1
  case items =>
    intro c hc i
    rcases Nat.lt_succ_iff_lt_or_eq.mp hc with hlt | rfl
    · rcases hinv.items c hlt i with h | h | ⟨t', h, w, hph', rfl, rfl⟩
      · exact .inl (hg.complete hlt h)
      · refine .inr (.inl ?_)
        rw [Process.goto, share_heap_old _ hlt]
        exact h
      · have ht : t' ≠ t := by
          rintro rfl
          rw [hph] at hph'
          cases hph'
        exact .inr (.inr ⟨t', h, w, (goto_phase_of_ne _ _ ht).trans hph', rfl, hg.item_eq hlt⟩)
    · rcases share_items p q.epoch i with h | h
      · exact .inl h
      · exact .inr (.inl h.2)
  case log => exact hinv.log

theorem Inv.step_building (hinv : p.Inv K) {t : Nat} {q : Request} (hph : p.phase t = .building q)
    (calloc : Bool) : (p.step K t calloc).Inv K := by
  have hmutex : p.PhaseOk K t (.building q) := hph ▸ hinv.phases t
  have hnofill := not_filling (K := K) hph (fun _ _ h => by cases h)
  rw [step, hph]
  cases calloc with
  | false =>
    refine hinv.goto ⟨hmutex.1, fun c hc => ?_⟩ hnofill
    exact absurd (hmutex.2.symm.trans hc) (by simp)
  | true => exact hinv.share hph

/-! ## The copy of an item -/

theorem write_heap_self (p : Process) (h : Hashing) (w : Fin 64) :
    ((p.write K h w).heap h.context).dataset =
      LazyTable.writeWord (p.heap h.context).dataset (p.item h) w
        ((calculateDatasetItem2048 K (p.heap h.context).context (p.item h)).get w) := by
  rw [write]
  simp only [Function.update_self]

theorem write_heap_of_ne {c : Nat} {h : Hashing} (w : Fin 64) (hc : c ≠ h.context) :
    (p.write K h w).heap c = p.heap c :=
  Function.update_of_ne hc _ _

theorem write_context (p : Process) (h : Hashing) (w : Fin 64) (c : Nat) :
    ((p.write K h w).heap c).context = (p.heap c).context := by
  by_cases hc : c = h.context
  · subst hc
    rw [write]
    simp only [Function.update_self]
  · rw [write_heap_of_ne w hc]

theorem grows_write (p : Process) (h : Hashing) (w : Fin 64) (t : Nat) (ph : Phase) :
    p.Grows K ((p.write K h w).goto t ph) where
  allocated := le_rfl
  context c _ := write_context p h w c
  right c _ i k hr := by
    show (p.write K h w).Right K c i k
    rw [Right, write_context]
    by_cases hc : c = h.context
    · subst hc
      rw [write_heap_self]
      exact LazyTable.Right.writeWord hr _ w
    · rw [write_heap_of_ne w hc]
      exact hr

/-- The word that is copied is right from then on. -/
theorem write_right_self (p : Process) (h : Hashing) (w : Fin 64) :
    (p.write K h w).Right K h.context (p.item h) w := by
  rw [Right, write_context, write_heap_self]
  exact LazyTable.right_writeWord_self _ _ _ w

/-- Another item keeps its words. -/
theorem write_of_ne {c i : Nat} {h : Hashing} (w : Fin 64)
    (hne : ¬(h.context = c ∧ p.item h = i)) :
    ((p.write K h w).heap c).dataset i = (p.heap c).dataset i := by
  by_cases hc : c = h.context
  · subst hc
    rw [write_heap_self]
    exact LazyTable.writeWord_of_ne (fun hi => hne ⟨rfl, hi.symm⟩) w _
  · rw [write_heap_of_ne w hc]

theorem Inv.write (hinv : p.Inv K) {t w : Nat} {h : Hashing} (hph : p.phase t = .fill h w)
    (hw : w < 64) : ((p.write K h ⟨w, hw⟩).goto t (.fill h (w + 1))).Inv K := by
  have hg := grows_write (K := K) p h ⟨w, hw⟩ t (.fill h (w + 1))
  obtain ⟨hok, hwords⟩ : p.PhaseOk K t (.fill h w) := hph ▸ hinv.phases t
  have hitem := hg.item_eq hok.context.1
  constructor
  case phases =>
    intro t'
    by_cases ht : t' = t
    · subst ht
      rw [goto_phase_self]
      refine ⟨hg.ok hok, fun k hk => ?_⟩
      rw [hitem]
      rcases Nat.lt_succ_iff_lt_or_eq.mp hk with hlt | heq
      · exact hg.right _ hok.context.1 _ _ (hwords k hlt)
      · rw [show k = ⟨w, hw⟩ from Fin.ext heq]
        exact write_right_self p h ⟨w, hw⟩
    · rw [goto_phase_of_ne _ _ ht]
      exact (hinv.phases t').stable hg ⟨rfl, fun h => ⟨h, rfl⟩⟩
  case contexts =>
    intro c hc
    rw [hg.context c hc]
    exact hinv.contexts c hc
  case threadLocal => exact hinv.threadLocal
  case shared => exact hinv.shared
  case l1 => exact fun c hc i hi => hg.complete hc (hinv.l1 c hc i hi)
  case items =>
    intro c hc i
    by_cases hme : h.context = c ∧ p.item h = i
    · exact .inr (.inr ⟨t, h, w + 1, goto_phase_self _ _ _, hme.1, hitem.trans hme.2⟩)
    rcases hinv.items c hc i with hcomplete | hblank | ⟨t', h', w', hph', rfl, rfl⟩
    · exact .inl (hg.complete hc hcomplete)
    · exact .inr (.inl ((write_of_ne ⟨w, hw⟩ hme).trans hblank))
    · have ht : t' ≠ t := by
        rintro rfl
        rw [hph] at hph'
        cases hph'
        exact hme ⟨rfl, rfl⟩
      exact .inr (.inr ⟨t', h', w', (goto_phase_of_ne _ _ ht).trans hph', rfl, hg.item_eq hc⟩)
  case log => exact hinv.log

theorem Inv.step_fill (hinv : p.Inv K) {t w : Nat} {h : Hashing} (hph : p.phase t = .fill h w)
    (calloc : Bool) : (p.step K t calloc).Inv K := by
  obtain ⟨hok, hwords⟩ : p.PhaseOk K t (.fill h w) := hph ▸ hinv.phases t
  rw [step, hph]
  by_cases hw : w < 64
  · simp only [dif_pos hw]
    exact hinv.write hph hw
  · simp only [dif_neg hw]
    have hcomplete : p.Complete K h.context (p.item h) :=
      complete_of_right fun k => hwords k (by omega)
    refine hinv.goto ⟨(grows_goto p t _).ok hok, hcomplete⟩ ?_
    intro h' w' hph'
    rw [hph] at hph'
    cases hph'
    exact hcomplete

/-! ## The test of an item -/

/-- No other thread is in the middle of writing the item that the event tests. -/
def NoTornRead (p : Process) : Event → Prop
  | .call _ _ => True
  | .step t _ => ∀ h, p.phase t = .lookup h →
      ∀ t', t' ≠ t → ¬p.Filling (p.phase t') h.context (p.item h)

theorem notGenerated_blank : notGenerated (Vector.replicate 64 0) = true := by decide

theorem Inv.step_lookup (hinv : p.Inv K) {t : Nat} {h : Hashing} (hph : p.phase t = .lookup h)
    (calloc : Bool) (hsafe : p.NoTornRead (.step t calloc)) : (p.step K t calloc).Inv K := by
  have hnofill := not_filling (K := K) hph (fun _ _ h => by cases h)
  have hok : p.PhaseOk K t (.lookup h) := hph ▸ hinv.phases t
  rw [step, hph]
  by_cases htest : notGenerated ((p.heap h.context).dataset (p.item h)) = true
  · simp only [if_pos htest]
    refine hinv.goto ⟨(grows_goto p t _).ok hok, ?_⟩ hnofill
    intro k hk
    exact absurd hk (Nat.not_lt_zero _)
  · simp only [if_neg htest]
    refine hinv.goto ⟨(grows_goto p t _).ok hok, ?_⟩ hnofill
    rcases hinv.items h.context hok.context.1 (p.item h) with hcomplete | hblank | ⟨t', hfill⟩
    · exact hcomplete
    · rw [hblank] at htest
      exact absurd notGenerated_blank htest
    · by_cases ht : t' = t
      · obtain ⟨h', w', hph', -⟩ := hfill
        rw [ht, hph] at hph'
        cases hph'
      · exact absurd hfill (hsafe h hph t' ht)

theorem Inv.exec (hinv : p.Inv K) (e : Event) (hsafe : p.NoTornRead e) : (p.exec K e).Inv K := by
  cases e with
  | call t q =>
    cases hph : p.phase t with
    | idle =>
      rw [Process.exec, hph]
      exact hinv.goto trivial (not_filling hph (fun _ _ h => by cases h))
    | _ =>
      rw [Process.exec, hph]
      exact hinv
  | step t calloc =>
    show (p.step K t calloc).Inv K
    cases hph : p.phase t with
    | idle =>
      rw [step, hph]
      exact hinv
    | entered q => exact hinv.step_entered hph calloc
    | waiting q => exact hinv.step_waiting hph calloc
    | locked q => exact hinv.step_locked hph calloc
    | building q => exact hinv.step_building hph calloc
    | sharing q => exact hinv.step_sharing hph calloc
    | returned q => exact hinv.step_returned hph calloc
    | lookup h => exact hinv.step_lookup hph calloc hsafe
    | fill h w => exact hinv.step_fill hph calloc
    | copy h => exact hinv.step_copy hph calloc
    | apply h item => exact hinv.step_apply hph calloc

end Process

/-- `get_block_longhash_sick` is a function. Whatever calls any number of threads make, in
whatever order their steps are taken, and whether or not memory is there for a context: a call
that returns a hash returns that of the light context of its epoch, as long as no thread tests
a dataset item while another is in the middle of copying that item. -/
theorem longHash_eq_hashLight (events : List Event)
    (hsafe : Run.Guarded (Process.exec K) Process.NoTornRead (Process.start K) events)
    {q : Request} {r : Result}
    (hlog : (q, some r) ∈ (Run.run (Process.exec K) (Process.start K) events).log) :
    r = hashLight K (epochContext K q.epoch) q.height q.headerHash q.nonce := by
  have hinv : (Run.run (Process.exec K) (Process.start K) events).Inv K :=
    Run.invariant (I := Process.Inv K) (fun _ e hinv hok => Process.Inv.exec hinv e hok) (Process.inv_start K) hsafe
  exact hinv.log q r hlog

end SickPool.Ethash
