import SickPool.Stratum.HandleReq
import SickPool.Stratum.System

/-!
# The parameters of a submit request

`ParseShareParams` goes over fields and elements together and stops at the end of the
shorter. An array that ends before the fields do is accepted when its elements are, and the
fields behind it stay empty. What the handlers then read of the texts lies inside them only
when the array has an element for every field.
-/
namespace SickPool.Stratum

open SickPool.Library SickPool.Library.Bytes SickPool.Jobs SickPool.Shares SickPool.Persistence

variable {p : StratumProtocol} {R : Type}

/-- What `ParseShareParams` returns: the text of the error, which is empty for none. -/
def returnedText : Except Bytes (List Bytes) → Bytes
  | .ok _ => []
  | .error err => err

/-- An element that `GetArrField` takes for a field. -/
def Admitted (field : Field) (param : Option Bytes) : Prop :=
  ∃ value, param = some value ∧ (field.size ≠ 0 → value.length = field.size)

/-- The array ends before the fields do, and its elements are as they should be. -/
def EndsEarly (fields : List Field) (params : Params) : Prop :=
  params.length < fields.length ∧ ∀ x ∈ fields.zip params, Admitted x.1 x.2

/-- There is an element for every field, the values are the strings in these places, and a
value has the size that its field requires. -/
structure Complete (fields : List Field) (params : Params) (values : List Bytes) : Prop where
  enough : fields.length ≤ params.length
  strings : params.take fields.length = values.map some
  sizes : List.Forall₂ (fun field value => field.size ≠ 0 → value.length = field.size)
    fields values

/-- When no error is returned, the fields are complete. -/
def Validated (fields : List Field) (params : Params) : Prop :=
  returnedText (parseShareParams fields params) = [] →
    ∃ values, parseShareParams fields params = .ok values ∧ Complete fields params values

/-- An array is accepted exactly if the elements that have a field are. -/
theorem parseShareParams_ok_iff (fields : List Field) (params : Params) :
    (∃ values, parseShareParams fields params = .ok values) ↔
      ∀ x ∈ fields.zip params, Admitted x.1 x.2 := by
  induction fields, params using parseShareParams.induct with
  | case1 params => exact iff_of_true ⟨[], rfl⟩ (by simp)
  | case2 fields hne =>
    obtain ⟨field, rest, rfl⟩ := List.exists_cons_of_ne_nil hne
    exact iff_of_true ⟨_, rfl⟩ (by simp)
  | case3 field fields param params err herr =>
    refine iff_of_false ?_ ?_
    · rintro ⟨values, h⟩
      simp [parseShareParams, herr] at h
    · intro h
      obtain ⟨value, hvalue⟩ := h (field, param) (by simp)
      rw [getArrField_ok_iff.mpr hvalue] at herr
      cases herr
  | case4 field fields param params value hvalue ih =>
    have hfirst : Admitted field param := ⟨value, getArrField_ok_iff.mp hvalue⟩
    rw [List.zip_cons_cons, List.forall_mem_cons, ← ih]
    simp only [hfirst, true_and, parseShareParams, hvalue]
    cases parseShareParams fields params <;> simp [Except.map]

/-- An accepted array that does not end early is complete. -/
theorem complete_of_ok {fields : List Field} {params : Params} {values : List Bytes}
    (h : parseShareParams fields params = .ok values) (henough : fields.length ≤ params.length) :
    Complete fields params values := by
  induction fields generalizing params values with
  | nil =>
    obtain rfl : [] = values := by simpa [parseShareParams] using h
    exact ⟨henough, by simp, .nil⟩
  | cons field fields ih =>
    cases params with
    | nil => simp at henough
    | cons param params =>
      simp only [parseShareParams] at h
      split at h
      · cases h
      · rename_i value hvalue
        obtain ⟨rfl, hsize⟩ := getArrField_ok_iff.mp hvalue
        cases hrest : parseShareParams fields params with
        | error err => simp [hrest, Except.map] at h
        | ok rest =>
          obtain rfl : value :: rest = values := by simpa [hrest, Except.map] using h
          have hc := ih hrest (by simpa using henough)
          exact ⟨henough, by simp [hc.strings], .cons hsize hc.sizes⟩

/-- The text of an error names the field, so it is not empty. -/
theorem parseShareParams_error_ne_nil {fields : List Field} {params : Params} {err : Bytes}
    (h : parseShareParams fields params = .error err) : err ≠ [] := by
  induction fields, params using parseShareParams.induct with
  | case1 params => cases h
  | case2 fields hne =>
    obtain ⟨field, rest, rfl⟩ := List.exists_cons_of_ne_nil hne
    cases h
  | case3 field fields param params value herr =>
    simp only [parseShareParams, herr, Except.error.injEq] at h
    subst h
    simp [ascii]
  | case4 field fields param params value hvalue ih =>
    simp only [parseShareParams, hvalue] at h
    cases hrest : parseShareParams fields params with
    | ok rest => simp [hrest, Except.map] at h
    | error err' =>
      obtain rfl : err' = err := by simpa [hrest, Except.map] using h
      exact ih hrest

theorem returnedText_eq_nil {fields : List Field} {params : Params} :
    returnedText (parseShareParams fields params) = [] ↔
      ∃ values, parseShareParams fields params = .ok values := by
  cases hparse : parseShareParams fields params with
  | ok values => exact iff_of_true rfl ⟨values, rfl⟩
  | error err =>
    exact iff_of_false (parseShareParams_error_ne_nil hparse) (fun ⟨_, h⟩ => nomatch h)

/-- An array is validated unless it ends early. -/
theorem validated_iff (fields : List Field) (params : Params) :
    Validated fields params ↔ ¬ EndsEarly fields params := by
  rw [Validated, returnedText_eq_nil, EndsEarly, ← parseShareParams_ok_iff]
  constructor
  · rintro h ⟨hlt, hok⟩
    obtain ⟨values, -, hc⟩ := h hok
    exact absurd hc.enough (by omega)
  · rintro h ⟨values, hok⟩
    have henough : fields.length ≤ params.length := by
      by_contra hlt
      exact h ⟨by omega, values, hok⟩
    exact ⟨values, hok, complete_of_ok hok henough⟩

theorem Validated.complete {fields : List Field} {params : Params} {values : List Bytes}
    (h : Validated fields params) (hok : parseShareParams fields params = .ok values) :
    Complete fields params values := by
  obtain ⟨values', hok', hc⟩ := h (returnedText_eq_nil.mpr ⟨values, hok⟩)
  obtain rfl : values = values' := Except.ok.inj (hok.symm.trans hok')
  exact hc

/-! ## What the handlers read -/

/-- A call that takes so many characters of a received text. -/
structure TextRead where
  text : Bytes
  count : Nat
  deriving DecidableEq

def TextRead.Inside (r : TextRead) : Prop := r.count ≤ r.text.length

/-- `std::from_chars` from `data()` to `data() + size()`. -/
def fromCharsRead (text : Bytes) : TextRead := ⟨text, text.length⟩

/-- The two calls of `Unhexlify` in `GetHeaderData`. -/
def unhexlifyReads : {p : StratumProtocol} → Share p → List TextRead
  | .ZEC, share => [⟨ShareZec.nonce2 share, 56⟩, ⟨ShareZec.solution share, 2694⟩]
  | .CN, _ => []

/-- What `HandleShare` reads, for a share that comes as far as `GetHeaderData`. -/
def headerReads (srv : Server p R) (cli : StratumClient) (share : Share p) (call : Call) :
    List TextRead :=
  match cli.getAuthorizedId share.worker, srv.jobManager.getJob share.jobId with
  | some _, some job => if TimeInRange job share call.time then unhexlifyReads share else []
  | _, _ => []

def readsZec (srv : Server .ZEC R) (cli : StratumClient) (params : Params) (uninitialised : Nat)
    (call : Call) : List TextRead :=
  match parseShareParams zecFields params, parseShareZec uninitialised params with
  | .ok values, .ok share =>
    fromCharsRead (values.getD 2 []) :: headerReads (p := .ZEC) srv cli share call
  | _, _ => []

/-- `substr(2)` wants two characters, and throws without them. -/
def readsCn (params : Params) : List TextRead :=
  match parseShareParams cnFields params with
  | .ok values => [⟨values.getD 1 [], 2⟩, ⟨values.getD 0 [], 2⟩,
      fromCharsRead ((values.getD 0 []).drop 2)]
  | .error _ => []

def submitFields : StratumProtocol → List Field
  | .ZEC => zecFields
  | .CN => cnFields

def submitReads : {p : StratumProtocol} → Server p R → StratumClient → Params → Nat → Call →
    List TextRead
  | .ZEC, srv, cli, params, uninitialised, call => readsZec srv cli params uninitialised call
  | .CN, _, _, params, _, _ => readsCn params

/-- The parameters of a submit request are validated, the calls behind stay inside the texts,
and none throws. -/
structure SubmitSafe (env : Env R) (srv : Server p R) (cli : StratumClient) (worker : Bytes)
    (params : Params) (uninitialised : Nat) (call : Call) : Prop where
  validated : Validated (submitFields p) params
  inside : ∀ r ∈ submitReads srv cli params uninitialised call, r.Inside
  returns : (handleSubmit env srv cli worker params uninitialised call).isSome

theorem endsEarly_of_lacksHeader {params : Params} (h : LacksHeader params) :
    EndsEarly cnFields params := by
  obtain rfl | ⟨nonce, rfl, hlength⟩ := h
  · exact ⟨by decide, by simp⟩
  · exact ⟨by simp [cnFields], by simpa [cnFields, Admitted] using hlength⟩

theorem parseShareZec_sizes {params : Params} {uninitialised : Nat} {share : ShareZec}
    (h : Validated zecFields params) (hshare : parseShareZec uninitialised params = .ok share) :
    share.nonce2.length = 56 ∧ share.solution.length = 2694 := by
  cases hvalues : parseShareParams zecFields params with
  | error err => simp [parseShareZec, hvalues, Except.map] at hshare
  | ok values =>
    have hsizes := (h.complete hvalues).sizes
    simp only [zecFields, List.forall₂_cons_left_iff, List.forall₂_nil_left_iff] at hsizes
    obtain ⟨worker, _, -, ⟨jobId, _, -, ⟨time, _, -, ⟨nonce2, _, hnonce2, ⟨solution, _, hsolution,
      rfl, rfl⟩, rfl⟩, rfl⟩, rfl⟩, rfl⟩ := hsizes
    simp only [parseShareZec, hvalues, Except.map, Except.ok.injEq] at hshare
    subst hshare
    exact ⟨hnonce2 (by decide), hsolution (by decide)⟩

theorem readsZec_inside {srv : Server .ZEC R} {cli : StratumClient} {params : Params}
    {uninitialised : Nat} {call : Call} (h : Validated zecFields params) :
    ∀ r ∈ readsZec srv cli params uninitialised call, r.Inside := by
  intro r hr
  unfold readsZec at hr
  split at hr
  · rename_i values share hvalues hshare
    obtain ⟨hnonce2, hsolution⟩ := parseShareZec_sizes h hshare
    obtain rfl | hr := List.mem_cons.mp hr
    · exact le_refl _
    · unfold headerReads at hr
      split at hr
      · split_ifs at hr
        · simp only [unhexlifyReads, List.mem_cons, List.not_mem_nil, or_false] at hr
          obtain rfl | rfl := hr
          · exact hnonce2.ge
          · exact hsolution.ge
        · cases hr
      · cases hr
  · cases hr

/-- The null pointers are those of the texts that the array did not reach. -/
theorem handleSubmitZec_isSome {env : Env R} {srv : Server .ZEC R} {cli : StratumClient}
    {params : Params} {uninitialised : Nat} {call : Call} (h : Validated zecFields params) :
    (handleSubmitZec env srv cli params uninitialised call).isSome := by
  unfold handleSubmitZec
  cases hshare : parseShareZec uninitialised params with
  | error err => rfl
  | ok share =>
    obtain ⟨hnonce2, hsolution⟩ := parseShareZec_sizes h hshare
    have hn : share.nonce2 ≠ [] := List.ne_nil_of_length_pos (by omega)
    have hs : share.solution ≠ [] := List.ne_nil_of_length_pos (by omega)
    simp [readsNull_eq_false srv cli call hn hs]

theorem readsCn_inside {params : Params} (h : Validated cnFields params) :
    ∀ r ∈ readsCn params, r.Inside := by
  intro r hr
  unfold readsCn at hr
  split at hr
  · rename_i values hvalues
    have hsizes := (h.complete hvalues).sizes
    simp only [cnFields, List.forall₂_cons_left_iff, List.forall₂_nil_left_iff] at hsizes
    obtain ⟨nonce, _, hnonce, ⟨header, _, hheader, ⟨mix, _, -, rfl, rfl⟩, rfl⟩, rfl⟩ := hsizes
    have h18 := hnonce (by decide)
    have h66 := hheader (by decide)
    simp only [List.mem_cons, List.not_mem_nil, or_false] at hr
    obtain rfl | rfl | rfl := hr
    · show 2 ≤ header.length
      omega
    · show 2 ≤ nonce.length
      omega
    · exact le_refl _
  · cases hr

theorem submitSafe_iff (env : Env R) (srv : Server p R) (cli : StratumClient) (worker : Bytes)
    (params : Params) (uninitialised : Nat) (call : Call) :
    SubmitSafe env srv cli worker params uninitialised call ↔
      ¬ EndsEarly (submitFields p) params := by
  constructor
  · intro h
    exact (validated_iff _ _).mp h.validated
  · intro h
    have hv := (validated_iff _ _).mpr h
    cases p with
    | ZEC => exact ⟨hv, readsZec_inside hv, handleSubmitZec_isSome hv⟩
    | CN =>
      refine ⟨hv, readsCn_inside hv, ?_⟩
      rw [Option.isSome_iff_ne_none]
      exact fun hnone => h (endsEarly_of_lacksHeader ((handleSubmitCn_none_iff ..).mp hnone))

/-- **When the parameters are validated.** For every table of fields and every array, and for
every submit request with the calls behind, if and only if the array does not end early. -/
theorem submit_params_validated_iff (fields : List Field) (params : Params) (env : Env R)
    (srv : Server p R) (cli : StratumClient) (worker : Bytes) (uninitialised : Nat) (call : Call) :
    (Validated fields params ↔ ¬ EndsEarly fields params) ∧
      (SubmitSafe env srv cli worker params uninitialised call ↔
        ¬ EndsEarly (submitFields p) params) :=
  ⟨validated_iff fields params, submitSafe_iff env srv cli worker params uninitialised call⟩

/-- Worker, job id and time of a ZEC submit. -/
def threeParams : Params := [some (ascii "w"), some (ascii "00000000"), some (ascii "00000000")]

/-- Three parameters are accepted for five fields, and `Unhexlify` reads 56 characters of an
empty nonce. Without parameters an exception of `substr` leaves the CN handler. -/
theorem short_params_accepted :
    returnedText (parseShareParams zecFields threeParams) = [] ∧
      ¬ Validated zecFields threeParams ∧
      submitReads (p := .ZEC) zecServer sampleClient threeParams 0 sampleCall =
        [⟨ascii "00000000", 8⟩, ⟨[], 56⟩, ⟨[], 2694⟩] ∧
      ¬ SubmitSafe (sampleEnv maxHash) zecServer sampleClient [] threeParams 0 sampleCall ∧
      parseShareCn 0 (ascii "w") [] = .ok none := by
  have hearly : EndsEarly zecFields threeParams :=
    ⟨by decide, by simp [zecFields, threeParams, Admitted, ascii]⟩
  refine ⟨rfl, fun h => (validated_iff _ _).mp h hearly, ?_, ?_, rfl⟩
  · decide +kernel
  · exact fun h => (submitSafe_iff ..).mp h hearly

end SickPool.Stratum
