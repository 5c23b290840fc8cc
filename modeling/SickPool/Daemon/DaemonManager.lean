import SickPool.Daemon.CompleteReply
import SickPool.Library.Lines

/-!
# Several daemons

`SendRpcReq` tries the configured daemons one after the other. `SendRequest` says with one
integer what became of it: -1 for a failed `send`, the `errno` for a failed `socket` or
`connect`, the status of a reply; the loop goes on after -1 only.
-/
namespace SickPool.Daemon

open SickPool.Library SickPool.Library.Bytes SickPool.Library.CString SickPool.Library.Http

/-- What a request to one daemon meets. -/
inductive Attempt where
  | socketFailure (errno : Errno)
  | connectFailure (errno : Errno)
  | sendFailure (errno : Errno)
  | sent (net : Net)

def EPIPE : Errno := ⟨32, by decide⟩

/-- What the process does on `SIGPIPE`. The default ends it; a library it loads may have the signal
ignored. -/
inductive SigAction where
  | SIG_DFL
  | SIG_IGN
  deriving DecidableEq

/-- `DaemonRpc::SendRequest`. Before a reply `result` is not written to. `send` is called without
`MSG_NOSIGNAL`. -/
def sendRequest (action : SigAction) (result : Bytes) : Attempt → Reply
  | .socketFailure errno => .returned errno.val result []
  | .connectFailure errno => .returned errno.val result []
  | .sendFailure errno =>
    if errno = EPIPE ∧ action = .SIG_DFL then .killed else .returned (-1) result []
  | .sent net => receiveReply net result

/-- `DaemonManager::SendRpcReq`, with what each of `rpcs` meets. -/
def sendRpcReq (action : SigAction) (result : Bytes) : List Attempt → Reply
  | [] => .returned (-2) result []
  | attempt :: rpcs =>
    match sendRequest action result attempt with
    | .returned res result rest =>
      if res ≠ -1 then .returned res result rest else sendRpcReq action result rpcs
    | .overrun => .overrun
    | .nullPointer => .nullPointer
    | .lengthError => .lengthError
    | .killed => .killed

/-! ## The first reply -/

def HttpStatus (code : Int) : Prop := 100 ≤ code ∧ code < 600

/-- The daemon yields an HTTP reply. -/
def Answers (attempt : Attempt) : Prop :=
  ∃ net status body, attempt = .sent net ∧ Replies net status body

/-- A failure, or a reply that is complete. -/
inductive Settled : Attempt → Prop where
  | socket (errno : Errno) : Settled (.socketFailure errno)
  | connect (errno : Errno) : Settled (.connectFailure errno)
  | send (errno : Errno) : Settled (.sendFailure errno)
  | answers {attempt : Attempt} (h : Answers attempt) : Settled attempt

/-- The first reply is returned, whatever `result` held, and a value that is no HTTP status only if
there is none. -/
def FailsOver (action : SigAction) (rpcs : List Attempt) : Prop :=
  ∀ result,
    (∀ before net after status body, rpcs = before ++ .sent net :: after →
      (∀ attempt ∈ before, ¬ Answers attempt) → Replies net status body →
      ∃ rest, sendRpcReq action result rpcs = .returned status body rest) ∧
    (∀ res text rest, sendRpcReq action result rpcs = .returned res text rest →
      ¬ HttpStatus res → ∀ attempt ∈ rpcs, ¬ Answers attempt)

/-- The failures behind which no other daemon is tried: those of `socket` and `connect`, and a
`send` on a closed connection when `SIGPIPE` ends the process. -/
inductive EndsLoop (action : SigAction) : Attempt → Prop where
  | socket (errno : Errno) : EndsLoop action (.socketFailure errno)
  | connect (errno : Errno) : EndsLoop action (.connectFailure errno)
  | pipe (haction : action = .SIG_DFL) : EndsLoop action (.sendFailure EPIPE)

/-- No failure before the first reply ends the loop, and the reply is read as it was sent. -/
def FirstReached (action : SigAction) (rpcs : List Attempt) : Prop :=
  ∀ before net after status body, rpcs = before ++ .sent net :: after →
    (∀ earlier ∈ before, ¬ Answers earlier) → Replies net status body →
    (∀ earlier ∈ before, ¬ EndsLoop action earlier) ∧ ReadAsSent net status body

theorem Settled.sendRequest_eq {action : SigAction} {attempt : Attempt} (h : Settled attempt)
    (hnone : ¬ Answers attempt) (hends : ¬ EndsLoop action attempt) (result : Bytes) :
    sendRequest action result attempt = .returned (-1) result [] := by
  cases h with
  | socket errno => exact absurd (.socket errno) hends
  | connect errno => exact absurd (.connect errno) hends
  | send errno =>
    apply if_neg
    rintro ⟨rfl, haction⟩
    exact hends (.pipe haction)
  | answers h => exact absurd h hnone

/-! ## Where the loop stops -/

section SendRpcReq

variable {action : SigAction} {before : List Attempt}

/-- After failed sends the loop is where it was. -/
theorem sendRpcReq_append (hsettled : ∀ attempt ∈ before, Settled attempt)
    (hnone : ∀ attempt ∈ before, ¬ Answers attempt)
    (hends : ∀ attempt ∈ before, ¬ EndsLoop action attempt) (result : Bytes)
    (rpcs : List Attempt) :
    sendRpcReq action result (before ++ rpcs) = sendRpcReq action result rpcs := by
  induction before with
  | nil => rfl
  | cons attempt before ih =>
    have hhead := (hsettled attempt (List.mem_cons_self ..)).sendRequest_eq
      (hnone attempt (List.mem_cons_self ..)) (hends attempt (List.mem_cons_self ..)) result
    rw [List.cons_append, sendRpcReq, hhead]
    exact ih (fun attempt h => hsettled attempt (List.mem_cons_of_mem _ h))
      (fun attempt h => hnone attempt (List.mem_cons_of_mem _ h))
      (fun attempt h => hends attempt (List.mem_cons_of_mem _ h))

/-- A failure that ends the loop leaves `result` as it was. -/
theorem EndsLoop.sendRpcReq_eq {attempt : Attempt} (h : EndsLoop action attempt) (result : Bytes)
    (after : List Attempt) :
    sendRpcReq action result (attempt :: after) = .killed ∨
      ∃ errno : Errno, sendRpcReq action result (attempt :: after) =
        .returned errno.val result [] := by
  rw [sendRpcReq]
  cases h with
  | socket errno => exact .inr ⟨errno, if_pos (by omega)⟩
  | connect errno => exact .inr ⟨errno, if_pos (by omega)⟩
  | pipe haction =>
    rw [sendRequest, if_pos ⟨rfl, haction⟩]
    exact .inl rfl

/-- The loop ends at a reply with what is read of it. -/
theorem Replies.sendRpcReq_eq {net : Net} {status : Nat} {body : Bytes}
    (h : Replies net status body) (result : Bytes) (after : List Attempt) :
    sendRpcReq action result (.sent net :: after) = receiveReply net result := by
  rw [sendRpcReq, sendRequest]
  cases hreply : receiveReply net result with
  | returned code got rest => exact if_pos (by rw [h.code_eq hreply]; omega)
  | overrun => rfl
  | nullPointer => rfl
  | lengthError => rfl
  | killed => rfl

end SendRpcReq

/-- The first of the daemons of which something holds. -/
theorem first_attempt {p : Attempt → Prop} {rpcs : List Attempt} (h : ∃ a ∈ rpcs, p a) :
    ∃ before a after, rpcs = before ++ a :: after ∧ p a ∧ ∀ b ∈ before, ¬ p b := by
  obtain ⟨a, ha, hpa⟩ := h
  have hnot : ¬ ∀ x ∈ rpcs, ¬ p x := fun hall => hall a ha hpa
  obtain ⟨before, first, after, hrpcs, hbefore, hfirst⟩ := Lines.exists_first hnot
  exact ⟨before, first, after, hrpcs, not_not.mp hfirst, hbefore⟩

section FailsOver

variable {action : SigAction} {rpcs : List Attempt}

theorem FirstReached.failsOver (h : FirstReached action rpcs)
    (hsettled : ∀ attempt ∈ rpcs, Settled attempt) : FailsOver action rpcs := by
  intro result
  have hfirst : ∀ before net after status body, rpcs = before ++ .sent net :: after →
      (∀ attempt ∈ before, ¬ Answers attempt) → Replies net status body →
      ∃ rest, sendRpcReq action result rpcs = .returned status body rest := by
    intro before net after status body hrpcs hnone hreplies
    obtain ⟨hends, hsent⟩ := h before net after status body hrpcs hnone hreplies
    have hbefore := (List.forall_mem_append.mp (hrpcs ▸ hsettled)).1
    rw [hrpcs, sendRpcReq_append hbefore hnone hends, hreplies.sendRpcReq_eq]
    exact (hreplies.returned_iff result).mpr hsent
  refine ⟨hfirst, ?_⟩
  intro res text rest hreturned hres attempt hattempt hanswers
  -- there is a first reply, and its status is returned
  obtain ⟨before, attempt, after, hrpcs, ⟨net, status, body, rfl, hreplies⟩, hnone⟩ :=
    first_attempt ⟨attempt, hattempt, hanswers⟩
  obtain ⟨rest', hstatus⟩ := hfirst before net after status body hrpcs hnone hreplies
  obtain ⟨rfl, -, -⟩ := Reply.returned.inj (hreturned.symm.trans hstatus)
  obtain ⟨hlow, hhigh⟩ := hreplies.range
  exact hres ⟨by omega, by omega⟩

theorem FailsOver.firstReached (h : FailsOver action rpcs)
    (hsettled : ∀ attempt ∈ rpcs, Settled attempt) : FirstReached action rpcs := by
  intro before net after status body hrpcs hnone hreplies
  have hbefore := (List.forall_mem_append.mp (hrpcs ▸ hsettled)).1
  -- a `result` that is not the body is returned as it is
  obtain ⟨rest, hreturned⟩ :=
    (h (0 :: body)).1 before net after status body hrpcs hnone hreplies
  have hends : ∀ earlier ∈ before, ¬ EndsLoop action earlier := by
    intro earlier hearlier hfails
    obtain ⟨sends, ending, behind, hsplit, hending, hsends⟩ :=
      first_attempt ⟨earlier, hearlier, hfails⟩
    have hsettled' := (List.forall_mem_append.mp (hsplit ▸ hbefore)).1
    have hnone' := (List.forall_mem_append.mp (hsplit ▸ hnone)).1
    rw [hrpcs, hsplit, List.append_assoc, List.cons_append,
      sendRpcReq_append hsettled' hnone' hsends] at hreturned
    rcases hending.sendRpcReq_eq (0 :: body) (behind ++ .sent net :: after) with
      hkilled | ⟨errno, herrno⟩
    · exact absurd (hkilled.symm.trans hreturned) (by simp)
    · obtain ⟨-, hbody, -⟩ := Reply.returned.inj (herrno.symm.trans hreturned)
      exact absurd (congrArg List.length hbody) (by simp)
  refine ⟨hends, ?_⟩
  rw [hrpcs, sendRpcReq_append hbefore hnone hends, hreplies.sendRpcReq_eq] at hreturned
  exact (hreplies.returned_iff _).mp ⟨rest, hreturned⟩

/-- The daemons stand in for one another exactly if no failure before the first reply ends the
loop and that reply is read as it was sent. -/
theorem failsOver_iff (action : SigAction) (rpcs : List Attempt)
    (hsettled : ∀ attempt ∈ rpcs, Settled attempt) :
    FailsOver action rpcs ↔ FirstReached action rpcs :=
  ⟨fun h => h.firstReached hsettled, fun h => h.failsOver hsettled⟩

end FailsOver

/-! ## A daemon that refuses the connection -/

/-- A `send` that fails with `ECONNRESET` and a daemon that replies. -/
theorem failsOver_sendFailure :
    FailsOver .SIG_DFL [.sendFailure 104, .sent (sampleNet [49, 50])] := by
  apply (failsOver_iff _ _ ?_).mpr
  · intro before net after status body hrpcs _ hreplies
    rcases before with _ | ⟨first, _ | ⟨second, before⟩⟩
    · cases hrpcs
    · cases hrpcs
      obtain ⟨rfl, rfl⟩ := sampleNet_unique hreplies
      refine ⟨?_, sampleNet_readAsSent⟩
      intro earlier hearlier hends
      rw [List.mem_singleton.mp hearlier] at hends
      cases hends
    · have hlength := congrArg List.length hrpcs
      simp only [List.length_cons, List.length_append, List.length_nil] at hlength
      omega
  · intro attempt hattempt
    rcases List.mem_pair.mp hattempt with rfl | rfl
    · exact .send 104
    · exact .answers ⟨_, 200, _, rfl, sampleNet_replies⟩

/-- 111 is `ECONNREFUSED`. -/
theorem not_failsOver_refused :
    sendRpcReq .SIG_DFL [] [.connectFailure 111, .sent (sampleNet [49, 50])] =
        .returned 111 [] [] ∧
      Replies (sampleNet [49, 50]) 200 [49, 50] ∧
      ¬ FailsOver .SIG_DFL [.connectFailure 111, .sent (sampleNet [49, 50])] := by
  refine ⟨rfl, sampleNet_replies, ?_⟩
  intro h
  have hnone : ∀ attempt ∈ [Attempt.connectFailure 111], ¬ Answers attempt := by
    intro attempt hattempt hanswers
    rw [List.mem_singleton.mp hattempt] at hanswers
    obtain ⟨net, status, body, hsent, -⟩ := hanswers
    cases hsent
  obtain ⟨rest, hreturned⟩ := (h []).1 _ _ [] 200 [49, 50] rfl hnone sampleNet_replies
  exact absurd (Reply.returned.inj hreturned).1 (by decide)

end SickPool.Daemon
