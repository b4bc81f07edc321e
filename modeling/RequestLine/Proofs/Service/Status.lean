import RequestLine.Proofs.Service.Calls

/-!
What the status of a reply says.  It is a success exactly if the reply is an exchange, unless the call
failed with a status that is a success itself: the reply passes that one on.
-/

namespace RequestLine

namespace Reply

def Succeeds (reply : Reply) : Prop :=
  200 ≤ reply.status ∧ reply.status ≤ 299

/-- The reply is the object of a request and its response. -/
def IsExchange (reply : Reply) : Prop :=
  ∃ request response, reply.body = some (.object [("request", request), ("response", response)])

def IsError (reply : Reply) : Prop :=
  ∃ kind message, reply.body = some
    (.object [("error", .bool true), ("kind", .string kind), ("message", .string message)])

theorem IsError.not_isExchange {reply : Reply} (error : reply.IsError) : ¬ reply.IsExchange := by
  intro exchange
  obtain ⟨_, _, errorBody⟩ := error
  obtain ⟨_, _, exchangeBody⟩ := exchange
  simp [errorBody] at exchangeBody

end Reply

/-- No answer was had, and yet a status that is a success. -/
def Outcome.FailsWith (outcome : Outcome) (status : Nat) : Prop :=
  (∃ message, outcome = .failed message (some status)) ∧ 200 ≤ status ∧ status ≤ 299

/-- The message asks for a request whose call fails with this status, which is a success. -/
def Inbound.FailsWith (inbound : Inbound) (respond : Call → Outcome) (status : Nat) : Prop :=
  ∃ request, inbound.Asks request ∧ (respond request.toCall).FailsWith status

namespace Outcome

@[simp] theorem not_failsWith_answered (status other : Nat) (data : Json) :
    ¬ (answered status data).FailsWith other := by
  simp [FailsWith]

@[simp] theorem not_failsWith_crashed (status : Nat) : ¬ crashed.FailsWith status := by
  simp [FailsWith]

@[simp] theorem failsWith_failed {message : String} {status : Option Nat} {other : Nat} :
    (failed message status).FailsWith other ↔
      status = some other ∧ 200 ≤ other ∧ other ≤ 299 := by
  simp [FailsWith]

end Outcome

namespace Service

theorem replyStatus_succeeds_iff {status : Nat} :
    (200 ≤ replyStatus status ∧ replyStatus status ≤ 299) ↔ 200 ≤ status ∧ status ≤ 299 := by
  unfold replyStatus
  split <;> omega

theorem replyStatus_of_succeeds {status : Nat} (success : 200 ≤ status ∧ status ≤ 299) :
    replyStatus status = status :=
  if_pos (by omega)

theorem succeeds_replyOf (exchange : Exchange) : (replyOf (.ok exchange)).Succeeds :=
  ⟨Nat.le_refl 200, (by decide : 200 ≤ 299)⟩

theorem isError_replyOf (error : ExchangeError) : (replyOf (.error error)).IsError :=
  ⟨error.kind, error.message, rfl⟩

/-- How a reply stands to the statuses that a failed call may have brought, each of them a success:
there is one exactly if the reply passes it on. -/
inductive Reports (brought : Nat → Prop) (reply : Reply) : Prop where
  | exchange (body : reply.IsExchange) (success : reply.Succeeds) (none : ∀ status, ¬ brought status)
  | failure (body : ¬ reply.IsExchange) (noSuccess : ¬ reply.Succeeds)
      (none : ∀ status, ¬ brought status)
  | passedOn (body : reply.IsError) (success : reply.Succeeds)
      (only : ∀ status, brought status ↔ status = reply.status)

theorem Reports.congr {brought other : Nat → Prop} {reply : Reply} (reports : Reports brought reply)
    (same : ∀ status, other status ↔ brought status) : Reports other reply := by
  rwa [funext fun status => propext (same status)]

/-- An error is a success by its status only where the call brought that status. -/
theorem reports_error {brought : Nat → Prop} {error : ExchangeError}
    (brings : ∀ status, brought status ↔ error.status = status ∧ 200 ≤ status ∧ status ≤ 299) :
    Reports brought (replyOf (.error error)) := by
  have body := isError_replyOf error
  by_cases success : 200 ≤ error.status ∧ error.status ≤ 299
  · have kept : (replyOf (.error error)).status = error.status := replyStatus_of_succeeds success
    refine .passedOn body (replyStatus_succeeds_iff.mpr success) ?_
    intro status
    rw [brings, kept]
    apply Iff.intro
    · intro found
      exact found.1.symm
    · intro same
      subst same
      exact ⟨rfl, success⟩
  · refine .failure body.not_isExchange (mt replyStatus_succeeds_iff.mp success) ?_
    intro status found
    obtain ⟨rfl, within⟩ := (brings status).mp found
    exact success within

theorem reports_ofOutcome (request : Request) (start stop : Nat) (outcome : Outcome) :
    Reports outcome.FailsWith (replyOf (Exchange.ofOutcome request start stop outcome)) := by
  cases outcome with
  | answered status data =>
      simp only [Exchange.ofOutcome]
      split
      · exact .exchange ⟨_, _, rfl⟩ (succeeds_replyOf _) (by simp)
      · rename_i noSuccess
        apply reports_error
        intro other
        simp only [isSuccess, Bool.and_eq_true, decide_eq_true_eq] at noSuccess
        simp only [Outcome.not_failsWith_answered, ExchangeError.status, RequestError.status,
          false_iff]
        omega
  | failed message status =>
      apply reports_error
      intro other
      cases status with
      | none =>
          simp only [Outcome.failsWith_failed, ExchangeError.status, RequestError.status,
            Option.getD_none, RequestError.defaultFailureStatus, reduceCtorEq, false_and, false_iff]
          omega
      | some status =>
          simp only [Outcome.failsWith_failed, ExchangeError.status, RequestError.status,
            Option.getD_some, Option.some.injEq]
  | crashed =>
      apply reports_error
      intro other
      simp only [Outcome.not_failsWith_crashed, ExchangeError.status, false_iff]
      omega

theorem not_isExchange_of_verdict_error {inbound : Inbound} {refusal : Reply}
    (refused : verdict inbound = .error refusal) : ¬ refusal.IsExchange := by
  obtain ⟨_, none | ⟨error, body⟩⟩ := failsOnly_verdict inbound refusal refused
  · simp [Reply.IsExchange, none]
  · exact Reply.IsError.not_isExchange ⟨error.kind, error.message, body⟩

theorem reports_reply (inbound : Inbound) (clock : Nat → Nat) (respond : Call → Outcome)
    (record : Record) :
    Reports (inbound.FailsWith respond)
      ((reply (Host.recording clock respond) inbound).run record).1 := by
  by_cases asked : ∃ request, inbound.Asks request
  · obtain ⟨request, asks⟩ := asked
    rw [reply_of_asks asks, StateT.run_map, Request.run_execute_recording]
    refine (reports_ofOutcome request _ _ (respond request.toCall)).congr fun status => ?_
    apply Iff.intro
    · intro brought
      obtain ⟨other, asksOther, fails⟩ := brought
      rwa [asks.unique asksOther] at fails
    · intro fails
      exact ⟨request, asks, fails⟩
  · obtain ⟨refusal, refused, unheard⟩ := reply_of_not_asks asked
    have status := (failsOnly_verdict inbound refusal refused).1
    rw [unheard]
    refine .failure (not_isExchange_of_verdict_error refused) ?_ ?_
    · intro success
      have upper : refusal.status ≤ 299 := success.2
      omega
    · intro status brought
      exact asked (brought.imp fun request found => found.1)

end Service

/-- A reply is a success exactly if it is an exchange, unless the call failed with a status that is a
success itself.  Then the reply is the error of that failure, with its status. -/
theorem reply_succeeds_iff (inbound : Inbound) (clock : Nat → Nat) (respond : Call → Outcome)
    (record : Record) :
    let reply := ((Service.reply (Host.recording clock respond) inbound).run record).1
    (reply.Succeeds ↔ reply.IsExchange ∨ inbound.FailsWith respond reply.status) ∧
      (reply.IsError → (reply.Succeeds ↔ inbound.FailsWith respond reply.status)) ∧
      ∀ status, inbound.FailsWith respond status → reply.IsError ∧ reply.status = status := by
  intro reply
  have reports : Service.Reports (inbound.FailsWith respond) reply :=
    Service.reports_reply inbound clock respond record
  cases reports with
  | exchange body success none =>
      refine ⟨iff_of_true success (.inl body), fun error => absurd body error.not_isExchange, ?_⟩
      intro status brought
      exact absurd brought (none status)
  | failure body noSuccess none =>
      refine ⟨iff_of_false noSuccess (not_or_intro body (none _)),
        fun _ => iff_of_false noSuccess (none _), ?_⟩
      intro status brought
      exact absurd brought (none status)
  | passedOn body success only =>
      have own : inbound.FailsWith respond reply.status := (only _).mpr rfl
      refine ⟨iff_of_true success (.inr own), fun _ => iff_of_true success own, ?_⟩
      intro status brought
      exact ⟨body, ((only status).mp brought).symm⟩

/-- The body, posted as JSON. -/
def Inbound.posting (body : String) : Inbound where
  method := "POST"
  target := "/"
  contentType := some "application/json"
  body

theorem Inbound.postsJson_posting (body : String) : (posting body).PostsJson := by
  have root : Service.AtRoot "/".toList := Service.pathOf_eq_root_iff.mp rfl
  have json : MediaType.IsJson "application/json".toList := MediaType.isJson_iff.mp rfl
  exact ⟨root, rfl, _, rfl, json⟩

/-- A message whose line is in order. -/
def Inbound.posted : Inbound :=
  posting "\x7b\"reqline\":\"[HTTP GET | URL https://a.com/x]\"\x7d"

theorem Inbound.asks_posted :
    Inbound.posted.Asks { method := .get, url := "https://a.com/x" } := by
  have read : Json.read Inbound.posted.body.toList =
      .ok (.object [("reqline", .string "[HTTP GET | URL https://a.com/x]")]) := rfl
  exact ⟨⟨postsJson_posting _, by decide⟩, _, _, read, rfl, by decide, rfl⟩

theorem reply_succeeds_iff_no_content :
    let respond := fun _ : Call => Outcome.failed "cut off" (some 204)
    let reply := ((Service.reply (Host.recording id respond) Inbound.posted).run {}).1
    Inbound.posted.FailsWith respond 204 ∧ reply.IsError ∧ reply.status = 204 ∧ reply.Succeeds := by
  intro respond reply
  have fails : Inbound.posted.FailsWith respond 204 :=
    ⟨_, Inbound.asks_posted, Outcome.failsWith_failed.mpr ⟨rfl, by decide, by decide⟩⟩
  obtain ⟨succeeds, _, passed⟩ := reply_succeeds_iff Inbound.posted id respond {}
  obtain ⟨error, status⟩ := passed 204 fails
  exact ⟨fails, error, status, succeeds.mpr (.inr (status ▸ fails))⟩

/-- The status of a reply does not by itself tell an exchange from an error. -/
theorem reply_succeeds_broken :
    let respond := fun _ : Call => Outcome.failed "broken" (some 200)
    let reply := ((Service.reply (Host.recording id respond) Inbound.posted).run {}).1
    reply.status = 200 ∧
      reply.body = some (.object [("error", .bool true), ("kind", .string "TransportError"),
        ("message", .string "broken")]) ∧
      ¬ (reply.Succeeds ↔ reply.IsExchange) ∧ ¬ (reply.IsError → ¬ reply.Succeeds) := by
  intro respond reply
  have broken : reply = Service.replyOf (.error (.refused (.transport 200 "broken"))) := by
    simp only [reply, Service.reply_of_asks Inbound.asks_posted, StateT.run_map,
      Request.run_execute_recording]
    rfl
  have error : reply.IsError := broken ▸ Service.isError_replyOf _
  have success : reply.Succeeds := by
    rw [broken]
    exact ⟨by decide, by decide⟩
  refine ⟨by rw [broken]; rfl, by rw [broken]; rfl, ?_, ?_⟩
  · intro same
    exact error.not_isExchange (same.mp success)
  · intro never
    exact never error success

end RequestLine
