import RequestLine.Proofs.Service.Status

/-!
The replies to payloads.  What a payload brings and what comes of its call decide the reply, down to the
wording of its errors; the replies are listed here one by one, and the service gives the listed one.  Only
a body that is too long has another reply, whatever it holds.
-/

namespace RequestLine

/-- The message is posted as JSON, and its body holds the payload. -/
structure Inbound.Carries (inbound : Inbound) (payload : Json) : Prop extends inbound.PostsJson where
  body : Json.read inbound.body.toList = .ok payload

/-- The payload brings a line, and not an empty one. -/
def Json.Brings (payload : Json) (line : String) : Prop :=
  payload.member? "reqline" = some (.string line) ∧ line ≠ ""

def Reply.ofError (status : Nat) (kind message : String) : Reply where
  status
  body := some (.object
    [("error", .bool true), ("kind", .string kind), ("message", .string message)])

/-- A successful answer as a reply, `start` and `stop` being the readings of the clock before and after
the call.  No time passes on a clock that was set back. -/
def Reply.ofAnswer (request : Request) (status start stop : Nat) (data : Json) : Reply where
  status := 200
  body := some (.object
    [("request", request.toJson),
     ("response", .object
       [("httpStatus", .integer status),
        ("duration", .integer (if start ≤ stop then (stop : Int) - start else 0)),
        ("requestStartTimestamp", .integer start),
        ("requestStopTimestamp", .integer stop),
        ("responseData", data)])])

namespace Service

/-- The reply once the call of `request` was made, between two readings of the clock. -/
inductive ReplyAfter (request : Request) (start stop : Nat) : Outcome → Reply → Prop where
  | exchanged {status : Nat} (data : Json) (success : 200 ≤ status ∧ status < 300) :
      ReplyAfter request start stop (.answered status data)
        (.ofAnswer request status start stop data)
  | unsuccessful {status : Nat} (data : Json) (noSuccess : ¬ (200 ≤ status ∧ status < 300)) :
      ReplyAfter request start stop (.answered status data)
        (.ofError (if 100 ≤ status ∧ status ≤ 999 then status else 500) "TransportError"
          ("Request failed with status code " ++ toString status))
  | failed (message : String) (status : Nat) :
      ReplyAfter request start stop (.failed message (some status))
        (.ofError (if 100 ≤ status ∧ status ≤ 999 then status else 500) "TransportError" message)
  | failedBare (message : String) :
      ReplyAfter request start stop (.failed message none) (.ofError 500 "TransportError" message)
  | crashed :
      ReplyAfter request start stop .crashed (.ofError 500 "Internal" "internal server error")

/-- The reply to a payload, where the call of a request has the outcome that `outcome` says. -/
inductive ReplyTo (payload : Json) (outcome : Request → Outcome) (start stop : Nat) :
    Reply → Prop where
  | missing
      (field : payload.member? "reqline" = none ∨ payload.member? "reqline" = some .null ∨
        payload.member? "reqline" = some (.string "")) :
      ReplyTo payload outcome start stop
        (.ofError 400 "MissingInput" "reqline input is required")
  | noText {value : Json} (field : payload.member? "reqline" = some value) (some : value ≠ .null)
      (noText : ∀ text, value ≠ .string text) :
      ReplyTo payload outcome start stop
        (.ofError 400 "InvalidType" "reqline input must be a string")
  | refused {line : String} {cause : RequestError} (brings : payload.Brings line)
      (refused : Request.ofLine line = .error cause) :
      ReplyTo payload outcome start stop (.ofError 400 cause.kind cause.message)
  | executed {line : String} {request : Request} {reply : Reply} (brings : payload.Brings line)
      (accepted : Request.ofLine line = .ok request)
      (after : ReplyAfter request start stop (outcome request) reply) :
      ReplyTo payload outcome start stop reply

theorem replyOf_answered_success {status : Nat} (success : 200 ≤ status ∧ status < 300)
    (request : Request) (start stop : Nat) (data : Json) :
    replyOf (Exchange.ofOutcome request start stop (.answered status data)) =
      .ofAnswer request status start stop data := by
  have within : isSuccess status = true := by simpa [isSuccess] using success
  have elapsed : ((stop - start : Nat) : Int) =
      if start ≤ stop then (stop : Int) - start else 0 := by
    split <;> omega
  simp only [Exchange.ofOutcome, within, if_true, replyOf, Exchange.toJson, Exchange.duration,
    elapsed]
  rfl

theorem replyOf_answered_failure {status : Nat} (noSuccess : ¬ (200 ≤ status ∧ status < 300))
    (request : Request) (start stop : Nat) (data : Json) :
    replyOf (Exchange.ofOutcome request start stop (.answered status data)) =
      .ofError (replyStatus status) "TransportError"
        ("Request failed with status code " ++ toString status) := by
  have beyond : isSuccess status = false := by simpa [isSuccess] using noSuccess
  simp only [Exchange.ofOutcome, beyond, Bool.false_eq_true, if_false]
  rfl

theorem replyAfter_iff {request : Request} {start stop : Nat} {outcome : Outcome} {reply : Reply} :
    ReplyAfter request start stop outcome reply ↔
      reply = replyOf (Exchange.ofOutcome request start stop outcome) := by
  apply Iff.intro
  · intro after
    cases after with
    | exchanged data success => exact (replyOf_answered_success success ..).symm
    | unsuccessful data noSuccess => exact (replyOf_answered_failure noSuccess ..).symm
    | failed message status => rfl
    | failedBare message => rfl
    | crashed => rfl
  · intro same
    subst same
    cases outcome with
    | answered status data =>
        by_cases success : 200 ≤ status ∧ status < 300
        · rw [replyOf_answered_success success]
          exact .exchanged data success
        · rw [replyOf_answered_failure success]
          exact .unsuccessful data success
    | failed message status =>
        cases status with
        | none => exact .failedBare message
        | some status => exact .failed message status
    | crashed => exact .crashed

/-! ### What a payload brings -/

theorem requestOf_of_brings {payload : Json} {line : String} (brings : payload.Brings line) :
    requestOf payload = Request.ofLine line := by
  have read : lineOf (payload.member? "reqline") = .ok line := lineOf_eq_ok_iff.mpr brings
  rw [requestOf, read, ok_bind]

theorem requestOf_of_missing {payload : Json}
    (field : payload.member? "reqline" = none ∨ payload.member? "reqline" = some .null ∨
      payload.member? "reqline" = some (.string "")) :
    requestOf payload = .error .missingInput := by
  rcases field with absent | null | empty
  · rw [requestOf, absent]
    rfl
  · rw [requestOf, null]
    rfl
  · rw [requestOf, empty]
    rfl

theorem requestOf_of_noText {payload value : Json} (field : payload.member? "reqline" = some value)
    (some : value ≠ .null) (noText : ∀ text, value ≠ .string text) :
    requestOf payload = .error .wrongType := by
  rw [requestOf, field]
  cases value with
  | null => exact absurd rfl some
  | string text => exact absurd rfl (noText text)
  | bool | integer | real | array | object => rfl

/-- A payload brings no line, something that is no text, or a line. -/
theorem field_cases (payload : Json) :
    (payload.member? "reqline" = none ∨ payload.member? "reqline" = some .null ∨
      payload.member? "reqline" = some (.string "")) ∨
    (∃ value, payload.member? "reqline" = some value ∧ value ≠ .null ∧
      ∀ text, value ≠ .string text) ∨
    ∃ line, payload.Brings line := by
  cases field : payload.member? "reqline" with
  | none => exact .inl (.inl rfl)
  | some value =>
      cases value with
      | null => exact .inl (.inr (.inl rfl))
      | string text =>
          by_cases empty : text = ""
          · subst empty
            exact .inl (.inr (.inr rfl))
          · exact .inr (.inr ⟨text, field, empty⟩)
      | bool | integer | real | array | object =>
          exact .inr (.inl ⟨_, rfl, by simp, by simp⟩)

/-- The reply to a payload as it is computed: from the error of its line, or from the request. -/
def replyToPayload (payload : Json) (outcome : Request → Outcome) (start stop : Nat) : Reply :=
  match requestOf payload with
  | .error cause => replyOf (.error (.refused cause))
  | .ok request => replyOf (Exchange.ofOutcome request start stop (outcome request))

section

variable {payload : Json} {outcome : Request → Outcome} {start stop : Nat}

theorem replyToPayload_of_error {cause : RequestError} (refused : requestOf payload = .error cause) :
    replyToPayload payload outcome start stop = .ofError 400 cause.kind cause.message := by
  have status : cause.status = 400 := failsOnly_requestOf payload cause refused
  rw [replyToPayload, refused]
  simp only [replyOf, ExchangeError.status, status]
  rfl

theorem replyToPayload_of_ok {request : Request} (accepted : requestOf payload = .ok request) :
    replyToPayload payload outcome start stop =
      replyOf (Exchange.ofOutcome request start stop (outcome request)) := by
  rw [replyToPayload, accepted]

theorem replyTo_iff {reply : Reply} :
    ReplyTo payload outcome start stop reply ↔
      reply = replyToPayload payload outcome start stop := by
  apply Iff.intro
  · intro answered
    cases answered with
    | missing field => exact (replyToPayload_of_error (requestOf_of_missing field)).symm
    | noText field some noText =>
        exact (replyToPayload_of_error (requestOf_of_noText field some noText)).symm
    | refused brings refused =>
        exact (replyToPayload_of_error ((requestOf_of_brings brings).trans refused)).symm
    | executed brings accepted after =>
        rw [replyToPayload_of_ok ((requestOf_of_brings brings).trans accepted)]
        exact replyAfter_iff.mp after
  · intro same
    subst same
    rcases field_cases payload with field | ⟨value, field, some, noText⟩ | ⟨line, brings⟩
    · rw [replyToPayload_of_error (requestOf_of_missing field)]
      exact .missing field
    · rw [replyToPayload_of_error (requestOf_of_noText field some noText)]
      exact .noText field some noText
    · cases read : Request.ofLine line with
      | error cause =>
          rw [replyToPayload_of_error ((requestOf_of_brings brings).trans read)]
          exact .refused brings read
      | ok request =>
          rw [replyToPayload_of_ok ((requestOf_of_brings brings).trans read)]
          exact .executed brings read (replyAfter_iff.mpr rfl)

end

/-- A body that is too long has the same refusal at every host. -/
theorem reply_of_long {inbound : Inbound} (posts : inbound.PostsJson)
    (long : bodyLimit < inbound.body.utf8ByteSize) {m : Type → Type} [Monad m] (host : Host m) :
    reply host inbound = pure ⟨413, none⟩ := by
  rw [reply, payloadOf_of_postsJson posts, if_pos long]

theorem run_reply_of_carries {inbound : Inbound} {payload : Json} (carries : inbound.Carries payload)
    (size : inbound.body.utf8ByteSize ≤ bodyLimit) (clock : Nat → Nat) (respond : Call → Outcome)
    (record : Record) :
    ((reply (Host.recording clock respond) inbound).run record).1 =
      replyToPayload payload (fun request => respond request.toCall)
        (clock record.readings) (clock (record.readings + 1)) := by
  have taken : payloadOf inbound = .ok payload :=
    payloadOf_eq_ok_iff.mpr ⟨⟨carries.toPostsJson, size⟩, carries.body⟩
  rw [reply, replyToPayload, taken]
  dsimp only
  cases requestOf payload with
  | error cause => rfl
  | ok request => rw [StateT.run_map, Request.run_execute_recording]; rfl

end Service

/-- The reply to a payload is the listed one, and no other: an error with the status of a bad request
and the kind and wording of its cause where no line is accepted, and else what the outcome of the call
makes of it, with the two readings of the clock around the call.  A body that is too long is refused by
its status alone, before the clock is read. -/
theorem reply_iff_replyTo {inbound : Inbound} {payload : Json} (carries : inbound.Carries payload)
    (clock : Nat → Nat) (respond : Call → Outcome) (record : Record) :
    (inbound.body.utf8ByteSize ≤ Service.bodyLimit → ∀ reply,
      ((Service.reply (Host.recording clock respond) inbound).run record).1 = reply ↔
        Service.ReplyTo payload (fun request => respond request.toCall)
          (clock record.readings) (clock (record.readings + 1)) reply) ∧
    (Service.bodyLimit < inbound.body.utf8ByteSize →
      (Service.reply (Host.recording clock respond) inbound).run record = (⟨413, none⟩, record)) := by
  apply And.intro
  · intro size reply
    rw [Service.replyTo_iff, Service.run_reply_of_carries carries size, eq_comm]
  · intro long
    rw [Service.reply_of_long carries.toPostsJson long]
    rfl

/-- The clock is set back during the call. -/
theorem reply_iff_replyTo_set_back :
    let respond := fun _ : Call => Outcome.answered 204 (.array [.null])
    ((Service.reply (Host.recording (7 - ·) respond) Inbound.posted).run {}).1 =
      .ofAnswer { method := .get, url := "https://a.com/x" } 204 7 6 (.array [.null]) := by
  intro respond
  have read : Json.read Inbound.posted.body.toList =
      .ok (.object [("reqline", .string "[HTTP GET | URL https://a.com/x]")]) := rfl
  have carries : Inbound.posted.Carries _ := ⟨Inbound.asks_posted.toPostsJson, read⟩
  apply ((reply_iff_replyTo carries (7 - ·) respond {}).1 Inbound.asks_posted.size _).mpr
  exact .executed ⟨rfl, by decide⟩ rfl (.exchanged (.array [.null]) (by decide))

/-! ### A body that is too long -/

/-- The empty object with spaces after it, posted as JSON. -/
def Inbound.spaced (count : Nat) : Inbound :=
  posting ("\x7b\x7d" ++ String.ofList (List.replicate count ' '))

theorem Json.read_spaced (count : Nat) :
    Json.read ('{' :: '}' :: List.replicate count ' ') = .ok (.object []) := by
  have blank : skipSpace (List.replicate count ' ') = [] := by
    apply List.dropWhile_eq_nil_iff.mpr
    intro c member
    rw [List.eq_of_mem_replicate member]
    rfl
  have value : Json.read ('{' :: '}' :: List.replicate count ' ') =
      if skipSpace (List.replicate count ' ') = [] then .ok (.object []) else .error .malformed := rfl
  rw [value, if_pos blank]

theorem utf8ByteSize_spaces (count : Nat) :
    (String.ofList (List.replicate count ' ')).utf8ByteSize = count := by
  induction count with
  | zero => rfl
  | succ count ih =>
      rw [List.replicate_succ, String.ofList_cons, String.utf8ByteSize_append, ih,
        String.utf8ByteSize_singleton, Nat.add_comm]
      rfl

theorem Inbound.carries_spaced (count : Nat) : (spaced count).Carries (.object []) := by
  have body : (spaced count).body.toList = '{' :: '}' :: List.replicate count ' ' := by
    rw [spaced, posting, String.toList_append, String.toList_ofList, String.toList_ofList]
    rfl
  refine ⟨postsJson_posting _, ?_⟩
  rw [body]
  exact Json.read_spaced count

theorem Inbound.size_spaced (count : Nat) : (spaced count).body.utf8ByteSize = 2 + count := by
  have braces : "\x7b\x7d".utf8ByteSize = 2 := rfl
  rw [spaced, posting, String.utf8ByteSize_append, utf8ByteSize_spaces, braces]

/-- An empty object brings no line, but it is not looked for behind so many spaces. -/
theorem not_replyTo_spaced :
    let respond := fun _ : Call => Outcome.crashed
    let reply := ((Service.reply (Host.recording id respond) (Inbound.spaced 2097151)).run {}).1
    (Inbound.spaced 2097151).Carries (.object []) ∧ reply = ⟨413, none⟩ ∧
      ¬ Service.ReplyTo (.object []) (fun request => respond request.toCall) 0 1 reply := by
  intro respond reply
  have carries := Inbound.carries_spaced 2097151
  have long : Service.bodyLimit < (Inbound.spaced 2097151).body.utf8ByteSize := by
    rw [Inbound.size_spaced]
    decide
  have refused : reply = ⟨413, none⟩ := by
    simp only [reply, Service.reply_of_long carries.toPostsJson long]
    rfl
  have missing : Service.requestOf (.object []) = .error .missingInput := rfl
  refine ⟨carries, refused, ?_⟩
  rw [Service.replyTo_iff, Service.replyToPayload_of_error missing, refused]
  intro same
  cases congrArg Reply.body same

end RequestLine
