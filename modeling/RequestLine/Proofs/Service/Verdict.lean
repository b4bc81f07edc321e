import RequestLine.Proofs.Request.Refusal
import RequestLine.Proofs.Service.MediaTypes
import RequestLine.Proofs.Service.Targets

/-!
What the service makes of a message before it calls anyone: the request of the line that the message
brings, or the reply of its refusal.
-/

namespace RequestLine

/-- The message is posted to the root as JSON. -/
structure Inbound.PostsJson (inbound : Inbound) : Prop where
  target : Service.AtRoot inbound.target.toList
  method : inbound.method = "POST"
  mediaType : ∃ name, inbound.contentType = some name ∧ MediaType.IsJson name.toList

/-- The body of the message is looked into: it is posted as JSON, and it is not too long. -/
structure Inbound.Admitted (inbound : Inbound) : Prop extends inbound.PostsJson where
  size : inbound.body.utf8ByteSize ≤ Service.bodyLimit

/-- The message brings a line that is accepted as the request. -/
structure Inbound.Asks (inbound : Inbound) (request : Request) : Prop extends inbound.Admitted where
  line : ∃ members line, Json.read inbound.body.toList = .ok (.object members) ∧
    members.lookup "reqline" = some (.string line) ∧ line ≠ "" ∧
    Request.ofLine line = .ok request

namespace Service

def verdict (inbound : Inbound) : Except Reply Request :=
  match payloadOf inbound with
  | .error status => .error ⟨status, none⟩
  | .ok payload =>
      match requestOf payload with
      | .error cause => .error (replyOf (.error (.refused cause)))
      | .ok request => .ok request

/-- The surroundings of the service come in only once a request is known. -/
theorem reply_eq {m : Type → Type} [Monad m] (host : Host m) (inbound : Inbound) :
    reply host inbound =
      match verdict inbound with
      | .error refusal => pure refusal
      | .ok request => replyOf <$> request.execute host := by
  unfold reply verdict
  cases payloadOf inbound with
  | error status => rfl
  | ok payload =>
      dsimp only
      cases requestOf payload <;> rfl

/-! ### The requests -/

theorem any_isJson_iff {contentType : Option String} :
    contentType.any MediaType.isJson = true ↔
      ∃ name, contentType = some name ∧ MediaType.IsJson name.toList := by
  simp only [Option.any_eq_true, MediaType.isJson_iff]

/-- The body of a message that is posted as JSON is read, unless it is too long. -/
theorem payloadOf_of_postsJson {inbound : Inbound} (posts : inbound.PostsJson) :
    payloadOf inbound =
      if bodyLimit < inbound.body.utf8ByteSize then .error 413
      else (Json.read inbound.body.toList).mapError faultStatus := by
  rw [payloadOf, if_neg (not_not_intro (pathOf_eq_root_iff.mpr posts.target)),
    if_neg (not_not_intro posts.method), any_isJson_iff.mpr posts.mediaType]
  cases Json.read inbound.body.toList <;> rfl

theorem postsJson_of_payloadOf {inbound : Inbound} {payload : Json}
    (taken : payloadOf inbound = .ok payload) : inbound.PostsJson := by
  unfold payloadOf at taken
  split at taken
  · contradiction
  · rename_i path
    split at taken
    · contradiction
    · rename_i method
      split at taken
      · contradiction
      · rename_i mediaType
        exact ⟨pathOf_eq_root_iff.mp (Classical.not_not.mp path), Classical.not_not.mp method,
          any_isJson_iff.mp (by simpa using mediaType)⟩

theorem payloadOf_eq_ok_iff {inbound : Inbound} {payload : Json} :
    payloadOf inbound = .ok payload ↔
      inbound.Admitted ∧ Json.read inbound.body.toList = .ok payload := by
  have read : ∀ result : Except Json.Fault Json,
      result.mapError faultStatus = .ok payload ↔ result = .ok payload := by
    intro result
    cases result <;> simp [Except.mapError]
  apply Iff.intro
  · intro taken
    have posts := postsJson_of_payloadOf taken
    rw [payloadOf_of_postsJson posts] at taken
    split at taken
    · contradiction
    · rename_i size
      exact ⟨⟨posts, not_lt.mp size⟩, (read _).mp taken⟩
  · intro described
    obtain ⟨admitted, body⟩ := described
    rw [payloadOf_of_postsJson admitted.toPostsJson, if_neg (not_lt.mpr admitted.size)]
    exact (read _).mpr body

theorem lineOf_eq_ok_iff {field : Option Json} {line : String} :
    lineOf field = .ok line ↔ field = some (.string line) ∧ line ≠ "" := by
  cases field with
  | none => simp [lineOf]
  | some value =>
      cases value with
      | string text =>
          by_cases empty : text = ""
          · subst empty
            simp +contextual [lineOf]
          · have nonempty : text.isEmpty = false := by simpa using empty
            simp only [lineOf, nonempty, Bool.false_eq_true, if_false, Except.ok.injEq,
              Option.some.injEq, Json.string.injEq]
            exact ⟨fun same => ⟨same, same ▸ empty⟩, And.left⟩
      | _ => simp [lineOf]

theorem member?_eq_some_iff {payload value : Json} {key : String} :
    payload.member? key = some value ↔
      ∃ members, payload = .object members ∧ members.lookup key = some value := by
  cases payload <;> simp [Json.member?]

theorem requestOf_eq_ok_iff {payload : Json} {request : Request} :
    requestOf payload = .ok request ↔
      ∃ members line, payload = .object members ∧
        members.lookup "reqline" = some (.string line) ∧ line ≠ "" ∧
        Request.ofLine line = .ok request := by
  simp only [requestOf, bind_eq_ok_iff, lineOf_eq_ok_iff, member?_eq_some_iff]
  apply Iff.intro
  · intro found
    obtain ⟨line, ⟨⟨members, object, field⟩, nonempty⟩, read⟩ := found
    exact ⟨members, line, object, field, nonempty, read⟩
  · intro described
    obtain ⟨members, line, object, field, nonempty, read⟩ := described
    exact ⟨line, ⟨⟨members, object, field⟩, nonempty⟩, read⟩

theorem verdict_eq_ok_iff {inbound : Inbound} {request : Request} :
    verdict inbound = .ok request ↔ inbound.Asks request := by
  have both : verdict inbound = .ok request ↔
      ∃ payload, payloadOf inbound = .ok payload ∧ requestOf payload = .ok request := by
    unfold verdict
    cases payloadOf inbound with
    | error status => simp
    | ok payload => cases read : requestOf payload <;> simp [read]
  simp only [both, payloadOf_eq_ok_iff, requestOf_eq_ok_iff]
  apply Iff.intro
  · intro found
    obtain ⟨payload, ⟨admitted, read⟩, members, line, rfl, described⟩ := found
    exact ⟨admitted, members, line, read, described⟩
  · intro asks
    obtain ⟨members, line, read, described⟩ := asks.line
    exact ⟨_, ⟨asks.toAdmitted, read⟩, members, line, rfl, described⟩

end Service

theorem Inbound.Asks.unique {inbound : Inbound} {request other : Request}
    (asks : inbound.Asks request) (asksOther : inbound.Asks other) : other = request := by
  have heard := Service.verdict_eq_ok_iff.mpr asks
  rw [Service.verdict_eq_ok_iff.mpr asksOther] at heard
  exact Except.ok.inj heard

namespace Service

/-! ### The refusals -/

theorem failsOnly_requestOf (payload : Json) :
    FailsOnly (fun cause => cause.status = RequestError.badRequest) (requestOf payload) := by
  refine failsOnly_bind ?_ fun line cause failed => (Request.failsOnly_ofLine line cause failed).status
  match payload.member? "reqline" with
  | none | some .null => exact failsOnly_error rfl
  | some (.string line) => exact failsOnly_ite (failsOnly_error rfl) (failsOnly_ok line)
  | some (.bool _) | some (.integer _) | some (.real _) | some (.array _) | some (.object _) =>
      exact failsOnly_error rfl

theorem failsOnly_payloadOf (inbound : Inbound) :
    FailsOnly (fun status => 400 ≤ status ∧ status ≤ 422) (payloadOf inbound) := by
  refine failsOnly_ite (failsOnly_error (by decide)) (failsOnly_ite (failsOnly_error (by decide)) ?_)
  refine failsOnly_ite (failsOnly_error (by decide)) (failsOnly_ite (failsOnly_error (by decide)) ?_)
  cases Json.read inbound.body.toList with
  | error fault => cases fault <;> exact failsOnly_error (by decide)
  | ok payload => exact failsOnly_ok payload

/-- A refusal has the status of a faulty message, and its body is that of an error if it has one. -/
theorem failsOnly_verdict (inbound : Inbound) :
    FailsOnly (fun refusal => (400 ≤ refusal.status ∧ refusal.status ≤ 422) ∧
      (refusal.body = none ∨ ∃ error, refusal.body = some (errorBody error)))
      (verdict inbound) := by
  unfold verdict
  cases taken : payloadOf inbound with
  | error status => exact failsOnly_error ⟨failsOnly_payloadOf inbound status taken, .inl rfl⟩
  | ok payload =>
      dsimp only
      cases read : requestOf payload with
      | error cause =>
          have status := failsOnly_requestOf payload cause read
          refine failsOnly_error ⟨?_, .inr ⟨.refused cause, rfl⟩⟩
          simp only [replyOf, ExchangeError.status, status]
          decide
      | ok request => exact failsOnly_ok request

end Service
end RequestLine
