import RequestLine.Proofs.Service.Verdict

/-!
The calls of the service.  They are read off a log that is kept beside any host at all: a message
whose line is accepted makes one call, the one that its request describes, and any other makes none.
-/

namespace RequestLine

variable {m : Type → Type} [Monad m]

/-- The host with a log of the calls that it is asked to send.  A call is noted before it is sent, so
that one that goes wrong is noted too. -/
def Host.logging (host : Host m) : Host (StateT (List Call) m) where
  now := StateT.lift host.now
  send call := do
    modify (· ++ [call])
    StateT.lift (host.send call)

theorem Request.run_execute_logging [LawfulMonad m] (host : Host m) (request : Request)
    (log : List Call) :
    (request.execute host.logging).run log =
      (fun result => (result, log ++ [request.toCall])) <$> request.execute host := by
  simp [execute, Host.logging]

theorem Request.run_execute_recording (clock : Nat → Nat) (respond : Call → Outcome)
    (request : Request) (record : Record) :
    (request.execute (Host.recording clock respond)).run record =
      (Exchange.ofOutcome request (clock record.readings) (clock (record.readings + 1))
          (respond request.toCall),
        { calls := record.calls ++ [request.toCall], readings := record.readings + 2 }) :=
  rfl

namespace Service

theorem reply_of_asks {inbound : Inbound} {request : Request} (asks : inbound.Asks request)
    (host : Host m) : reply host inbound = replyOf <$> request.execute host := by
  rw [reply_eq, verdict_eq_ok_iff.mpr asks]

/-- A message that asks for nothing is answered without the host. -/
theorem reply_of_not_asks {inbound : Inbound} (none : ¬ ∃ request, inbound.Asks request) :
    ∃ refusal, verdict inbound = .error refusal ∧
      ∀ {m : Type → Type} [Monad m] (host : Host m), reply host inbound = pure refusal := by
  cases heard : verdict inbound with
  | ok request => exact absurd ⟨request, verdict_eq_ok_iff.mp heard⟩ none
  | error refusal =>
      refine ⟨refusal, rfl, ?_⟩
      intro m _ host
      rw [reply_eq, heard]

theorem run_reply_of_asks [LawfulMonad m] {inbound : Inbound} {request : Request}
    (asks : inbound.Asks request) (host : Host m) (log : List Call) :
    (reply host.logging inbound).run log =
      (fun reply => (reply, log ++ [request.toCall])) <$> reply host inbound := by
  rw [reply_of_asks asks, reply_of_asks asks, StateT.run_map, Request.run_execute_logging]
  simp

theorem run_reply_of_not_asks [LawfulMonad m] {inbound : Inbound}
    (none : ¬ ∃ request, inbound.Asks request) (host : Host m) (log : List Call) :
    (reply host.logging inbound).run log =
      (fun reply => (reply, log)) <$> reply host inbound := by
  obtain ⟨refusal, _, refused⟩ := reply_of_not_asks none
  rw [refused, refused]
  simp

end Service

/-- A message that asks for a request makes the call of that request, once, and any other message makes
none and has the same reply at every host. -/
theorem reply_calls (inbound : Inbound) :
    ∃ made : List Call, made.length ≤ 1 ∧
      (made.length = 1 ↔ ∃ request, inbound.Asks request) ∧
      (∀ request, inbound.Asks request → made =
        [{ method := request.method
           url := request.fullUrl
           data := request.body
           headers := request.headers }]) ∧
      (∀ {m : Type → Type} [Monad m] [LawfulMonad m] (host : Host m) (log : List Call),
        (Service.reply host.logging inbound).run log =
          (fun reply => (reply, log ++ made)) <$> Service.reply host inbound) ∧
      (∀ clock respond record,
        ((Service.reply (Host.recording clock respond) inbound).run record).2.calls =
          record.calls ++ made) ∧
      ((¬ ∃ request, inbound.Asks request) → ∃ refusal,
        ∀ {m : Type → Type} [Monad m] (host : Host m),
          Service.reply host inbound = pure refusal) := by
  by_cases asked : ∃ request, inbound.Asks request
  · obtain ⟨request, asks⟩ := asked
    refine ⟨[request.toCall], Nat.le_refl 1, ⟨fun _ => ⟨request, asks⟩, fun _ => rfl⟩, ?_, ?_, ?_, ?_⟩
    · intro other asksOther
      rw [asks.unique asksOther]
      rfl
    · intro m _ _ host log
      exact Service.run_reply_of_asks asks host log
    · intro clock respond record
      rw [Service.reply_of_asks asks, StateT.run_map, Request.run_execute_recording]
      rfl
    · intro none
      exact absurd ⟨request, asks⟩ none
  · refine ⟨[], Nat.zero_le 1, ⟨fun one => absurd one (by decide), fun some => absurd some asked⟩,
      ?_, ?_, ?_, ?_⟩
    · intro request asks
      exact absurd ⟨request, asks⟩ asked
    · intro m _ _ host log
      simpa using Service.run_reply_of_not_asks asked host log
    · intro clock respond record
      obtain ⟨refusal, _, refused⟩ := Service.reply_of_not_asks asked
      rw [refused]
      exact (List.append_nil record.calls).symm
    · intro none
      obtain ⟨refusal, _, refused⟩ := Service.reply_of_not_asks none
      exact ⟨refusal, refused⟩

/-- A query after the path and parameters after the type do not matter; another path and another type
do. -/
theorem reply_calls_posted :
    let host : Host Id := { now := (0 : Nat), send := fun _ => .crashed }
    let posted : Inbound :=
      { method := "POST"
        target := "/?x=1"
        contentType := some "application/json; charset=utf-8"
        body :=
          "\x7b\"reqline\":\"[HTTP GET | URL https://a.com/x | QUERY \x7b\\\"a\\\":\\\"b c\\\"\x7d]\"\x7d" }
    ((Service.reply host.logging posted).run []).2 =
        [{ method := .get, url := "https://a.com/x?a=b%20c", data := .object [], headers := [] }] ∧
      ((Service.reply host.logging { posted with target := "/x" }).run []).2 = [] ∧
      ((Service.reply host.logging { posted with contentType := some "text/json" }).run []).2 = [] := by
  intro host posted
  have fullUrl : appendQuery "https://a.com/x" [("a", .string "b c")] = "https://a.com/x?a=b%20c" := by
    decide
  have read : Json.read posted.body.toList =
      .ok (.object [("reqline",
        .string "[HTTP GET | URL https://a.com/x | QUERY \x7b\"a\":\"b c\"\x7d]")]) := by
    dsimp only [posted]
    rfl
  have root : Service.AtRoot "/?x=1".toList := Service.pathOf_eq_root_iff.mp rfl
  have asks : posted.Asks
      { method := .get
        url := "https://a.com/x"
        query := [("a", .string "b c")]
        fullUrl := appendQuery "https://a.com/x" [("a", .string "b c")] } :=
    { target := root
      method := rfl
      mediaType := Service.any_isJson_iff.mp rfl
      size := by decide
      line := ⟨_, _, read, rfl, by decide, rfl⟩ }
  have silent : ∀ inbound : Inbound, (¬ ∃ request, inbound.Asks request) →
      ((Service.reply host.logging inbound).run []).2 = [] := by
    intro inbound none
    obtain ⟨made, few, one, _, logged, _⟩ := reply_calls inbound
    have empty : made = [] := by
      rw [← List.length_eq_zero_iff]
      have other := mt one.mp none
      omega
    have run := logged (m := Id) host []
    rw [empty] at run
    exact congrArg (fun result : Reply × List Call => result.2) run
  refine ⟨?_, silent _ ?_, silent _ ?_⟩
  · obtain ⟨made, _, _, one, logged, _⟩ := reply_calls posted
    have run := logged (m := Id) host []
    rw [one _ asks, fullUrl] at run
    exact congrArg (fun result : Reply × List Call => result.2) run
  · intro asked
    obtain ⟨request, asks⟩ := asked
    exact absurd (Service.pathOf_eq_root_iff.mpr asks.target) (by decide)
  · intro asked
    obtain ⟨request, asks⟩ := asked
    exact absurd (Service.any_isJson_iff.mpr asks.mediaType) (by decide)

end RequestLine
