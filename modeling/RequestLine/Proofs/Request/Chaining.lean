import RequestLine.Proofs.Request.Continuing

/-!
What a chain of steps makes of its URL.  Every accepted step adds its query behind those before it, and
nothing is lost or written again, even when a key has made the URL one that no line can hold.
-/

namespace RequestLine

open Text

theorem encodeQuery_eq (query : Members) :
    encodeQuery query = "&".intercalate (query.map fun pair =>
      pair.1 ++ "=" ++ String.ofList (percentEncode pair.2.queryText)) := by
  have pairs : (query.map fun pair =>
      pair.1 ++ "=" ++ String.ofList (percentEncode pair.2.queryText)).map String.toList =
        query.map pairText := by
    rw [List.map_map]
    apply List.map_congr_left
    intro pair _
    simp [pairText]
  apply String.toList_inj.mp
  rw [encodeQuery, String.toList_ofList, String.toList_intercalate, pairs]
  rfl

/-- A query that is added later goes on where the one before it has ended. -/
theorem appendQuery_appendQuery (url : String) (query more : Members) :
    appendQuery (appendQuery url query) more = appendQuery url (query ++ more) := by
  by_cases first : query = []
  · rw [first, appendQuery_nil, List.nil_append]
  · by_cases second : more = []
    · rw [second, appendQuery_nil, List.append_nil]
    · have marked : '?' ∈ (appendQuery url query).toList := by
        rw [appendQuery_of_ne_nil first]
        by_cases mark : '?' ∈ url.toList <;> simp [mark]
      rw [appendQuery_of_ne_nil second, if_pos marked, appendQuery_of_ne_nil first,
        appendQuery_of_ne_nil (by simp [first]), encodeQuery_eq, encodeQuery_eq more,
        encodeQuery_eq (query ++ more), List.map_append,
        String.intercalate_append_of_ne_nil (by simpa using first) (by simpa using second)]
      simp only [String.append_assoc]

namespace Chain

/-- The requests of the steps that are accepted. -/
def accepted (method url : String) (steps : List String) : List Request :=
  (run method url steps).filterMap Except.toOption

variable {method : Method} {base : String}

/-- An accepted step adds its query behind those that were added before. -/
theorem nextUrl_of_ok (address : LineUrl base) {before : Members} {step : String} {request : Request}
    (continues : Continues step.toList)
    (read : Chain.request method.name (appendQuery base before) step = .ok request) :
    nextUrl method.name (appendQuery base before) step = appendQuery base (before ++ request.query) := by
  have here := url_of_request (address.contained_appendQuery before) continues read
  rw [nextUrl, read]
  dsimp only
  rw [Request.fullUrl_of_ofLine read, here, appendQuery_appendQuery]

/-- After a whole run the URL has the queries of all accepted steps. -/
theorem finalUrl_eq (address : LineUrl base) (method : Method) (before : Members)
    {steps : List String}
    (continues : ∀ step ∈ steps, Continues step.toList) :
    finalUrl method.name (appendQuery base before) steps =
      appendQuery base (before ++
        (accepted method.name (appendQuery base before) steps).flatMap Request.query) := by
  induction steps generalizing before with
  | nil => simp [finalUrl, accepted, run]
  | cons step rest ih =>
      have later := fun before => ih before fun other member => continues other (by simp [member])
      cases read : Chain.request method.name (appendQuery base before) step with
      | error cause =>
          have same : nextUrl method.name (appendQuery base before) step = appendQuery base before := by
            rw [nextUrl, read]
          simpa [finalUrl, accepted, run, read, same, List.filterMap_cons, Except.toOption] using
            later before
      | ok request =>
          have next := nextUrl_of_ok address (continues step (by simp)) read
          simpa [finalUrl, accepted, run, read, next, Except.toOption] using
            later (before ++ request.query)

/-- The URL at the end of a chain is the one at its start if no accepted step has a query, and otherwise
that with the pairs of all accepted steps behind it, in the order of the steps and of their members. -/
theorem finalUrl_accumulates {url : String} (address : LineUrl url) (method : Method)
    {steps : List String}
    (continues : ∀ step ∈ steps, step = "" ∨ " | ".toList <+: step.toList) :
    ((∀ request ∈ accepted method.name url steps, request.query = []) →
      finalUrl method.name url steps = url) ∧
    ((∃ request ∈ accepted method.name url steps, request.query ≠ []) →
      finalUrl method.name url steps =
        url ++ (if '?' ∈ url.toList then "&" else "?") ++
          "&".intercalate ((accepted method.name url steps).flatMap fun request =>
            request.query.map fun pair =>
              pair.1 ++ "=" ++ String.ofList (percentEncode pair.2.queryText))) := by
  have shaped : ∀ step ∈ steps, Continues step.toList := by
    intro step member
    exact (continues step member).imp_left fun empty => by rw [empty]; rfl
  have total := finalUrl_eq address method [] shaped
  rw [appendQuery_nil, List.nil_append] at total
  apply And.intro
  · intro none
    rw [total, List.flatMap_eq_nil_iff.mpr none, appendQuery_nil]
  · intro some
    obtain ⟨request, member, nonempty⟩ := some
    have pairs : (accepted method.name url steps).flatMap Request.query ≠ [] := by
      intro empty
      exact nonempty (List.flatMap_eq_nil_iff.mp empty request member)
    rw [total, appendQuery_of_ne_nil pairs, encodeQuery_eq, List.map_flatMap]

theorem finalUrl_accumulates_barred :
    let steps := [" | QUERY \x7b\"k\":[1,null]\x7d",
      " | QUERY \x7b\"a \\u007c BODY 1\":\"x y\"\x7d | BODY 3", ""]
    (∀ step ∈ steps, step = "" ∨ " | ".toList <+: step.toList) ∧
      finalUrl "GET" "https://a.com/x" steps = "https://a.com/x?k=1%2C&a | BODY 1=x%20y" := by
  intro steps
  have address : LineUrl "https://a.com/x" :=
    ⟨⟨by decide, .inr (by decide), by decide⟩, by decide, by decide⟩
  have continues : ∀ step ∈ steps, step = "" ∨ " | ".toList <+: step.toList := by decide
  have firstFull : appendQuery "https://a.com/x" [("k", .array [.integer 1, .null])] =
      "https://a.com/x?k=1%2C" := by decide
  have secondFull : appendQuery "https://a.com/x?k=1%2C" [("a | BODY 1", .string "x y")] =
      "https://a.com/x?k=1%2C&a | BODY 1=x%20y" := by decide
  have first : request "GET" "https://a.com/x" " | QUERY \x7b\"k\":[1,null]\x7d" =
      .ok
        { method := .get
          url := "https://a.com/x"
          query := [("k", .array [.integer 1, .null])]
          fullUrl := "https://a.com/x?k=1%2C" } := by
    rw [← firstFull]
    rfl
  have firstUrl : nextUrl "GET" "https://a.com/x" " | QUERY \x7b\"k\":[1,null]\x7d" =
      "https://a.com/x?k=1%2C" := by rw [nextUrl, first]
  have second : request "GET" "https://a.com/x?k=1%2C"
      " | QUERY \x7b\"a \\u007c BODY 1\":\"x y\"\x7d | BODY 3" =
        .ok
          { method := .get
            url := "https://a.com/x?k=1%2C"
            query := [("a | BODY 1", .string "x y")]
            body := .integer 3
            fullUrl := "https://a.com/x?k=1%2C&a | BODY 1=x%20y" } := by
    rw [← secondFull]
    rfl
  have secondUrl : nextUrl "GET" "https://a.com/x?k=1%2C"
      " | QUERY \x7b\"a \\u007c BODY 1\":\"x y\"\x7d | BODY 3" =
        "https://a.com/x?k=1%2C&a | BODY 1=x%20y" := by rw [nextUrl, second]
  have last : request "GET" "https://a.com/x?k=1%2C&a | BODY 1=x%20y" "" =
      .error (.invalidJson "BODY") := rfl
  have found : accepted "GET" "https://a.com/x" steps =
      [{ method := .get
         url := "https://a.com/x"
         query := [("k", .array [.integer 1, .null])]
         fullUrl := "https://a.com/x?k=1%2C" },
        { method := .get
          url := "https://a.com/x?k=1%2C"
          query := [("a | BODY 1", .string "x y")]
          body := .integer 3
          fullUrl := "https://a.com/x?k=1%2C&a | BODY 1=x%20y" }] := by
    simp [steps, accepted, run, first, firstUrl, second, secondUrl, last, List.filterMap_cons,
      Except.toOption]
  have total := (finalUrl_accumulates address .get continues).2
  rw [show Method.get.name = "GET" from rfl, found] at total
  refine ⟨continues, (total ⟨_, List.mem_cons_self, List.cons_ne_nil _ _⟩).trans ?_⟩
  decide

end Chain
end RequestLine
