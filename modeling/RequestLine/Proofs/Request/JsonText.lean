import RequestLine.Proofs.Json.RoundTrip
import RequestLine.Proofs.Request.Building

/-!
The JSON text of a request.  What a line brings can be read back from it, and so can the URL with the
query, which agrees with the URL and the query beside it.
-/

namespace RequestLine

namespace Request

variable {request : Request}

theorem plain_toJson (headers : (Json.object request.headers).Plain)
    (query : (Json.object request.query).Plain) (body : request.body.Plain) :
    request.toJson.Plain := by
  have distinct : ["method", "url", "headers", "query", "body", "fullUrl"].Nodup := by decide
  refine .object distinct ?_
  simp only [List.forall_mem_cons]
  exact ⟨.string _, .string _, headers, query, body, .string _, List.forall_mem_nil _⟩

theorem unembedded_toJson (headers : (Json.object request.headers).Unembedded)
    (query : (Json.object request.query).Unembedded) (body : request.body.Unembedded) :
    request.toJson.Unembedded := by
  have leads : "method" ≠ Json.embeddingKey := by decide
  refine .object (fun same => leads (Option.some.inj same)) ?_
  simp only [List.forall_mem_cons]
  exact ⟨.string _, .string _, headers, query, body, .string _, List.forall_mem_nil _⟩

theorem depth_toJson_le {depth : Nat} (headers : (Json.object request.headers).depth ≤ depth)
    (query : (Json.object request.query).depth ≤ depth) (body : request.body.depth ≤ depth) :
    request.toJson.depth ≤ depth + 1 := by
  simp only [toJson, Json.depth, Json.depthOfMembers] at headers query ⊢
  omega

end Request

/-- The JSON text of a request that a line describes is read as an object with the parts of the request
under their names, as long as they have no binary64 numbers and leave one level of depth to the object
around them; in whatever object is read, the full URL is the URL with the query. -/
theorem ofString?_toText_request {line : String} {request : Request}
    (read : Request.ofLine line = .ok request)
    (realFree : (Json.object request.headers).RealFree ∧ (Json.object request.query).RealFree ∧
      request.body.RealFree)
    (shallow : (Json.object request.headers).depth ≤ 126 ∧
      (Json.object request.query).depth ≤ 126 ∧ request.body.depth ≤ 126) :
    Json.ofString? request.toJson.toText = some (.object
      [("method", .string request.method.name),
       ("url", .string request.url),
       ("headers", .object request.headers),
       ("query", .object request.query),
       ("body", request.body),
       ("fullUrl", .string request.fullUrl)]) ∧
    ∀ members, Json.ofString? request.toJson.toText = some (.object members) →
      ∃ url query, members.lookup "url" = some (.string url) ∧
        members.lookup "query" = some (.object query) ∧
        members.lookup "fullUrl" = some (.string (appendQuery url query)) := by
  obtain ⟨sections, describes⟩ := Request.describes_of_ofLine read
  obtain ⟨plainHeaders, plainQuery, plainBody⟩ := describes.inherits Json.inherited_plain
  obtain ⟨freeHeaders, freeQuery, freeBody⟩ := describes.inherits Json.inherited_unembedded
  have recovered : Json.ofString? request.toJson.toText = some request.toJson :=
    Json.ofString?_toText
      (Request.plain_toJson (plainHeaders realFree.1) (plainQuery realFree.2.1)
        (plainBody realFree.2.2))
      (Request.unembedded_toJson freeHeaders freeQuery freeBody)
      (Request.depth_toJson_le shallow.1 shallow.2.1 shallow.2.2)
  refine ⟨recovered, ?_⟩
  intro members again
  obtain rfl := Json.object.inj (Option.some.inj (recovered.symm.trans again))
  have fullUrl : Json.string request.fullUrl = .string (appendQuery request.url request.query) :=
    congrArg Json.string describes.fullUrl
  exact ⟨request.url, request.query, rfl, rfl, congrArg some fullUrl⟩

/-- A control character, and keys that are not in order. -/
theorem ofString?_toText_request_nested :
    ∃ request : Request,
      Request.ofLine
        ("[HTTP POST | URL https://a.com/x?u | QUERY \x7b\"z\":\"\\u0001é\",\"a\":true\x7d" ++
          " | BODY [null,\x7b\x7d]]") = .ok request ∧
      Json.ofString? request.toJson.toText = some (.object
        [("method", .string "POST"),
         ("url", .string "https://a.com/x?u"),
         ("headers", .object []),
         ("query", .object [("z", .string "\x01é"), ("a", .bool true)]),
         ("body", .array [.null, .object []]),
         ("fullUrl", .string "https://a.com/x?u&z=%01%C3%A9&a=true")]) := by
  let request : Request :=
    { method := .post
      url := "https://a.com/x?u"
      query := [("z", .string "\x01é"), ("a", .bool true)]
      body := .array [.null, .object []]
      fullUrl := appendQuery "https://a.com/x?u" [("z", .string "\x01é"), ("a", .bool true)] }
  have read : Request.ofLine
      ("[HTTP POST | URL https://a.com/x?u | QUERY \x7b\"z\":\"\\u0001é\",\"a\":true\x7d" ++
        " | BODY [null,\x7b\x7d]]") = .ok request := rfl
  have fullUrl : request.fullUrl = "https://a.com/x?u&z=%01%C3%A9&a=true" := by decide
  have headers : (Json.object request.headers).RealFree := .object (List.forall_mem_nil _)
  have query : (Json.object request.query).RealFree :=
    .object (by simpa [request] using ⟨Json.RealFree.string _, Json.RealFree.bool true⟩)
  have body : request.body.RealFree :=
    .array (by simpa using ⟨Json.RealFree.null, Json.RealFree.object (by simp)⟩)
  refine ⟨request, read, ?_⟩
  rw [← fullUrl]
  exact (ofString?_toText_request read ⟨headers, query, body⟩ (by decide)).1

end RequestLine
