import RequestLine.Proofs.Request.Building

/-!
Sections with more of them after the last.  The first fault stands, whatever follows it, and what the
first sections bring is not touched by those that follow.
-/

namespace RequestLine

open Text

namespace Payload

theorem ofSections_append (entries more : List Section) :
    ofSections (entries ++ more) =
      ofSections entries >>= fun payload => more.foldlM add payload := by
  simp [ofSections, List.foldlM_append]

/-- A keyword that is known and comes again is an error, whatever its value is. -/
theorem add_of_taken {payload : Payload} {entry : Section} {slot : Slot}
    (keyword : entry.keyword = slot.keyword) (taken : payload.has slot = true) :
    payload.add entry = .error .duplicateSection := by
  have upper : isUpperCase slot.keyword.toList = true := by cases slot <;> decide
  simp [add, keyword, upper, taken]

theorem add_of_unknown {payload : Payload} {entry : Section}
    (upper : isUpperCase entry.keyword.toList = true)
    (unknown : Slot.ofKeyword? entry.keyword = none) :
    payload.add entry = .error .unknownKeyword := by
  simp [add, upper, unknown]

/-- A slot is taken exactly if a section has its keyword. -/
theorem OfEntries.has_iff {entries : List Section} {payload : Payload}
    (held : OfEntries entries payload) (slot : Slot) :
    payload.has slot = true ↔ ∃ entry ∈ entries, entry.keyword = slot.keyword := by
  rw [← Bool.not_eq_false, has_eq_false_iff]
  apply Iff.intro
  · intro taken
    obtain ⟨value, found⟩ := Option.ne_none_iff_exists'.mp taken
    obtain ⟨entry, member, brings⟩ := (held.holds slot value).mp found
    exact ⟨entry, member, brings.1⟩
  · intro named free
    obtain ⟨entry, member, keyword⟩ := named
    obtain ⟨place, value, brings⟩ := held.fit entry member
    obtain rfl := Slot.keyword_injective (brings.1.symm.trans keyword)
    rw [(held.holds place value).mpr ⟨entry, member, brings⟩] at free
    contradiction

/-- The first sections bring to a slot what all of them bring there, if its keyword is among them. -/
theorem OfEntries.get?_of_append {entries more : List Section} {payload whole : Payload}
    (held : OfEntries entries payload) (heldWhole : OfEntries (entries ++ more) whole) (slot : Slot) :
    ((∃ entry ∈ entries, entry.keyword = slot.keyword) → payload.get? slot = whole.get? slot) ∧
      ((¬ ∃ entry ∈ entries, entry.keyword = slot.keyword) → payload.get? slot = none) := by
  refine ⟨?_, ?_⟩
  · intro named
    have taken := (held.has_iff slot).mpr named
    rw [← Bool.not_eq_false, has_eq_false_iff] at taken
    obtain ⟨value, found⟩ := Option.ne_none_iff_exists'.mp taken
    obtain ⟨entry, member, brings⟩ := (held.holds slot value).mp found
    rw [found, (heldWhole.holds slot value).mpr ⟨entry, List.mem_append_left more member, brings⟩]
  · intro absent
    have free := mt (held.has_iff slot).mp absent
    rwa [Bool.not_eq_true, has_eq_false_iff] at free

theorem OfEntries.eq_of_append {entries more : List Section} {payload whole : Payload}
    (held : OfEntries entries payload) (heldWhole : OfEntries (entries ++ more) whole) :
    payload =
      { headers := if ∃ entry ∈ entries, entry.keyword = "HEADERS" then whole.headers else none
        query := if ∃ entry ∈ entries, entry.keyword = "QUERY" then whole.query else none
        body := if ∃ entry ∈ entries, entry.keyword = "BODY" then whole.body else none } := by
  apply ext_get?
  intro slot
  obtain ⟨kept, free⟩ := held.get?_of_append heldWhole slot
  by_cases named : ∃ entry ∈ entries, entry.keyword = slot.keyword
  · rw [kept named]
    cases slot with
    | headers => exact congrArg (Option.map Json.object) (if_pos named).symm
    | query => exact congrArg (Option.map Json.object) (if_pos named).symm
    | body => exact (if_pos named).symm
  · rw [free named]
    cases slot with
    | headers => exact (Option.map_eq_none_iff.mpr (if_neg named)).symm
    | query => exact (Option.map_eq_none_iff.mpr (if_neg named)).symm
    | body => exact (if_neg named).symm

end Payload

theorem getD_ite {α : Type} (condition : Prop) [Decidable condition] (found : Option α)
    (default : α) :
    (if condition then found else none).getD default =
      if condition then found.getD default else default := by
  split <;> rfl

theorem Sections.eq_of_toList {sections extended : Sections} {more : List Section}
    (continues : extended.toList = sections.toList ++ more) :
    extended = { sections with trailing := sections.trailing ++ more } := by
  obtain ⟨http, url, trailing⟩ := extended
  simp only [toList, List.cons_append, List.cons.injEq] at continues
  obtain ⟨rfl, rfl, rfl⟩ := continues
  rfl

namespace Request

theorem ofSections_append (sections : Sections) (more : List Section) :
    ofSections { sections with trailing := sections.trailing ++ more } = (do
      let method ← Method.ofSection sections.http
      let url ← urlOfSection sections.url
      let payload ← Payload.ofSections sections.trailing
      let whole ← more.foldlM Payload.add payload
      return ({ method, url : Request }.withPayload whole).withFullUrl) := by
  simp only [ofSections, Payload.ofSections_append, bind_assoc]

theorem ofSections_extended_of_error {sections : Sections} {cause : RequestError}
    (refused : ofSections sections = .error cause) (more : List Section) :
    ofSections { sections with trailing := sections.trailing ++ more } = .error cause := by
  rw [ofSections_append]
  simp only [ofSections, bind_eq_error_iff] at refused
  rcases refused with method | ⟨method, readMethod, refused⟩
  · rw [method]
    rfl
  · rcases refused with url | ⟨url, readUrl, refused⟩
    · rw [readMethod, url]
      rfl
    · rcases refused with payload | ⟨payload, _, built⟩
      · rw [readMethod, readUrl, payload]
        rfl
      · contradiction

/-- The section after those of a request can be at fault in its own right. -/
theorem ofSections_extended_of_add {sections : Sections} {request : Request}
    (built : ofSections sections = .ok request) {next : Section} {cause : RequestError}
    (fault : ∀ payload, Payload.OfEntries sections.trailing payload →
      payload.add next = .error cause) (rest : List Section) :
    ofSections { sections with trailing := sections.trailing ++ next :: rest } = .error cause := by
  obtain ⟨method, url, payload, readMethod, readUrl, held, rfl⟩ := ofSections_eq_ok_iff.mp built
  rw [ofSections_append, readMethod, readUrl, Payload.ofSections_eq_ok_iff.mpr held]
  simp only [ok_bind, List.foldlM_cons, fault payload held]
  rfl

theorem exists_ofSections_of_extended {sections : Sections} {more : List Section} {whole : Request}
    (built : ofSections { sections with trailing := sections.trailing ++ more } = .ok whole) :
    ofSections sections = .ok (withFullUrl
      { method := whole.method
        url := whole.url
        headers :=
          if ∃ entry ∈ sections.trailing, entry.keyword = "HEADERS" then whole.headers else []
        query :=
          if ∃ entry ∈ sections.trailing, entry.keyword = "QUERY" then whole.query else []
        body :=
          if ∃ entry ∈ sections.trailing, entry.keyword = "BODY" then whole.body
          else .object [] }) := by
  obtain ⟨method, url, payloadWhole, readMethod, readUrl, heldWhole, rfl⟩ :=
    ofSections_eq_ok_iff.mp built
  have readAll := Payload.ofSections_eq_ok_iff.mpr heldWhole
  rw [Payload.ofSections_append, bind_eq_ok_iff] at readAll
  obtain ⟨payload, read, _⟩ := readAll
  have held := Payload.ofSections_sound read
  refine ofSections_eq_ok_iff.mpr ⟨method, url, payload, readMethod, readUrl, held, ?_⟩
  rw [held.eq_of_append heldWhole]
  simp only [withPayload, withFullUrl, getD_ite]

end Request

/-- What follows the sections of a line does not bear on what they say.  Their first fault stays the
first; a section that repeats the keyword of one of them is at fault, and one that repeats the method's
or the URL's is unknown after it; and what is accepted with more sections is accepted without them,
less what these bring. -/
theorem ofSections_extended {sections extended : Sections} {more : List Section}
    (continues : extended.toList = sections.toList ++ more) :
    (∀ cause, Request.ofSections sections = .error cause →
      Request.ofSections extended = .error cause) ∧
    (∀ request next rest, Request.ofSections sections = .ok request → more = next :: rest →
      ((∃ entry ∈ sections.trailing, entry.keyword = next.keyword) →
        Request.ofSections extended = .error .duplicateSection) ∧
      (next.keyword = "HTTP" ∨ next.keyword = "URL" →
        Request.ofSections extended = .error .unknownKeyword)) ∧
    ∀ whole, Request.ofSections extended = .ok whole →
      ∃ request, Request.ofSections sections = .ok request ∧
        request.method = whole.method ∧ request.url = whole.url ∧
        request.headers =
          (if ∃ entry ∈ sections.trailing, entry.keyword = "HEADERS" then whole.headers else []) ∧
        request.query =
          (if ∃ entry ∈ sections.trailing, entry.keyword = "QUERY" then whole.query else []) ∧
        request.body =
          (if ∃ entry ∈ sections.trailing, entry.keyword = "BODY" then whole.body
            else .object []) ∧
        request.fullUrl = appendQuery request.url request.query := by
  obtain rfl := Sections.eq_of_toList continues
  refine ⟨?_, ?_, ?_⟩
  · intro cause refused
    exact Request.ofSections_extended_of_error refused more
  · intro request next rest built follows
    subst follows
    refine ⟨?_, ?_⟩
    · intro repeated
      apply Request.ofSections_extended_of_add built
      intro payload held
      obtain ⟨entry, member, keyword⟩ := repeated
      obtain ⟨slot, value, brings⟩ := held.fit entry member
      exact Payload.add_of_taken (keyword.symm.trans brings.1)
        ((held.has_iff slot).mpr ⟨entry, member, brings.1⟩)
    · intro first
      apply Request.ofSections_extended_of_add built
      intro payload held
      rcases first with http | url
      · exact Payload.add_of_unknown (by rw [http]; decide) (by rw [http]; rfl)
      · exact Payload.add_of_unknown (by rw [url]; decide) (by rw [url]; rfl)
  · intro whole built
    have shorter := Request.exists_ofSections_of_extended built
    exact ⟨_, shorter, rfl, rfl, rfl, rfl, rfl, Request.fullUrl_of_ofSections shorter⟩

theorem ofSections_extended_repeated :
    Request.ofSections ⟨⟨"HTTP", "POST"⟩, ⟨"URL", "https://a.com/x"⟩, [⟨"BODY", "[1]"⟩]⟩ =
      .ok { method := .post, url := "https://a.com/x", body := .array [.integer 1] } ∧
    Request.ofSections ⟨⟨"HTTP", "POST"⟩, ⟨"URL", "https://a.com/x"⟩,
        [⟨"BODY", "[1]"⟩, ⟨"BODY", "\x7b"⟩, ⟨"QUERY", "1"⟩]⟩ = .error .duplicateSection := by
  have built : Request.ofSections
      ⟨⟨"HTTP", "POST"⟩, ⟨"URL", "https://a.com/x"⟩, [⟨"BODY", "[1]"⟩]⟩ =
        .ok { method := .post, url := "https://a.com/x", body := .array [.integer 1] } := rfl
  have extended := @ofSections_extended
    ⟨⟨"HTTP", "POST"⟩, ⟨"URL", "https://a.com/x"⟩, [⟨"BODY", "[1]"⟩]⟩
    ⟨⟨"HTTP", "POST"⟩, ⟨"URL", "https://a.com/x"⟩,
      [⟨"BODY", "[1]"⟩, ⟨"BODY", "\x7b"⟩, ⟨"QUERY", "1"⟩]⟩ _ rfl
  exact ⟨built, (extended.2.1 _ _ _ built rfl).1 ⟨_, List.mem_cons_self, rfl⟩⟩

/-- The keyword of the method's section is none of those that may follow, so it is not found to come
twice. -/
theorem ofSections_extended_method :
    Sections.ofLine "[HTTP GET | URL https://a.com/x]" =
      .ok ⟨⟨"HTTP", "GET"⟩, ⟨"URL", "https://a.com/x"⟩, []⟩ ∧
    (∃ request, Request.ofSections ⟨⟨"HTTP", "GET"⟩, ⟨"URL", "https://a.com/x"⟩, []⟩ =
      .ok request) ∧
    Sections.ofLine "[HTTP GET | URL https://a.com/x | HTTP GET]" =
      .ok ⟨⟨"HTTP", "GET"⟩, ⟨"URL", "https://a.com/x"⟩, [⟨"HTTP", "GET"⟩]⟩ ∧
    Request.ofSections ⟨⟨"HTTP", "GET"⟩, ⟨"URL", "https://a.com/x"⟩, [⟨"HTTP", "GET"⟩]⟩ ≠
      .error .duplicateSection :=
  ⟨rfl, ⟨_, rfl⟩, rfl, by
    intro duplicate
    have unknown : Request.ofSections
        ⟨⟨"HTTP", "GET"⟩, ⟨"URL", "https://a.com/x"⟩, [⟨"HTTP", "GET"⟩]⟩ =
          .error .unknownKeyword := rfl
    exact absurd (Except.error.inj (unknown.symm.trans duplicate)) (by decide)⟩

end RequestLine
