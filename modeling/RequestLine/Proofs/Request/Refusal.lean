import RequestLine.Proofs.Request.Building

/-!
The errors that the reading of a line can end in.  They are about the text of the line, so a line is
never refused with the status of a call.  The keywords of the first two sections and the values of all
are there once the structure of the line is checked, so they are never found to be missing.
-/

namespace RequestLine

/-- An error about the text of a line that its structure leaves possible. -/
def RequestError.InLine : RequestError → Prop
  | .wrongType | .transport _ _ => False
  | .missingMethodKeyword | .missingUrlKeyword => False
  | .emptyMethod | .emptyUrl | .emptyHeaders | .emptyQuery | .emptyBody => False
  | .invalidJson keyword => ∃ slot : Slot, keyword = slot.keyword
  | _ => True

theorem RequestError.InLine.status {cause : RequestError} (inLine : cause.InLine) :
    cause.status = badRequest := by
  cases cause <;> first | rfl | exact inLine.elim

theorem Section.failsOnly_ofPart (part : List Char) :
    FailsOnly RequestError.InLine (Section.ofPart part) := by
  unfold Section.ofPart
  refine failsOnly_ite (failsOnly_error trivial) ?_
  cases Text.splitKeyword? (Text.trim part) with
  | none => exact failsOnly_error trivial
  | some pair => exact failsOnly_ok _

theorem Sections.failsOnly_ofParts (pieces : List (List Char)) :
    FailsOnly RequestError.InLine (Sections.ofParts pieces) := by
  match pieces with
  | [] => exact failsOnly_error trivial
  | [_] => exact failsOnly_error trivial
  | first :: second :: others =>
      refine failsOnly_ite (failsOnly_error trivial) (failsOnly_ite (failsOnly_error trivial) ?_)
      refine failsOnly_bind (Section.failsOnly_ofPart first) fun _ => ?_
      refine failsOnly_bind (Section.failsOnly_ofPart second) fun _ => ?_
      exact failsOnly_bind (failsOnly_mapM Section.failsOnly_ofPart others) fun _ => failsOnly_ok _

theorem Sections.failsOnly_ofLine (line : String) :
    FailsOnly RequestError.InLine (Sections.ofLine line) := by
  refine failsOnly_ite (failsOnly_error trivial) ?_
  cases interior? line.toList with
  | none => exact failsOnly_error trivial
  | some interior =>
      refine failsOnly_ite (failsOnly_error trivial) (failsOnly_ite (failsOnly_error trivial) ?_)
      exact Sections.failsOnly_ofParts (Text.parts interior)

theorem Method.failsOnly_ofSection {entry : Section} (keyword : entry.keyword = "HTTP")
    (filled : entry.Filled) : FailsOnly RequestError.InLine (Method.ofSection entry) := by
  unfold Method.ofSection
  rw [if_neg (not_not.mpr keyword), if_neg (by simpa using filled.value)]
  refine failsOnly_ite (failsOnly_error trivial) (failsOnly_ite (failsOnly_error trivial) ?_)
  exact failsOnly_ite (failsOnly_ok _) (failsOnly_ite (failsOnly_ok _) (failsOnly_error trivial))

theorem failsOnly_urlOfSection {entry : Section} (keyword : entry.keyword = "URL")
    (filled : entry.Filled) : FailsOnly RequestError.InLine (urlOfSection entry) := by
  unfold urlOfSection
  rw [if_neg (not_not.mpr keyword), if_neg (by simpa using filled.value)]
  refine failsOnly_ite (failsOnly_error trivial) (failsOnly_ite (failsOnly_error trivial) ?_)
  exact failsOnly_ok _

namespace Payload

theorem failsOnly_decodeValue (slot : Slot) (text : List Char) :
    FailsOnly RequestError.InLine (decodeValue slot text) := by
  unfold decodeValue
  cases Json.ofText? text with
  | none => exact failsOnly_error ⟨slot, rfl⟩
  | some value => exact failsOnly_ok value

theorem failsOnly_decodeMembers (slot : Slot) (notObject : RequestError)
    (inLine : notObject.InLine) (text : List Char) :
    FailsOnly RequestError.InLine (decodeMembers slot notObject text) := by
  refine failsOnly_bind (failsOnly_decodeValue slot text) ?_
  intro value
  cases value <;> first | exact failsOnly_ok _ | exact failsOnly_error inLine

theorem failsOnly_fill (payload : Payload) (slot : Slot) {text : List Char} (nonempty : text ≠ []) :
    FailsOnly RequestError.InLine (payload.fill slot text) := by
  have filled : ¬ text.isEmpty := by simpa using nonempty
  cases slot with
  | headers =>
      simp only [fill, if_neg filled]
      exact failsOnly_bind (failsOnly_decodeMembers .headers .headersNotObject trivial text)
        fun _ => failsOnly_ok _
  | query =>
      simp only [fill, if_neg filled]
      exact failsOnly_bind (failsOnly_decodeMembers .query .queryNotObject trivial text)
        fun _ => failsOnly_ok _
  | body =>
      simp only [fill, if_neg filled]
      exact failsOnly_bind (failsOnly_decodeValue .body text) fun _ => failsOnly_ok _

theorem failsOnly_add (payload : Payload) {entry : Section} (filled : entry.Filled) :
    FailsOnly RequestError.InLine (payload.add entry) := by
  refine failsOnly_ite (failsOnly_error trivial) ?_
  cases Slot.ofKeyword? entry.keyword with
  | none => exact failsOnly_error trivial
  | some slot =>
      exact failsOnly_ite (failsOnly_error trivial) (payload.failsOnly_fill slot filled.value)

end Payload

theorem Request.failsOnly_ofSections {sections : Sections} (http : sections.http.keyword = "HTTP")
    (url : sections.url.keyword = "URL") (filled : ∀ entry ∈ sections.toList, entry.Filled) :
    FailsOnly RequestError.InLine (Request.ofSections sections) := by
  have trailing : ∀ payload : Payload, ∀ entry ∈ sections.trailing,
      FailsOnly RequestError.InLine (payload.add entry) :=
    fun payload entry member =>
      payload.failsOnly_add (filled entry (by simp [Sections.toList, member]))
  refine failsOnly_bind
    (Method.failsOnly_ofSection http (filled _ (by simp [Sections.toList]))) fun _ => ?_
  refine failsOnly_bind
    (failsOnly_urlOfSection url (filled _ (by simp [Sections.toList]))) fun _ => ?_
  exact failsOnly_bind (failsOnly_foldlM trailing {}) fun _ => failsOnly_ok _

theorem Request.failsOnly_ofLine (line : String) :
    FailsOnly RequestError.InLine (Request.ofLine line) := by
  apply failsOnly_bind_of_ok (Sections.failsOnly_ofLine line)
  intro sections read
  obtain ⟨http, url⟩ := keywords_of_line read
  exact Request.failsOnly_ofSections http url (filled_of_line read)

end RequestLine
