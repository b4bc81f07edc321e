import Mathlib.Data.List.Induction
import RequestLine.Proofs.Except
import RequestLine.Request

/-!
The sections after the URL's.  Reading them one by one, with the slots that are taken kept along,
succeeds exactly if their keywords are known and distinct and each value is fit for its slot; the
payload is then what the sections bring, in whatever order they come.
-/

namespace RequestLine

open Text

theorem Slot.keyword_injective {slot other : Slot} (same : slot.keyword = other.keyword) :
    slot = other := by
  cases slot <;> cases other <;> first | rfl | contradiction

theorem Slot.keyword_of_ofKeyword? {keyword : String} {slot : Slot}
    (known : Slot.ofKeyword? keyword = some slot) : keyword = slot.keyword := by
  unfold Slot.ofKeyword? at known
  split at known
  · obtain rfl := Option.some.inj known
    assumption
  · split at known
    · obtain rfl := Option.some.inj known
      assumption
    · split at known
      · obtain rfl := Option.some.inj known
        assumption
      · contradiction

/-- Only a body can be something other than an object. -/
def Slot.Takes : Slot → Json → Prop
  | .body, _ => True
  | _, value => ∃ members, value = .object members

/-- The section is one of `slot`, and its value is the text of `value`. -/
def Section.Brings (entry : Section) (slot : Slot) (value : Json) : Prop :=
  entry.keyword = slot.keyword ∧ Json.ofText? (trim entry.value.toList) = some value ∧
    slot.Takes value

theorem Section.Brings.same {entry : Section} {slot other : Slot} {value valueOther : Json}
    (brings : entry.Brings slot value) (bringsOther : entry.Brings other valueOther) :
    slot = other ∧ value = valueOther := by
  obtain ⟨keyword, decoded, _⟩ := brings
  obtain ⟨keywordOther, decodedOther, _⟩ := bringsOther
  refine ⟨Slot.keyword_injective (keyword.symm.trans keywordOther), ?_⟩
  rw [decoded] at decodedOther
  exact Option.some.inj decodedOther

namespace Payload

def get? (payload : Payload) : Slot → Option Json
  | .headers => payload.headers.map .object
  | .query => payload.query.map .object
  | .body => payload.body

theorem ext_get? {payload other : Payload}
    (same : ∀ slot, payload.get? slot = other.get? slot) : payload = other := by
  have objects : ∀ {left right : Option Members},
      left.map Json.object = right.map Json.object → left = right := by
    intro left right equal
    exact Option.map_injective (fun _ _ => Json.object.inj) equal
  obtain ⟨headers, query, body⟩ := payload
  obtain ⟨headersOther, queryOther, bodyOther⟩ := other
  obtain rfl : headers = headersOther := objects (same .headers)
  obtain rfl : query = queryOther := objects (same .query)
  obtain rfl : body = bodyOther := same .body
  rfl

theorem has_eq_false_iff {payload : Payload} {slot : Slot} :
    payload.has slot = false ↔ payload.get? slot = none := by
  cases slot <;> simp [has, get?]

/-- `next` is `payload` with `value` in `slot`. -/
def Puts (payload : Payload) (slot : Slot) (value : Json) (next : Payload) : Prop :=
  next.get? slot = some value ∧ ∀ other, other ≠ slot → next.get? other = payload.get? other

theorem Puts.unique {payload next other : Payload} {slot : Slot} {value : Json}
    (puts : payload.Puts slot value next) (putsOther : payload.Puts slot value other) :
    next = other := by
  apply ext_get?
  intro place
  by_cases here : place = slot
  · rw [here, puts.1, putsOther.1]
  · rw [puts.2 place here, putsOther.2 place here]

theorem puts_headers (payload : Payload) (members : Members) :
    payload.Puts .headers (.object members) { payload with headers := some members } := by
  refine ⟨rfl, ?_⟩
  intro other different
  cases other <;> first | rfl | contradiction

theorem puts_query (payload : Payload) (members : Members) :
    payload.Puts .query (.object members) { payload with query := some members } := by
  refine ⟨rfl, ?_⟩
  intro other different
  cases other <;> first | rfl | contradiction

theorem puts_body (payload : Payload) (value : Json) :
    payload.Puts .body value { payload with body := some value } := by
  refine ⟨rfl, ?_⟩
  intro other different
  cases other <;> first | rfl | contradiction

theorem exists_puts (payload : Payload) {slot : Slot} {value : Json} (fit : slot.Takes value) :
    ∃ next, payload.Puts slot value next := by
  cases slot with
  | headers =>
      obtain ⟨members, rfl⟩ := fit
      exact ⟨_, payload.puts_headers members⟩
  | query =>
      obtain ⟨members, rfl⟩ := fit
      exact ⟨_, payload.puts_query members⟩
  | body => exact ⟨_, payload.puts_body value⟩

theorem decodeValue_eq_ok_iff {slot : Slot} {text : List Char} {value : Json} :
    decodeValue slot text = .ok value ↔ Json.ofText? text = some value := by
  unfold decodeValue
  cases Json.ofText? text <;> simp

theorem decodeMembers_eq_ok_iff {slot : Slot} {notObject : RequestError} {text : List Char}
    {members : Members} :
    decodeMembers slot notObject text = .ok members ↔
      Json.ofText? text = some (.object members) := by
  unfold decodeMembers
  rw [bind_eq_ok_iff]
  apply Iff.intro
  · intro accepted
    obtain ⟨value, decoded, object⟩ := accepted
    cases value <;> first | contradiction | skip
    rw [decodeValue_eq_ok_iff] at decoded
    rw [decoded, Except.ok.inj object]
  · intro decoded
    exact ⟨_, decodeValue_eq_ok_iff.mpr decoded, rfl⟩

theorem ofText?_nil : Json.ofText? [] = none := rfl

theorem members_put_iff {payload next : Payload} {slot : Slot} {notObject : RequestError}
    {text : List Char} {place : Members → Payload}
    (objects : ∀ value, slot.Takes value ↔ ∃ members, value = .object members)
    (puts : ∀ members, payload.Puts slot (.object members) (place members)) :
    (do return place (← decodeMembers slot notObject text)) = .ok next ↔
      ∃ value, Json.ofText? text = some value ∧ slot.Takes value ∧
        payload.Puts slot value next := by
  simp only [bind_eq_ok_iff, decodeMembers_eq_ok_iff, objects]
  apply Iff.intro
  · intro accepted
    obtain ⟨members, decoded, same⟩ := accepted
    obtain rfl := Except.ok.inj same
    exact ⟨_, decoded, ⟨members, rfl⟩, puts members⟩
  · intro accepted
    obtain ⟨value, decoded, ⟨members, rfl⟩, placed⟩ := accepted
    obtain rfl := placed.unique (puts members)
    exact ⟨members, decoded, rfl⟩

theorem fill_eq_ok_iff {payload next : Payload} {slot : Slot} {text : List Char} :
    payload.fill slot text = .ok next ↔
      ∃ value, Json.ofText? text = some value ∧ slot.Takes value ∧
        payload.Puts slot value next := by
  by_cases empty : text = []
  · subst empty
    simp only [ofText?_nil]
    cases slot <;> simp [fill]
  · have some : text.isEmpty = false := by simpa using empty
    cases slot with
    | headers =>
        simp only [fill, some, Bool.false_eq_true, if_false]
        exact members_put_iff (fun _ => Iff.rfl) payload.puts_headers
    | query =>
        simp only [fill, some, Bool.false_eq_true, if_false]
        exact members_put_iff (fun _ => Iff.rfl) payload.puts_query
    | body =>
        simp only [fill, some, Bool.false_eq_true, if_false, bind_eq_ok_iff,
          decodeValue_eq_ok_iff]
        apply Iff.intro
        · intro accepted
          obtain ⟨value, decoded, same⟩ := accepted
          obtain rfl := Except.ok.inj same
          exact ⟨value, decoded, trivial, payload.puts_body value⟩
        · intro accepted
          obtain ⟨value, decoded, _, placed⟩ := accepted
          obtain rfl := placed.unique (payload.puts_body value)
          exact ⟨value, decoded, rfl⟩

/-- One step of the reading: the section brings a value to a slot that was free. -/
theorem add_eq_ok_iff {payload next : Payload} {entry : Section} :
    payload.add entry = .ok next ↔
      ∃ slot value, entry.Brings slot value ∧ payload.get? slot = none ∧
        payload.Puts slot value next := by
  unfold add
  apply Iff.intro
  · intro accepted
    split at accepted
    · contradiction
    · cases known : Slot.ofKeyword? entry.keyword with
      | none => simp [known] at accepted
      | some slot =>
          have keyword := Slot.keyword_of_ofKeyword? known
          simp only [known] at accepted
          cases taken : payload.has slot with
          | true => simp [taken] at accepted
          | false =>
              rw [taken, if_neg Bool.false_ne_true] at accepted
              obtain ⟨value, decoded, fit, puts⟩ := fill_eq_ok_iff.mp accepted
              exact ⟨slot, value, ⟨keyword, decoded, fit⟩, has_eq_false_iff.mp taken, puts⟩
  · intro accepted
    obtain ⟨slot, value, ⟨keyword, decoded, fit⟩, free, puts⟩ := accepted
    have upper : isUpperCase entry.keyword.toList = true := by
      rw [keyword]
      cases slot <;> decide
    rw [upper, keyword, Slot.ofKeyword?_keyword]
    dsimp only
    rw [has_eq_false_iff.mpr free]
    exact fill_eq_ok_iff.mpr ⟨value, decoded, fit, puts⟩

/-- A payload of exactly what the sections bring, each of them to a slot of its own. -/
structure OfEntries (entries : List Section) (payload : Payload) : Prop where
  distinct : (entries.map Section.keyword).Nodup
  fit : ∀ entry ∈ entries, ∃ slot value, entry.Brings slot value
  holds : ∀ slot value,
    payload.get? slot = some value ↔ ∃ entry ∈ entries, entry.Brings slot value

theorem OfEntries.unique {entries : List Section} {payload other : Payload}
    (held : OfEntries entries payload) (heldOther : OfEntries entries other) :
    payload = other := by
  apply ext_get?
  intro slot
  apply Option.ext
  intro value
  rw [held.holds, heldOther.holds]

theorem OfEntries.perm {entries reordered : List Section} {payload : Payload}
    (held : OfEntries entries payload) (same : reordered.Perm entries) :
    OfEntries reordered payload where
  distinct := (same.map Section.keyword).nodup_iff.mpr held.distinct
  fit entry member := held.fit entry (same.mem_iff.mp member)
  holds slot value := by
    rw [held.holds]
    simp only [same.mem_iff]

theorem OfEntries.add {entries : List Section} {payload next : Payload} {entry : Section}
    (held : OfEntries entries payload) (added : payload.add entry = .ok next) :
    OfEntries (entries ++ [entry]) next := by
  obtain ⟨slot, value, brings, free, puts⟩ := add_eq_ok_iff.mp added
  have fresh : ∀ earlier ∈ entries, ∀ old, ¬ earlier.Brings slot old := by
    intro earlier member old earlierBrings
    have taken := (held.holds slot old).mpr ⟨earlier, member, earlierBrings⟩
    rw [free] at taken
    contradiction
  refine ⟨?_, ?_, ?_⟩
  · rw [List.map_append, List.nodup_append]
    refine ⟨held.distinct, by simp, ?_⟩
    intro keyword member new newMember same
    obtain rfl : new = entry.keyword := by simpa using newMember
    subst same
    obtain ⟨earlier, earlierMember, keyword⟩ := List.mem_map.mp member
    obtain ⟨place, old, earlierBrings⟩ := held.fit earlier earlierMember
    obtain rfl : place = slot := by
      apply Slot.keyword_injective
      rw [← earlierBrings.1, keyword, brings.1]
    exact fresh earlier earlierMember old earlierBrings
  · intro earlier member
    rcases List.mem_append.mp member with earlierMember | last
    · exact held.fit earlier earlierMember
    · obtain rfl : earlier = entry := by simpa using last
      exact ⟨slot, value, brings⟩
  · intro place found
    by_cases here : place = slot
    · subst here
      rw [puts.1]
      apply Iff.intro
      · intro same
        obtain rfl := Option.some.inj same
        exact ⟨entry, by simp, brings⟩
      · intro brought
        obtain ⟨earlier, member, earlierBrings⟩ := brought
        rcases List.mem_append.mp member with earlierMember | last
        · exact absurd earlierBrings (fresh earlier earlierMember found)
        · obtain rfl : earlier = entry := by simpa using last
          rw [(brings.same earlierBrings).2]
    · rw [puts.2 place here, held.holds]
      apply Iff.intro
      · intro brought
        obtain ⟨earlier, member, earlierBrings⟩ := brought
        exact ⟨earlier, by simp [member], earlierBrings⟩
      · intro brought
        obtain ⟨earlier, member, earlierBrings⟩ := brought
        rcases List.mem_append.mp member with earlierMember | last
        · exact ⟨earlier, earlierMember, earlierBrings⟩
        · obtain rfl : earlier = entry := by simpa using last
          exact absurd (earlierBrings.same brings).1 here

theorem ofSections_concat (entries : List Section) (entry : Section) :
    ofSections (entries ++ [entry]) = ofSections entries >>= fun payload => payload.add entry := by
  simp [ofSections]

theorem ofSections_sound {entries : List Section} {payload : Payload}
    (read : ofSections entries = .ok payload) : OfEntries entries payload := by
  induction entries using List.reverseRecOn generalizing payload with
  | nil =>
      obtain rfl : {} = payload := Except.ok.inj read
      refine ⟨.nil, by simp, ?_⟩
      intro slot value
      cases slot <;> simp [get?]
  | append_singleton entries entry ih =>
      rw [ofSections_concat, bind_eq_ok_iff] at read
      obtain ⟨before, earlier, added⟩ := read
      exact (ih earlier).add added

theorem ofSections_complete {entries : List Section}
    (distinct : (entries.map Section.keyword).Nodup)
    (fit : ∀ entry ∈ entries, ∃ slot value, entry.Brings slot value) :
    ∃ payload, ofSections entries = .ok payload := by
  induction entries using List.reverseRecOn with
  | nil => exact ⟨{}, rfl⟩
  | append_singleton entries entry ih =>
      rw [List.map_append, List.nodup_append] at distinct
      obtain ⟨earlierDistinct, _, apart⟩ := distinct
      obtain ⟨payload, read⟩ :=
        ih earlierDistinct (fun earlier member => fit earlier (by simp [member]))
      obtain ⟨slot, value, brings⟩ := fit entry (by simp)
      have free : payload.get? slot = none := by
        cases taken : payload.get? slot with
        | none => rfl
        | some old =>
            obtain ⟨earlier, member, earlierBrings⟩ :=
              ((ofSections_sound read).holds slot old).mp taken
            refine absurd ?_ (apart earlier.keyword (List.mem_map_of_mem member)
              entry.keyword (by simp))
            rw [earlierBrings.1, brings.1]
      obtain ⟨next, puts⟩ := payload.exists_puts brings.2.2
      refine ⟨next, ?_⟩
      rw [ofSections_concat, read]
      exact add_eq_ok_iff.mpr ⟨slot, value, brings, free, puts⟩

theorem ofSections_eq_ok_iff {entries : List Section} {payload : Payload} :
    ofSections entries = .ok payload ↔ OfEntries entries payload := by
  apply Iff.intro
  · exact ofSections_sound
  · intro held
    obtain ⟨other, read⟩ := ofSections_complete held.distinct held.fit
    rw [read, held.unique (ofSections_sound read)]

end Payload
end RequestLine
