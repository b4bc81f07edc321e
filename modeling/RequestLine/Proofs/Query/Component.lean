import RequestLine.Proofs.Query.Pairs
import RequestLine.Proofs.Request.Address

/-!
The query component of a URL, as RFC 3986 delimits it, and what a query adds to it.  A URL is not
parsed when a query is appended: what is added goes to the end of the text, which is the end of the
component only if the URL has no fragment.
-/

namespace RequestLine

open Text

/-- The text after the first question mark, up to the fragment.  A question mark in the fragment does
not count. -/
def queryComponent? (url : String) : Option (List Char) :=
  match (url.toList.takeWhile (· != '#')).dropWhile (· != '?') with
  | [] => none
  | _ :: component => some component

/-- The entries of the query component; what is no pair of a key and an encoded text has none. -/
def queryEntries (url : String) : List (Option (String × String)) :=
  match queryComponent? url with
  | none => []
  | some component => (component.splitOn '&').map queryPair?

def IsPlainKey (key : String) : Prop :=
  ∀ c ∈ key.toList, c.isAlphanum = true ∨ c ∈ ['-', '_', '.', '~']

instance (key : String) : Decidable (IsPlainKey key) :=
  List.decidableBAll _ key.toList

theorem IsPlainKey.not_mem {key : String} (plain : IsPlainKey key) {c : Char}
    (other : c.isAlphanum = false) (sign : c ∉ ['-', '_', '.', '~']) : c ∉ key.toList := by
  intro member
  rcases plain c member with alphanumeric | mark
  · rw [other] at alphanumeric
    contradiction
  · exact sign mark

theorem queryComponent?_of_unmarked {url : String} (unmarked : '?' ∉ url.toList) :
    queryComponent? url = none := by
  have absent : '?' ∉ url.toList.takeWhile (· != '#') :=
    fun member => unmarked ((List.takeWhile_prefix _).mem member)
  rw [queryComponent?, List.dropWhile_eq_nil_iff.mpr (ne_of_absent absent)]

theorem queryComponent?_of_marked {url : String} {front component : List Char}
    (cut : url.toList = front ++ '?' :: component) (first : '?' ∉ front) (whole : '#' ∉ url.toList) :
    queryComponent? url = some component := by
  rw [queryComponent?, takeWhile_of_absent whole, cut, dropWhile_before_sign first]

/-- Behind a fragment nothing more belongs to the query component. -/
theorem queryComponent?_of_fragment {url longer : String} (fragment : '#' ∈ url.toList)
    (leads : url.toList <+: longer.toList) : queryComponent? longer = queryComponent? url := by
  obtain ⟨before, after, cut, first⟩ := List.eq_append_cons_of_mem fragment
  obtain ⟨more, joined⟩ := leads
  have longerCut : longer.toList = before ++ '#' :: (after ++ more) := by simp [← joined, cut]
  rw [queryComponent?, queryComponent?, cut, longerCut, takeWhile_before_sign first,
    takeWhile_before_sign first]

theorem queryEntries_of_some {url : String} {component : List Char}
    (found : queryComponent? url = some component) :
    queryEntries url = (component.splitOn '&').map queryPair? := by
  rw [queryEntries, found]

theorem entries_encodeQuery {query : Members} (nonempty : query ≠ [])
    (keys : ∀ pair ∈ query, IsPlainKey pair.1) :
    ((encodeQuery query).toList.splitOn '&').map queryPair? =
      query.map fun pair => some (pair.1, String.ofList pair.2.queryText) := by
  have apart : ∀ pair ∈ query, '&' ∉ pair.1.toList :=
    fun pair member => (keys pair member).not_mem rfl (by decide)
  rw [splitOn_encodeQuery nonempty apart, List.map_map]
  apply List.map_congr_left
  intro pair member
  exact queryPair?_pairText ((keys pair member).not_mem rfl (by decide))

theorem queryEntries_appendQuery {url : String} {query : Members} (whole : '#' ∉ url.toList)
    (keys : ∀ pair ∈ query, IsPlainKey pair.1) :
    queryEntries (appendQuery url query) =
      queryEntries url ++ query.map fun pair => some (pair.1, String.ofList pair.2.queryText) := by
  by_cases empty : query = []
  · rw [empty, appendQuery_nil]
    simp
  · have wholeLater : '#' ∉ (appendQuery url query).toList := by
      rw [mem_appendQuery_iff rfl (by decide)]
      rintro (inUrl | ⟨pair, member, inKey⟩)
      · exact whole inUrl
      · exact (keys pair member).not_mem rfl (by decide) inKey
    have joined := congrArg String.toList (appendQuery_of_ne_nil empty url)
    by_cases marked : '?' ∈ url.toList
    · obtain ⟨front, component, cut, first⟩ := List.eq_append_cons_of_mem marked
      rw [if_pos marked, String.toList_append, String.toList_append, cut] at joined
      have longer : (appendQuery url query).toList =
          front ++ '?' :: (component ++ '&' :: (encodeQuery query).toList) := by simp [joined]
      rw [queryEntries_of_some (queryComponent?_of_marked longer first wholeLater),
        queryEntries_of_some (queryComponent?_of_marked cut first whole),
        List.splitOn_append_cons_self, List.map_append, entries_encodeQuery empty keys]
    · rw [if_neg marked, String.toList_append, String.toList_append] at joined
      have longer : (appendQuery url query).toList =
          url.toList ++ '?' :: (encodeQuery query).toList := by simp [joined]
      rw [queryEntries_of_some (queryComponent?_of_marked longer marked wholeLater),
        entries_encodeQuery empty keys, queryEntries, queryComponent?_of_unmarked marked,
        List.nil_append]

end RequestLine
