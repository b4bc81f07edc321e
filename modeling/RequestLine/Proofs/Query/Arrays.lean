import RequestLine.Proofs.Text.Joining
import RequestLine.Query

/-!
The texts of arrays.  An array is its items with commas between them, and so are the arrays in it: what
shows is the leaves from left to right, however they are nested.
-/

namespace RequestLine.Json

open Text

/-- The text of an item of an array. -/
def itemText : Json → List Char
  | .null => []
  | item => item.queryText

theorem itemTexts_eq_map (items : List Json) : itemTexts items = items.map itemText := by
  induction items with
  | nil => rfl
  | cons item rest ih => cases item <;> simp only [itemTexts, itemText, List.map_cons, ih]

theorem queryText_array (items : List Json) :
    (Json.array items).queryText = [','].intercalate (items.map itemText) := by
  rw [← itemTexts_eq_map]
  rfl

mutual

/-- What a value comes down to once the arrays in it are expanded.  An array without items leaves
null. -/
def leaves : Json → List Json
  | .array [] => [.null]
  | .array (item :: rest) => item.leaves ++ leavesOfItems rest
  | value => [value]

def leavesOfItems : List Json → List Json
  | [] => []
  | item :: rest => item.leaves ++ leavesOfItems rest

end

/-- Null is empty, an object does not show its members, and any other leaf has its own text. -/
def leafText : Json → List Char
  | .null => []
  | .object _ => "[object Object]".toList
  | leaf => leaf.queryText

theorem leaves_ne_nil (value : Json) : value.leaves ≠ [] := by
  cases value with
  | array items =>
      cases items with
      | nil => simp [leaves]
      | cons item rest =>
          rw [leaves]
          exact List.append_ne_nil_of_left_ne_nil item.leaves_ne_nil _
  | null | bool | integer | real | string | object => exact List.cons_ne_nil _ _

theorem leavesOfItems_ne_nil (item : Json) (rest : List Json) :
    leavesOfItems (item :: rest) ≠ [] := by
  rw [leavesOfItems]
  exact List.append_ne_nil_of_left_ne_nil item.leaves_ne_nil _

mutual

/-- No array is left. -/
theorem not_array_of_mem_leaves {value leaf : Json} (member : leaf ∈ value.leaves) (items : List Json) :
    leaf ≠ .array items := by
  cases value with
  | array inner =>
      cases inner with
      | nil =>
          rw [leaves, List.mem_singleton] at member
          simp [member]
      | cons item rest =>
          rw [leaves, List.mem_append] at member
          rcases member with here | later
          · exact not_array_of_mem_leaves here items
          · exact not_array_of_mem_leavesOfItems later items
  | null | bool | integer | real | string | object =>
      rw [List.mem_singleton.mp member]
      simp

theorem not_array_of_mem_leavesOfItems {values : List Json} {leaf : Json}
    (member : leaf ∈ leavesOfItems values) (items : List Json) : leaf ≠ .array items := by
  cases values with
  | nil => cases member
  | cons value rest =>
      rw [leavesOfItems, List.mem_append] at member
      rcases member with here | later
      · exact not_array_of_mem_leaves here items
      · exact not_array_of_mem_leavesOfItems later items

end

theorem itemText_of_alone {item : Json} (alone : item.leaves = [item])
    (text : item.itemText = item.leafText) :
    item.itemText = [','].intercalate (item.leaves.map leafText) := by
  rw [alone, List.map_singleton, List.intercalate_singleton, text]

/-- Items that show their leaves show them between the same commas. -/
theorem intercalate_itemText_cons {item : Json} {rest : List Json}
    (first : item.itemText = [','].intercalate (item.leaves.map leafText))
    (others : [','].intercalate (rest.map itemText) =
      [','].intercalate ((leavesOfItems rest).map leafText)) :
    [','].intercalate ((item :: rest).map itemText) =
      [','].intercalate ((item.leaves ++ leavesOfItems rest).map leafText) := by
  cases rest with
  | nil => simp [leavesOfItems, first]
  | cons next rest =>
      have here : item.leaves.map leafText ≠ [] := by simp [leaves_ne_nil]
      have later : (leavesOfItems (next :: rest)).map leafText ≠ [] := by
        simp [leavesOfItems_ne_nil]
      rw [List.map_append, intercalate_append here later, ← first, ← others, List.map_cons,
        List.intercalate_cons_of_ne_nil (by simp)]
      simp

mutual

theorem itemText_eq_leaves (item : Json) :
    item.itemText = [','].intercalate (item.leaves.map leafText) := by
  cases item with
  | array items =>
      cases items with
      | nil => rfl
      | cons item rest =>
          have text : itemText (.array (item :: rest)) = (Json.array (item :: rest)).queryText := rfl
          rw [text, queryText_array, leaves]
          exact intercalate_itemText_cons (itemText_eq_leaves item) (itemTexts_eq_leaves rest)
  | null => exact itemText_of_alone rfl rfl
  | bool value => exact itemText_of_alone rfl rfl
  | integer value => exact itemText_of_alone rfl rfl
  | real value => exact itemText_of_alone rfl rfl
  | string text => exact itemText_of_alone rfl rfl
  | object members => exact itemText_of_alone rfl rfl

theorem itemTexts_eq_leaves (items : List Json) :
    [','].intercalate (items.map itemText) =
      [','].intercalate ((leavesOfItems items).map leafText) := by
  cases items with
  | nil => rfl
  | cons item rest =>
      rw [leavesOfItems]
      exact intercalate_itemText_cons (itemText_eq_leaves item) (itemTexts_eq_leaves rest)

end

/-- The text of an array is that of its leaves, of which none is an array, with commas between them. -/
theorem queryText_array_eq_leaves (items : List Json) :
    (Json.array items).queryText = [','].intercalate ((Json.array items).leaves.map leafText) ∧
      ∀ leaf ∈ (Json.array items).leaves, ∀ inner, leaf ≠ .array inner :=
  ⟨itemText_eq_leaves (.array items), fun _ member inner => not_array_of_mem_leaves member inner⟩

example :
    (Json.array [.array [.null, .array []], .array [.array [.string "a,b"]], .object []]).queryText =
      ",,a,b,[object Object]".toList := by
  decide

end RequestLine.Json
