import Mathlib.Data.List.Basic

/-! Pieces that are joined with one sign between them. -/

namespace RequestLine.Text

variable {sign : Char} {pieces : List (List Char)}

theorem mem_intercalate {c : Char} (member : c ∈ [sign].intercalate pieces) :
    c = sign ∨ ∃ piece ∈ pieces, c ∈ piece := by
  induction pieces with
  | nil => simp [List.intercalate] at member
  | cons piece pieces ih =>
      cases pieces with
      | nil =>
          rw [List.intercalate_singleton] at member
          exact .inr ⟨piece, List.mem_cons_self, member⟩
      | cons next pieces =>
          rw [List.intercalate_cons_cons, List.mem_append, List.mem_append,
            List.mem_singleton] at member
          rcases member with (here | between) | later
          · exact .inr ⟨piece, List.mem_cons_self, here⟩
          · exact .inl between
          · rcases ih later with between | inside
            · exact .inl between
            · obtain ⟨found, among, inner⟩ := inside
              exact .inr ⟨found, List.mem_cons_of_mem _ among, inner⟩

theorem mem_intercalate_of_mem {c : Char} {piece : List Char} (among : piece ∈ pieces)
    (inner : c ∈ piece) : c ∈ [sign].intercalate pieces := by
  induction pieces with
  | nil => cases among
  | cons first pieces ih =>
      cases pieces with
      | nil =>
          rw [List.mem_singleton] at among
          rw [List.intercalate_singleton, ← among]
          exact inner
      | cons next pieces =>
          rw [List.intercalate_cons_cons, List.mem_append, List.mem_append]
          rcases List.mem_cons.mp among with rfl | later
          · exact .inl (.inl inner)
          · exact .inr (ih later)

theorem intercalate_append {left right : List (List Char)} (front : left ≠ []) (back : right ≠ []) :
    [sign].intercalate (left ++ right) =
      [sign].intercalate left ++ sign :: [sign].intercalate right := by
  induction left with
  | nil => contradiction
  | cons piece left ih =>
      rw [List.cons_append, List.intercalate_cons_of_ne_nil (List.append_ne_nil_of_right_ne_nil left back)]
      cases left with
      | nil => simp
      | cons next left =>
          rw [ih (List.cons_ne_nil _ _), List.intercalate_cons_cons]
          simp

/-- The last piece ends the joined text. -/
theorem intercalate_concat (pieces : List (List Char)) (last : List Char) :
    ∃ front, [sign].intercalate (pieces ++ [last]) = front ++ last := by
  induction pieces with
  | nil => exact ⟨[], by simp⟩
  | cons piece pieces ih =>
      obtain ⟨front, joined⟩ := ih
      obtain ⟨next, rest, shape⟩ : ∃ next rest, pieces ++ [last] = next :: rest :=
        List.exists_cons_of_ne_nil (by simp)
      refine ⟨piece ++ [sign] ++ front, ?_⟩
      rw [List.cons_append, shape, List.intercalate_cons_cons, ← shape, joined]
      simp

theorem length_intercalate (sign : Char) (pieces : List (List Char)) :
    ([sign].intercalate pieces).length = pieces.flatten.length + (pieces.length - 1) := by
  induction pieces with
  | nil => rfl
  | cons piece pieces ih =>
      cases pieces with
      | nil => simp
      | cons next pieces =>
          rw [List.intercalate_cons_cons, List.length_append, ih]
          simp
          omega

end RequestLine.Text
