import RequestLine.Proofs.Except
import RequestLine.Proofs.Json.Lexeme
import RequestLine.Proofs.Json.Values

/-! Plain values that embed no text are read back from what is written of them. -/

namespace RequestLine.Json

/-- The reader takes the piece for the entry, whatever delimiter follows. -/
def TakenFor {α : Type} (reader : Reader α) (piece : List Char) (entry : α) : Prop :=
  ∀ rest, Delimited rest → reader (piece ++ rest) = .ok (entry, rest)

/-- The piece begins with a sign of its own. -/
def Opens (piece : List Char) : Prop :=
  ∃ first others, piece = first :: others ∧ isSpace first = false ∧ first ≠ ']' ∧ first ≠ '}'

theorem skipSpace_cons {first : Char} (sign : isSpace first = false) (others : List Char) :
    skipSpace (first :: others) = first :: others := by
  simp [skipSpace, sign]

section Entries

variable {α : Type} {reader : Reader α} {pieces : List (List Char)} {found : List α}

theorem entriesWithin_intercalate {close : Char} (bracket : close = ']' ∨ close = '}')
    (taken : List.Forall₂ (TakenFor reader) pieces found) (nonempty : pieces ≠ [])
    (rest : List Char) :
    ∀ limit, pieces.length ≤ limit →
      entriesWithin close reader limit ([','].intercalate pieces ++ close :: rest) =
        .ok (found, rest) := by
  have sign : isSpace close = false := by rcases bracket with rfl | rfl <;> rfl
  have comma : ¬ ',' = close := by rcases bracket with rfl | rfl <;> decide
  induction taken with
  | nil => contradiction
  | @cons piece entry pieces found first others ih =>
      intro limit bound
      obtain ⟨limit, rfl⟩ : ∃ less, limit = less + 1 := ⟨limit - 1, by simp at bound; omega⟩
      cases others with
      | nil =>
          -- The last entry is followed by the bracket, any other by a comma.
          have read := first (close :: rest) (delimited_cons (.inr bracket) rest)
          simp [entriesWithin, List.intercalate, read, skipSpace_cons sign, pure, Except.pure]
      | @cons next _ others _ _ _ =>
          have shape : [','].intercalate (piece :: next :: others) ++ close :: rest =
              piece ++ ',' :: ([','].intercalate (next :: others) ++ close :: rest) := by
            simp [List.intercalate]
          have read := first (',' :: ([','].intercalate (next :: others) ++ close :: rest))
            (delimited_cons (.inl rfl) _)
          have following := ih (by simp) limit (by simpa using bound)
          rw [shape, entriesWithin, read]
          simp [skipSpace_cons (show isSpace ',' = false from rfl), comma, following, pure,
            Except.pure]

theorem length_le_intercalate (opens : ∀ piece ∈ pieces, Opens piece) :
    pieces.length ≤ ([','].intercalate pieces).length := by
  induction pieces with
  | nil => simp
  | cons piece pieces ih =>
      obtain ⟨first, others, rfl, _⟩ := opens piece (by simp)
      have following := ih (fun piece member => opens piece (List.mem_cons_of_mem _ member))
      cases pieces with
      | nil => simp
      | cons next pieces =>
          simp only [List.intercalate, List.intersperse_cons_cons, List.flatten_cons,
            List.length_append, List.length_cons] at following ⊢
          omega

theorem entries_intercalate {close : Char} (bracket : close = ']' ∨ close = '}')
    (taken : List.Forall₂ (TakenFor reader) pieces found)
    (opens : ∀ piece ∈ pieces, Opens piece) (rest : List Char) :
    entries close reader ([','].intercalate pieces ++ close :: rest) = .ok (found, rest) := by
  cases taken with
  | nil =>
      have sign : isSpace close = false := by rcases bracket with rfl | rfl <;> rfl
      simp [entries, List.intercalate, skipSpace_cons sign]
  | @cons piece entry pieces found first others =>
      have length := length_le_intercalate opens
      have within := entriesWithin_intercalate bracket (.cons first others) (by simp) rest
        ([','].intercalate (piece :: pieces) ++ close :: rest).length
        (by rw [List.length_append]; omega)
      obtain ⟨c, behind, shape, sign, square, curly⟩ := opens piece (by simp)
      obtain ⟨tail, whole⟩ : ∃ tail,
          [','].intercalate (piece :: pieces) ++ close :: rest = c :: tail := by
        cases pieces with
        | nil => exact ⟨behind ++ close :: rest, by simp [List.intercalate, shape]⟩
        | cons next pieces =>
            exact ⟨behind ++ ',' :: ([','].intercalate (next :: pieces) ++ close :: rest),
              by simp [List.intercalate, shape]⟩
      have content : c ≠ close := by rcases bracket with rfl | rfl <;> assumption
      rw [whole] at within ⊢
      simp only [entries, skipSpace_cons sign, content, if_false, within]

end Entries

section Written

variable {escape : Char → List Char}

theorem writeItems_eq_map (items : List Json) :
    writeItems escape items = items.map (writeWith escape) := by
  induction items with
  | nil => rfl
  | cons item rest ih => rw [writeItems, ih, List.map_cons]

/-- The text of a member. -/
def memberText (escape : Char → List Char) (member : String × Json) : List Char :=
  writeString escape member.1 ++ ':' :: writeWith escape member.2

theorem writeMembers_eq_map (members : List (String × Json)) :
    writeMembers escape members = members.map (memberText escape) := by
  induction members with
  | nil => rfl
  | cons member rest ih => rw [writeMembers, ih, List.map_cons, memberText]

/-- An integer begins with a digit or with the sign of the negative ones. -/
theorem integerText_cons (n : Int) :
    ∃ first others, integerText n = first :: others ∧ (first = '-' ∨ first.isDigit = true) := by
  by_cases negative : n < 0
  · exact ⟨'-', Nat.toDigits 10 n.natAbs, by simp [integerText, negative], .inl rfl⟩
  · cases digits : Nat.toDigits 10 n.natAbs with
    | nil => exact absurd digits Nat.toDigits_ne_nil
    | cons first others =>
        refine ⟨first, others, by simp [integerText, negative, digits], .inr ?_⟩
        apply Numeral.isDigit_toDigits (n := n.natAbs)
        simp [digits]

theorem scalar?_integerText {n : Int} (bounds : Numeral.InRange n) :
    TakenFor (ofLexeme scalar?) (integerText n) (.integer n) := by
  intro rest delimited
  obtain ⟨first, others, shape, sign⟩ := integerText_cons n
  have read := Numeral.read?_integerText n delimited
  have numeral : scalar? (integerText n ++ rest) = some (.integer n, rest) := by
    rw [shape] at read ⊢
    rw [List.cons_append, scalar?]
    · rw [List.cons_append] at read
      simp [read, Numeral.value?_ofInt bounds]
    all_goals
      intro _ literal
      rw [(List.cons.inj literal).1] at sign
      simp at sign
  simp [ofLexeme, numeral]

theorem scalar?_writeString (reversible : Reversible escape) (text : String) (rest : List Char) :
    ofLexeme scalar? (writeString escape text ++ rest) = .ok (.string text, rest) := by
  simp [ofLexeme, scalar?, writeString, string?_flatMap reversible]

theorem valueWithin_scalar (embedded : List Char → Except Fault Json) (depth : Nat) {first : Char}
    (sign : isSpace first = false) (square : first ≠ '[') (curly : first ≠ '{')
    (others : List Char) :
    valueWithin embedded depth (first :: others) = ofLexeme scalar? (first :: others) := by
  cases depth with
  | zero => rw [valueWithin, skipSpace_cons sign]
  | succ depth =>
      rw [valueWithin, skipSpace_cons sign]
      split
      · rename_i literal
        exact absurd (List.cons.inj literal).1 square
      · rename_i literal
        exact absurd (List.cons.inj literal).1 curly
      · rfl

theorem Plain.opens {value : Json} (plain : Plain value) : Opens (writeWith escape value) := by
  cases plain with
  | null => exact ⟨'n', ['u', 'l', 'l'], rfl, rfl, by decide, by decide⟩
  | bool value =>
      cases value with
      | true => exact ⟨'t', ['r', 'u', 'e'], rfl, rfl, by decide, by decide⟩
      | false => exact ⟨'f', ['a', 'l', 's', 'e'], rfl, rfl, by decide, by decide⟩
  | @integer value _ =>
      obtain ⟨first, others, shape, sign⟩ := integerText_cons value
      refine ⟨first, others, by rw [writeWith, shape], ?_, ?_, ?_⟩
      · rcases sign with rfl | digit
        · rfl
        · simp only [isSpace, Bool.or_eq_false_iff, beq_eq_false_iff_ne]
          refine ⟨⟨⟨?_, ?_⟩, ?_⟩, ?_⟩
          all_goals
            intro same
            rw [same] at digit
            cases digit
      · intro same
        rw [same] at sign
        simp at sign
      · intro same
        rw [same] at sign
        simp at sign
  | string text =>
      exact ⟨'"', text.toList.flatMap escape ++ ['"'], by simp [writeWith, writeString], rfl,
        by decide, by decide⟩
  | @array items _ =>
      exact ⟨'[', [','].intercalate (writeItems escape items) ++ [']'], by simp [writeWith], rfl,
        by decide, by decide⟩
  | @object members _ _ =>
      exact ⟨'{', [','].intercalate (writeMembers escape members) ++ ['}'],
        by simp [writeWith], rfl, by decide, by decide⟩

theorem opens_memberText (member : String × Json) : Opens (memberText escape member) :=
  ⟨'"', member.1.toList.flatMap escape ++ '"' :: ':' :: writeWith escape member.2,
    by simp [memberText, writeString], rfl, by decide, by decide⟩

theorem key?_memberText (reversible : Reversible escape) (member : String × Json)
    (rest : List Char) :
    key? (memberText escape member ++ rest) =
      some (member.1, writeWith escape member.2 ++ rest) := by
  simp [key?, memberText, writeString, skipSpace_cons (show isSpace '"' = false from rfl),
    skipSpace_cons (show isSpace ':' = false from rfl), string?_flatMap reversible]

theorem memberWith_memberText (reversible : Reversible escape) {reader : Reader Json}
    {member : String × Json} (taken : TakenFor reader (writeWith escape member.2) member.2) :
    TakenFor (memberWith reader) (memberText escape member) member := by
  intro rest delimited
  simp [memberWith, ofLexeme, key?_memberText reversible, taken rest delimited, pure, Except.pure]

theorem objectWith_writeMembers (reversible : Reversible escape)
    (embedded : List Char → Except Fault Json) {reader : Reader Json}
    {members : List (String × Json)} (distinct : (members.map Prod.fst).Nodup)
    (leads : members.head?.map Prod.fst ≠ some embeddingKey)
    (taken : ∀ member ∈ members, TakenFor reader (writeWith escape member.2) member.2)
    (rest : List Char) :
    objectWith embedded reader ([','].intercalate (writeMembers escape members) ++ '}' :: rest) =
      .ok (.object members, rest) := by
  have pieces : List.Forall₂ (TakenFor (memberWith reader)) (members.map (memberText escape))
      members := by
    rw [List.forall₂_map_left_iff, List.forall₂_same]
    intro member inside
    exact memberWith_memberText reversible (taken member inside)
  have opens : ∀ piece ∈ members.map (memberText escape), Opens piece := by
    intro piece inside
    obtain ⟨member, _, rfl⟩ := List.mem_map.mp inside
    exact opens_memberText member
  have read : membersWith reader ([','].intercalate (writeMembers escape members) ++ '}' :: rest) =
      .ok (.object members, rest) := by
    rw [membersWith, writeMembers_eq_map, entries_intercalate (.inr rfl) pieces opens]
    simp [Members.ofPairs_of_nodup distinct, pure, Except.pure]
  rw [objectWith, read]
  cases members with
  | nil => rfl
  | cons member others =>
      have other : member.1 ≠ embeddingKey := by simpa using leads
      have key : ∃ behind,
          key? ([','].intercalate (writeMembers escape (member :: others)) ++ '}' :: rest) =
            some (member.1, behind) := by
        rw [writeMembers_eq_map]
        cases others with
        | nil => exact ⟨_, by simpa [List.intercalate] using key?_memberText reversible member _⟩
        | cons next others =>
            exact ⟨_, by simpa [List.intercalate] using key?_memberText reversible member _⟩
      obtain ⟨behind, key⟩ := key
      simp [key, other]

theorem valueWithin_integerText (embedded : List Char → Except Fault Json) (depth : Nat) {n : Int}
    (bounds : Numeral.InRange n) :
    TakenFor (valueWithin embedded depth) (integerText n) (.integer n) := by
  intro rest delimited
  have opens : Opens (writeWith escape (.integer n)) := (Plain.integer bounds).opens
  obtain ⟨first, others, shape, sign, _⟩ := opens
  obtain ⟨c, digits, text, digit⟩ := integerText_cons n
  have read := scalar?_integerText bounds rest delimited
  rw [writeWith] at shape
  rw [text] at shape read ⊢
  cases shape
  rw [List.cons_append, valueWithin_scalar embedded depth sign]
  · exact read
  · intro same
    rw [same] at digit
    simp at digit
  · intro same
    rw [same] at digit
    simp at digit

theorem valueWithin_array (embedded : List Char → Except Fault Json) {depth : Nat}
    {items : List Json} (plain : ∀ item ∈ items, Plain item)
    (taken : ∀ item ∈ items, TakenFor (valueWithin embedded depth) (writeWith escape item) item) :
    TakenFor (valueWithin embedded (depth + 1)) (writeWith escape (.array items))
      (.array items) := by
  intro rest _
  have pieces : List.Forall₂ (TakenFor (valueWithin embedded depth))
      (items.map (writeWith escape)) items := by
    rw [List.forall₂_map_left_iff, List.forall₂_same]
    exact taken
  have opens : ∀ piece ∈ items.map (writeWith escape), Opens piece := by
    intro piece member
    obtain ⟨item, inside, rfl⟩ := List.mem_map.mp member
    exact (plain item inside).opens
  have read := entries_intercalate (.inl rfl) pieces opens rest
  rw [writeWith, writeItems_eq_map]
  simp [valueWithin, skipSpace_cons (show isSpace '[' = false from rfl), read, pure, Except.pure]

theorem valueWithin_object (reversible : Reversible escape)
    (embedded : List Char → Except Fault Json) {depth : Nat} {members : List (String × Json)}
    (distinct : (members.map Prod.fst).Nodup)
    (leads : members.head?.map Prod.fst ≠ some embeddingKey)
    (taken : ∀ member ∈ members,
      TakenFor (valueWithin embedded depth) (writeWith escape member.2) member.2) :
    TakenFor (valueWithin embedded (depth + 1)) (writeWith escape (.object members))
      (.object members) := by
  intro rest _
  have read := objectWith_writeMembers reversible embedded distinct leads taken rest
  rw [writeWith]
  simp [valueWithin, skipSpace_cons (show isSpace '{' = false from rfl), read]

/-- A value is read back from its text by a reader that goes as deep as the value does. -/
theorem valueWithin_writeWith (reversible : Reversible escape)
    (embedded : List Char → Except Fault Json) {value : Json} (plain : Plain value)
    (unembedded : Unembedded value) :
    ∀ depth, value.depth ≤ depth →
      TakenFor (valueWithin embedded depth) (writeWith escape value) value := by
  induction plain with
  | null =>
      intro depth _ rest _
      rw [writeWith, List.cons_append]
      exact valueWithin_scalar embedded depth rfl (by decide) (by decide) _
  | bool value =>
      intro depth _ rest _
      cases value with
      | true =>
          rw [writeWith, List.cons_append]
          exact valueWithin_scalar embedded depth rfl (by decide) (by decide) _
      | false =>
          rw [writeWith, List.cons_append]
          exact valueWithin_scalar embedded depth rfl (by decide) (by decide) _
  | integer bounds =>
      intro depth _
      rw [writeWith]
      exact valueWithin_integerText embedded depth bounds
  | string text =>
      intro depth _ rest _
      have read := scalar?_writeString reversible text rest
      rw [writeWith]
      rw [writeString, List.cons_append, List.cons_append] at read ⊢
      rw [valueWithin_scalar embedded depth rfl (by decide) (by decide), read]
  | @array items inner ih =>
      intro depth bound
      cases unembedded with
      | array unembedded =>
          rw [Json.depth] at bound
          obtain ⟨depth, rfl⟩ : ∃ less, depth = less + 1 := ⟨depth - 1, by omega⟩
          apply valueWithin_array embedded inner
          intro item member
          have shallow := depth_le_depthOfItems member
          exact ih item member (unembedded item member) depth (by omega)
  | @object members distinct inner ih =>
      intro depth bound
      cases unembedded with
      | object leads unembedded =>
          rw [Json.depth] at bound
          obtain ⟨depth, rfl⟩ : ∃ less, depth = less + 1 := ⟨depth - 1, by omega⟩
          apply valueWithin_object reversible embedded distinct leads
          intro member inside
          have shallow := depth_le_depthOfMembers inside
          exact ih member inside (unembedded member inside) depth (by omega)

/-- A plain value of at most the reader's depth that embeds no text is what its text stands for. -/
theorem ofText?_writeWith (reversible : Reversible escape) {value : Json} (plain : Plain value)
    (unembedded : Unembedded value) (shallow : value.depth ≤ depthLimit) :
    ofText? (writeWith escape value) = some value := by
  have taken := valueWithin_writeWith reversible (readWithin (writeWith escape value).length) plain
    unembedded depthLimit shallow [] delimited_nil
  rw [List.append_nil] at taken
  have whole : read (writeWith escape value) = .ok value := by
    rw [read, readWithin, taken]
    rfl
  rw [ofText?, whole]
  rfl

end Written

theorem ofString?_toText {value : Json} (plain : Plain value) (unembedded : Unembedded value)
    (shallow : value.depth ≤ depthLimit) : ofString? value.toText = some value := by
  rw [ofString?, toText, String.toList_ofList]
  exact ofText?_writeWith reversible_escape plain unembedded shallow

end RequestLine.Json
