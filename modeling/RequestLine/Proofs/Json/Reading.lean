import Mathlib.Data.List.DropRight
import RequestLine.Proofs.Except
import RequestLine.Proofs.Json.Extent
import RequestLine.Proofs.Json.Values

/-!
What is known of a value that was read, and of the text that it was read from.  The reader of values is
followed once, for any property of values that its scalars, arrays and objects have.
-/

namespace RequestLine.Json

theorem ofLexeme_eq_ok_iff {α : Type} {lexeme : Lexeme α} {text : List Char}
    {taken : α × List Char} : ofLexeme lexeme text = .ok taken ↔ lexeme text = some taken := by
  unfold ofLexeme
  split
  · rename_i found same
    simp [same]
  · rename_i same
    simp [same]

section Entries

variable {α : Type} {close : Char} {reader : Reader α} {holds : α → Prop}

theorem entriesWithin_sound
    (sound : ∀ {text entry rest}, reader text = .ok (entry, rest) → holds entry ∧ rest <:+ text)
    {limit : Nat} : ∀ {text found rest}, entriesWithin close reader limit text = .ok (found, rest) →
      (∀ entry ∈ found, holds entry) ∧ close :: rest <:+ text := by
  induction limit with
  | zero =>
      intro text found rest read
      cases read
  | succ limit ih =>
      intro text found rest read
      rw [entriesWithin, bind_eq_ok_iff] at read
      obtain ⟨⟨entry, left⟩, first, read⟩ := read
      obtain ⟨good, front⟩ := sound first
      have spaces := (freeUpTo_skipSpace left).suffix
      dsimp only at read
      split at read
      · cases read
      · rename_i c behind shape
        rw [shape] at spaces
        have inner := spaces.trans front
        split at read
        · rename_i closed
          cases read
          rw [closed] at inner
          exact ⟨by simpa using good, inner⟩
        · split at read
          · rw [bind_eq_ok_iff] at read
            obtain ⟨⟨others, after⟩, following, same⟩ := read
            cases same
            obtain ⟨later, suffix⟩ := ih following
            refine ⟨?_, (suffix.trans (List.suffix_cons c behind)).trans inner⟩
            intro found member
            rcases List.mem_cons.mp member with rfl | among
            · exact good
            · exact later found among
          · cases read

theorem entries_sound
    (sound : ∀ {text entry rest}, reader text = .ok (entry, rest) → holds entry ∧ rest <:+ text)
    {text : List Char} {found : List α} {rest : List Char}
    (read : entries close reader text = .ok (found, rest)) :
    (∀ entry ∈ found, holds entry) ∧ close :: rest <:+ text := by
  have spaces := (freeUpTo_skipSpace text).suffix
  unfold entries at read
  split at read
  · cases read
  · rename_i c behind shape
    rw [shape] at spaces
    split at read
    · rename_i closed
      cases read
      rw [closed] at spaces
      exact ⟨by simp, spaces⟩
    · obtain ⟨inner, suffix⟩ := entriesWithin_sound sound read
      exact ⟨inner, suffix.trans spaces⟩

/-- The first entry is read from the front of the text. -/
theorem entries_first {text : List Char} {entry : α} {others : List α} {rest : List Char}
    (read : entries close reader text = .ok (entry :: others, rest)) :
    ∃ left, reader (skipSpace text) = .ok (entry, left) := by
  unfold entries at read
  split at read
  · cases read
  · rename_i c behind shape
    split at read
    · cases read
    · rw [shape]
      cases size : text.length with
      | zero =>
          rw [size] at read
          cases read
      | succ limit =>
          rw [size, entriesWithin, bind_eq_ok_iff] at read
          obtain ⟨⟨first, left⟩, taken, read⟩ := read
          dsimp only at read
          split at read
          · cases read
          · split at read
            · cases read
              exact ⟨left, taken⟩
            · split at read
              · rw [bind_eq_ok_iff] at read
                obtain ⟨_, _, same⟩ := read
                cases same
                exact ⟨left, taken⟩
              · cases read

end Entries

theorem skipSpace_skipSpace (text : List Char) : skipSpace (skipSpace text) = skipSpace text :=
  List.dropWhile_idempotent isSpace text

theorem key?_skipSpace (text : List Char) : key? (skipSpace text) = key? text := by
  unfold key?
  rw [skipSpace_skipSpace]

/-- A property that scalars have, and arrays and objects whose values have it, where no object begins
with the key that embeds a text. -/
structure Inherited (holds : Json → Prop) : Prop where
  scalar : ∀ {text value rest}, scalar? text = some (value, rest) → holds value
  array : ∀ {items}, (∀ item ∈ items, holds item) → holds (.array items)
  object : ∀ {pairs : List (String × Json)}, pairs.head?.map Prod.fst ≠ some embeddingKey →
    (∀ pair ∈ pairs, holds pair.2) → holds (.object (Members.ofPairs pairs))

section Values

variable {holds : Json → Prop} {embedded : List Char → Except Fault Json} {reader : Reader Json}

theorem memberWith_sound
    (sound : ∀ {text value rest}, reader text = .ok (value, rest) → holds value ∧ rest <:+ text)
    {text : List Char} {pair : String × Json} {rest : List Char}
    (read : memberWith reader text = .ok (pair, rest)) : holds pair.2 ∧ rest <:+ text := by
  rw [memberWith, bind_eq_ok_iff] at read
  obtain ⟨⟨key, afterKey⟩, keyRead, read⟩ := read
  rw [bind_eq_ok_iff] at read
  obtain ⟨⟨value, left⟩, valueRead, same⟩ := read
  cases same
  obtain ⟨good, suffix⟩ := sound valueRead
  exact ⟨good, suffix.trans (key?_suffix (ofLexeme_eq_ok_iff.mp keyRead))⟩

theorem membersWith_sound (inherited : Inherited holds)
    (sound : ∀ {text value rest}, reader text = .ok (value, rest) → holds value ∧ rest <:+ text)
    {text : List Char} {value : Json} {rest : List Char}
    (other : ∀ key left, key? text = some (key, left) → key ≠ embeddingKey)
    (read : membersWith reader text = .ok (value, rest)) :
    holds value ∧ '}' :: rest <:+ text := by
  rw [membersWith, bind_eq_ok_iff] at read
  obtain ⟨⟨pairs, left⟩, pairsRead, same⟩ := read
  cases same
  obtain ⟨good, suffix⟩ := entries_sound (memberWith_sound sound) pairsRead
  refine ⟨inherited.object ?_ good, suffix⟩
  cases pairs with
  | nil => simp
  | cons pair pairs =>
      obtain ⟨left, first⟩ := entries_first pairsRead
      rw [memberWith, bind_eq_ok_iff] at first
      obtain ⟨⟨key, afterKey⟩, keyRead, first⟩ := first
      rw [bind_eq_ok_iff] at first
      obtain ⟨_, _, same⟩ := first
      cases same
      rw [ofLexeme_eq_ok_iff, key?_skipSpace] at keyRead
      simpa using other key afterKey keyRead

/-- What an object embeds is a string, and its value that of the text in it. -/
theorem embeddingWith_eq_ok {text : List Char} {value : Json} {rest : List Char}
    (read : embeddingWith embedded text = .ok (value, rest)) :
    ∃ behind content left, skipSpace text = '"' :: behind ∧ string? behind = some (content, left) ∧
      embedded content.toList = .ok value ∧ skipSpace left = '}' :: rest := by
  rw [embeddingWith, bind_eq_ok_iff] at read
  obtain ⟨⟨found, left⟩, valueRead, read⟩ := read
  dsimp only at read
  split at read
  · rename_i closed
    cases read
    unfold embeddedValue at valueRead
    split at valueRead
    · rename_i behind shape
      rw [bind_eq_ok_iff] at valueRead
      obtain ⟨⟨content, after⟩, textRead, valueRead⟩ := valueRead
      dsimp only at valueRead
      split at valueRead
      · rename_i accepted
        cases valueRead
        exact ⟨behind, content, left, shape, ofLexeme_eq_ok_iff.mp textRead, accepted, closed⟩
      · cases valueRead
    · cases valueRead
    · cases valueRead
    · rw [bind_eq_ok_iff] at valueRead
      obtain ⟨_, _, fault⟩ := valueRead
      cases fault
  · cases read

theorem embeddingWith_sound
    (inner : ∀ {text value}, embedded text = .ok value → holds value)
    {text : List Char} {value : Json} {rest : List Char}
    (read : embeddingWith embedded text = .ok (value, rest)) :
    holds value ∧ '}' :: rest <:+ text := by
  obtain ⟨behind, content, left, opened, quoted, accepted, closed⟩ := embeddingWith_eq_ok read
  have whole := (freeUpTo_skipSpace text).suffix
  have spaces := (freeUpTo_skipSpace left).suffix
  rw [opened] at whole
  rw [closed] at spaces
  have inside := (List.suffix_cons '"' left).trans (string?_suffix quoted)
  exact ⟨inner accepted,
    ((spaces.trans inside).trans (List.suffix_cons '"' behind)).trans whole⟩

theorem objectWith_sound (inherited : Inherited holds)
    (inner : ∀ {text value}, embedded text = .ok value → holds value)
    (sound : ∀ {text value rest}, reader text = .ok (value, rest) → holds value ∧ rest <:+ text)
    {text : List Char} {value : Json} {rest : List Char}
    (read : objectWith embedded reader text = .ok (value, rest)) :
    holds value ∧ '}' :: rest <:+ text := by
  unfold objectWith at read
  split at read
  · rename_i key left keyRead
    split at read
    · obtain ⟨good, suffix⟩ := embeddingWith_sound inner read
      exact ⟨good, suffix.trans (key?_suffix keyRead)⟩
    · rename_i other
      apply membersWith_sound inherited sound _ read
      intro found after again
      rw [keyRead] at again
      cases again
      exact other
  · rename_i keyless
    apply membersWith_sound inherited sound _ read
    intro key left keyRead
    rw [keyless] at keyRead
    cases keyRead

theorem valueWithin_sound (inherited : Inherited holds)
    (inner : ∀ {text value}, embedded text = .ok value → holds value) {depth : Nat} :
    ∀ {text value rest}, valueWithin embedded depth text = .ok (value, rest) →
      holds value ∧ TakenUpTo text rest := by
  induction depth with
  | zero =>
      intro text value rest read
      have scalar := ofLexeme_eq_ok_iff.mp read
      exact ⟨inherited.scalar scalar, (scalar?_taken scalar).after (freeUpTo_skipSpace text)⟩
  | succ depth ih =>
      intro text value rest read
      have sound : ∀ {text value rest}, valueWithin embedded depth text = .ok (value, rest) →
          holds value ∧ rest <:+ text :=
        fun read => ⟨(ih read).1, (ih read).2.suffix⟩
      have whole := (freeUpTo_skipSpace text).suffix
      unfold valueWithin at read
      split at read
      · rename_i behind shape
        rw [shape] at whole
        rw [bind_eq_ok_iff] at read
        obtain ⟨⟨items, left⟩, itemsRead, same⟩ := read
        cases same
        obtain ⟨good, suffix⟩ := entries_sound sound itemsRead
        exact ⟨inherited.array good, .inr ⟨']', by decide,
          (suffix.trans (List.suffix_cons '[' behind)).trans whole⟩⟩
      · rename_i behind shape
        rw [shape] at whole
        obtain ⟨good, suffix⟩ := objectWith_sound inherited inner sound read
        exact ⟨good, .inr ⟨'}', by decide,
          (suffix.trans (List.suffix_cons '{' behind)).trans whole⟩⟩
      · have scalar := ofLexeme_eq_ok_iff.mp read
        exact ⟨inherited.scalar scalar, (scalar?_taken scalar).after (freeUpTo_skipSpace text)⟩

theorem readWithin_sound (inherited : Inherited holds) {limit : Nat} :
    ∀ {text value}, readWithin limit text = .ok value → holds value := by
  induction limit with
  | zero =>
      intro text value read
      cases read
  | succ limit ih =>
      intro text value read
      rw [readWithin, bind_eq_ok_iff] at read
      obtain ⟨⟨found, left⟩, foundRead, read⟩ := read
      dsimp only at read
      split at read
      · cases read
        exact (valueWithin_sound inherited ih foundRead).1
      · cases read

end Values

theorem ofText?_eq_some_iff {text : List Char} {value : Json} :
    ofText? text = some value ↔ read text = .ok value := by
  unfold ofText?
  cases read text with
  | error fault => simp [Except.toOption]
  | ok found => simp [Except.toOption]

/-- A scalar is a string or one of the other values without parts. -/
inductive IsScalar : Json → Prop where
  | null : IsScalar .null
  | bool (value : Bool) : IsScalar (.bool value)
  | integer {value : Int} (bounds : Numeral.InRange value) : IsScalar (.integer value)
  | real (value : Binary64) : IsScalar (.real value)
  | string (text : String) : IsScalar (.string text)

theorem isScalar_of_scalar? {text : List Char} {value : Json} {rest : List Char}
    (read : scalar? text = some (value, rest)) : IsScalar value := by
  unfold scalar? at read
  split at read
  · cases read
    exact .null
  · cases read
    exact .bool true
  · cases read
    exact .bool false
  · simp only [Option.bind_eq_bind, Option.bind_eq_some_iff, Option.pure_def] at read
    obtain ⟨⟨content, left⟩, _, same⟩ := read
    cases same
    exact .string content
  · simp only [Option.bind_eq_bind, Option.bind_eq_some_iff, Option.pure_def] at read
    obtain ⟨⟨numeral, left⟩, _, found, number, same⟩ := read
    cases same
    unfold Numeral.value? at number
    split at number
    · rename_i integer
      cases number
      exact .integer (Numeral.inRange_of_integer? integer)
    · rw [Option.map_eq_some_iff] at number
      obtain ⟨real, _, rfl⟩ := number
      exact .real real

theorem IsScalar.unembedded {value : Json} (scalar : IsScalar value) : Unembedded value := by
  cases scalar with
  | null => exact .null
  | bool value => exact .bool value
  | integer bounds => exact .integer _
  | real value => exact .real value
  | string text => exact .string text

theorem IsScalar.plain {value : Json} (scalar : IsScalar value) (realFree : RealFree value) :
    Plain value := by
  cases scalar with
  | null => exact .null
  | bool value => exact .bool value
  | integer bounds => exact .integer bounds
  | real value => cases realFree
  | string text => exact .string text

theorem inherited_unembedded : Inherited Unembedded where
  scalar := fun read => (isScalar_of_scalar? read).unembedded
  array := .array
  object := by
    intro pairs leads inner
    refine .object ?_ ?_
    · rw [Members.head_ofPairs]
      exact leads
    · intro pair member
      exact inner pair (Members.mem_ofPairs member)

/-- What is read has only integers in the range of the reader, and no key twice in an object. -/
theorem inherited_plain : Inherited fun value => RealFree value → Plain value where
  scalar := fun read => (isScalar_of_scalar? read).plain
  array := by
    intro items inner realFree
    cases realFree with
    | array free => exact .array fun item member => inner item member (free item member)
  object := by
    intro pairs _ inner realFree
    cases realFree with
    | object free =>
        refine .object (Members.nodup_ofPairs pairs) ?_
        intro pair member
        exact inner pair (Members.mem_ofPairs member) (free pair member)

theorem inherits_of_ofText? {holds : Json → Prop} (inherited : Inherited holds) {text : List Char}
    {value : Json} (read : ofText? text = some value) : holds value :=
  readWithin_sound inherited (ofText?_eq_some_iff.mp read)

/-- No object that a reader brings begins with the key that embeds a text. -/
theorem unembedded_of_ofText? {text : List Char} {value : Json}
    (read : ofText? text = some value) : Unembedded value :=
  inherits_of_ofText? inherited_unembedded read

/-- An equals sign outside of strings does not occur, and behind one in a string there is a sign that
closes. -/
theorem closing_of_ofText? {front back : List Char} {value : Json}
    (read : ofText? (front ++ '=' :: back) = some value) : ∃ closing ∈ closings, closing ∈ back := by
  have read := ofText?_eq_some_iff.mp read
  rw [Json.read, readWithin, bind_eq_ok_iff] at read
  obtain ⟨⟨found, left⟩, foundRead, read⟩ := read
  dsimp only at read
  split at read
  · rename_i spaces
    have anything : Inherited (fun _ => True) :=
      ⟨fun _ => trivial, fun _ => trivial, fun _ _ => trivial⟩
    have absent : '=' ∉ left := by
      intro member
      have space := List.dropWhile_eq_nil_iff.mp spaces '=' member
      cases space
    have here : '=' :: back <:+ front ++ '=' :: back := List.suffix_append front _
    -- Only spaces are left, so the equals sign has been taken: not in a scalar outside of
    -- strings, hence before a closing sign.
    rcases (valueWithin_sound anything (fun _ => trivial) foundRead).2 with free | closed
    · obtain ⟨taken, whole, free⟩ := free
      have member : '=' ∈ taken ++ left := by
        rw [← whole]
        simp
      rcases List.mem_append.mp member with inside | behind
      · contradiction
      · contradiction
    · obtain ⟨closing, member, suffix⟩ := closed
      refine ⟨closing, member, ?_⟩
      rcases List.suffix_or_suffix_of_suffix suffix here with later | earlier
      · rcases List.suffix_cons_iff.mp later with same | inside
        · rw [(List.cons.inj same).1] at member
          exact absurd member (by decide)
        · exact inside.subset (by simp)
      · rcases List.suffix_cons_iff.mp earlier with same | inside
        · rw [← (List.cons.inj same).1] at member
          exact absurd member (by decide)
        · exact absurd (inside.subset (by simp)) absent
  · cases read

end RequestLine.Json
