import RequestLine.Proofs.Text.Cutting
import RequestLine.Service.MediaType

/-!
The grammar of the media types that are taken for JSON.  The scanner admits the texts of this grammar and
no others.
-/

namespace RequestLine.MediaType

open Text

/-! ### Tokens and spaces -/

structure IsToken (text : List Char) : Prop where
  nonempty : text ≠ []
  characters : ∀ c ∈ text, isTokenCharacter c = true

theorem token_eq_iff {text front back : List Char} :
    token text = (front, back) ↔
      text = front ++ back ∧ (∀ c ∈ front, isTokenCharacter c = true) ∧
        ∀ c, back.head? = some c → isTokenCharacter c = false := by
  rw [token, Prod.mk.injEq, takeWhile_dropWhile_iff]

theorem token_append {name : List Char} (isToken : IsToken name) {sign : Char}
    (outside : isTokenCharacter sign = false) (rest : List Char) :
    token (name ++ sign :: rest) = (name, sign :: rest) := by
  refine token_eq_iff.mpr ⟨rfl, isToken.characters, ?_⟩
  intro c first
  cases first
  exact outside

theorem token_of_isToken {text : List Char} (isToken : IsToken text) : token text = (text, []) :=
  token_eq_iff.mpr ⟨(List.append_nil text).symm, isToken.characters, by simp⟩

def AllSpaces (text : List Char) : Prop :=
  ∀ c ∈ text, c = ' '

theorem dropSpaces_eq_iff {text rest : List Char} :
    dropSpaces text = rest ↔
      ∃ spaces, text = spaces ++ rest ∧ AllSpaces spaces ∧ rest.head? ≠ some ' ' := by
  rw [dropSpaces, dropWhile_eq_iff]
  simp only [AllSpaces, beq_iff_eq, beq_eq_false_iff_ne]
  apply exists_congr
  intro spaces
  refine and_congr_right fun _ => and_congr_right fun _ => ⟨?_, ?_⟩
  · intro other first
    exact other ' ' first rfl
  · intro other c first space
    exact other (space ▸ first)

theorem dropSpaces_append {spaces : List Char} (blank : AllSpaces spaces) {rest : List Char}
    (stop : rest.head? ≠ some ' ') : dropSpaces (spaces ++ rest) = rest :=
  dropSpaces_eq_iff.mpr ⟨spaces, rfl, blank, stop⟩

theorem dropSpaces_of_allSpaces {text : List Char} (blank : AllSpaces text) : dropSpaces text = [] :=
  dropSpaces_eq_iff.mpr ⟨text, (List.append_nil text).symm, blank, by simp⟩

/-! ### Parameters -/

/-- What stands behind the equals sign of a parameter.  A quoted value has at least one character, and
the first may itself be a quote; spaces may follow its closing quote. -/
inductive IsValue : List Char → Prop where
  | token {text : List Char} (isToken : IsToken text) : IsValue text
  | quoted (first : Char) {others spaces : List Char} (unquoted : '"' ∉ others)
      (blank : AllSpaces spaces) : IsValue ('"' :: first :: (others ++ '"' :: spaces))

/-- A list of parameters.  Spaces stand before a name only; the list may end in a semicolon, and its
last value may be left out. -/
inductive Parameters : List Char → Prop where
  | none {spaces : List Char} (blank : AllSpaces spaces) : Parameters spaces
  | empty {spaces name : List Char} (blank : AllSpaces spaces) (isName : IsToken name) :
      Parameters (spaces ++ (name ++ ['=']))
  | last {spaces name value : List Char} (blank : AllSpaces spaces) (isName : IsToken name)
      (isValue : IsValue value) : Parameters (spaces ++ (name ++ '=' :: value))
  | more {spaces name value rest : List Char} (blank : AllSpaces spaces) (isName : IsToken name)
      (isValue : IsValue value) (others : Parameters rest) :
      Parameters (spaces ++ (name ++ '=' :: (value ++ ';' :: rest)))

theorem afterQuoted?_of_spaces (first : Char) {others spaces : List Char} (unquoted : '"' ∉ others)
    (blank : AllSpaces spaces) : afterQuoted? (first :: (others ++ '"' :: spaces)) = some [] := by
  rw [afterQuoted?, dropWhile_before_sign unquoted]
  dsimp only
  rw [dropSpaces_of_allSpaces blank]

theorem afterQuoted?_of_semicolon (first : Char) {others spaces : List Char} (unquoted : '"' ∉ others)
    (blank : AllSpaces spaces) (rest : List Char) :
    afterQuoted? (first :: (others ++ '"' :: (spaces ++ ';' :: rest))) = some rest := by
  rw [afterQuoted?, dropWhile_before_sign unquoted]
  dsimp only
  rw [dropSpaces_append blank (by simp)]
  rfl

/-- A value stands alone, or up to a semicolon. -/
theorem afterValue?_of_isValue {value : List Char} (isValue : IsValue value) :
    afterValue? value = some [] ∧ ∀ rest, afterValue? (value ++ ';' :: rest) = some rest := by
  cases isValue with
  | token isToken =>
      obtain ⟨first, others, rfl⟩ := List.exists_cons_of_ne_nil isToken.nonempty
      have unquoted : first ≠ '"' := by
        intro same
        subst same
        have quote := isToken.characters '"' List.mem_cons_self
        contradiction
      refine ⟨?_, ?_⟩
      · simp [afterValue?, unquoted, token_of_isToken isToken]
      · intro rest
        have taken := token_append isToken (by decide : isTokenCharacter ';' = false) rest
        rw [List.cons_append] at taken ⊢
        simp [afterValue?, unquoted, taken]
  | quoted first unquoted blank =>
      refine ⟨afterQuoted?_of_spaces first unquoted blank, ?_⟩
      intro rest
      simpa [afterValue?] using afterQuoted?_of_semicolon first unquoted blank rest

theorem isValue_of_afterQuoted? {text rest : List Char} (found : afterQuoted? text = some rest) :
    ∃ value, IsValue value ∧
      ('"' :: text = value ∧ rest = [] ∨ '"' :: text = value ++ ';' :: rest) := by
  unfold afterQuoted? at found
  split at found
  · contradiction
  · rename_i first others
    split at found
    · contradiction
    · rename_i quote back closed
      obtain ⟨inside, rfl, unquoted, stop⟩ := dropWhile_eq_iff.mp closed
      obtain rfl : quote = '"' := by simpa using stop quote rfl
      have absent : '"' ∉ inside := fun member => by simpa using unquoted '"' member
      split at found
      · rename_i none
        obtain ⟨spaces, rfl, blank, _⟩ := dropSpaces_eq_iff.mp none
        obtain rfl := Option.some.inj found
        exact ⟨_, .quoted first absent blank, .inl ⟨by simp, rfl⟩⟩
      · rename_i following some
        obtain ⟨spaces, rfl, blank, _⟩ := dropSpaces_eq_iff.mp some
        obtain rfl := Option.some.inj found
        exact ⟨_, .quoted first absent blank, .inr (by simp)⟩
      · contradiction

theorem isValue_of_afterValue? {text rest : List Char} (found : afterValue? text = some rest) :
    text = [] ∧ rest = [] ∨
      ∃ value, IsValue value ∧ (text = value ∧ rest = [] ∨ text = value ++ ';' :: rest) := by
  unfold afterValue? at found
  split at found
  · exact .inl ⟨rfl, (Option.some.inj found).symm⟩
  · exact .inr (isValue_of_afterQuoted? found)
  · right
    split at found
    · rename_i first others whole
      obtain ⟨rfl, characters, _⟩ := token_eq_iff.mp whole
      exact ⟨_, .token ⟨by simp, characters⟩, .inl ⟨by simp, (Option.some.inj found).symm⟩⟩
    · rename_i first others following whole
      obtain ⟨rfl, characters, _⟩ := token_eq_iff.mp whole
      obtain rfl := Option.some.inj found
      exact ⟨_, .token ⟨by simp, characters⟩, .inr rfl⟩
    · contradiction

theorem parametersWithin_of_allSpaces {text : List Char} (blank : AllSpaces text) (limit : Nat) :
    parametersWithin limit text = true := by
  have none := dropSpaces_of_allSpaces blank
  cases limit with
  | zero => rw [parametersWithin, none]; rfl
  | succ limit => rw [parametersWithin, none]

theorem parametersWithin_of_name {spaces name : List Char} (blank : AllSpaces spaces)
    (isName : IsToken name) (limit : Nat) {value rest : List Char}
    (found : afterValue? value = some rest) :
    parametersWithin (limit + 1) (spaces ++ (name ++ '=' :: value)) =
      parametersWithin limit rest := by
  have taken := token_append isName (by decide : isTokenCharacter '=' = false) value
  obtain ⟨first, others, rfl⟩ := List.exists_cons_of_ne_nil isName.nonempty
  have stop : (first :: others ++ '=' :: value).head? ≠ some ' ' := by
    intro space
    have inside := isName.characters first List.mem_cons_self
    rw [Option.some.inj space] at inside
    contradiction
  rw [List.cons_append] at taken stop ⊢
  rw [parametersWithin, dropSpaces_append blank stop]
  simp [taken, found]

/-- The scanner is given enough steps by the length of the text, since every parameter has a name. -/
theorem parametersWithin_iff {limit : Nat} {text : List Char} (enough : text.length ≤ limit) :
    parametersWithin limit text = true ↔ Parameters text := by
  induction limit generalizing text with
  | zero =>
      obtain rfl : text = [] := List.length_eq_zero_iff.mp (Nat.le_zero.mp enough)
      exact iff_of_true rfl (.none (by simp [AllSpaces]))
  | succ limit ih =>
      apply Iff.intro
      · intro scanned
        rw [parametersWithin] at scanned
        split at scanned
        · rename_i none
          obtain ⟨spaces, rfl, blank, _⟩ := dropSpaces_eq_iff.mp none
          rw [List.append_nil]
          exact .none blank
        · split at scanned
          · rename_i first others value named
            obtain ⟨whole, characters, _⟩ := token_eq_iff.mp named
            obtain ⟨spaces, rfl, blank, _⟩ := dropSpaces_eq_iff.mp whole
            have isName : IsToken (first :: others) := ⟨List.cons_ne_nil _ _, characters⟩
            split at scanned
            · rename_i rest found
              rcases isValue_of_afterValue? found with ⟨rfl, rfl⟩ | ⟨value, isValue, ⟨rfl, rfl⟩ | rfl⟩
              · exact .empty blank isName
              · exact .last blank isName isValue
              · refine .more blank isName isValue ((ih ?_).mp scanned)
                simp only [List.length_append, List.length_cons] at enough
                omega
            · contradiction
          · contradiction
      · intro parameters
        cases parameters with
        | none blank => exact parametersWithin_of_allSpaces blank _
        | empty blank isName =>
            rw [parametersWithin_of_name blank isName limit (rfl : afterValue? [] = some [])]
            exact parametersWithin_of_allSpaces (by simp [AllSpaces]) _
        | last blank isName isValue =>
            rw [parametersWithin_of_name blank isName limit (afterValue?_of_isValue isValue).1]
            exact parametersWithin_of_allSpaces (by simp [AllSpaces]) _
        | @more spaces name value rest blank isName isValue others =>
            rw [parametersWithin_of_name blank isName limit ((afterValue?_of_isValue isValue).2 rest)]
            refine (ih ?_).mpr others
            simp only [List.length_append, List.length_cons] at enough
            omega

/-! ### Types -/

/-- A subtype is JSON by its name, up to its only plus sign, or by its suffix, from its last one.  What
stands first belongs to the name. -/
def NamesJson (subtype : List Char) : Prop :=
  subtype = "json".toList ∨ (∃ suffix, '+' ∉ suffix ∧ subtype = "json+".toList ++ suffix) ∨
    ∃ name, name ≠ [] ∧ subtype = name ++ "+json".toList

theorem cutSuffix_of_absent {subtype : List Char} (absent : '+' ∉ subtype.drop 1) :
    cutSuffix subtype = (subtype, none) := by
  have none : (subtype.drop 1).reverse.dropWhile (· != '+') = [] :=
    List.dropWhile_eq_nil_iff.mpr (ne_of_absent (by simpa using absent))
  simp only [cutSuffix, none]

theorem cutSuffix_append {name suffix : List Char} (filled : name ≠ []) (last : '+' ∉ suffix) :
    cutSuffix (name ++ '+' :: suffix) = (name, some suffix) := by
  obtain ⟨first, others, rfl⟩ := List.exists_cons_of_ne_nil filled
  have apart : '+' ∉ suffix.reverse := by simpa using last
  simp [cutSuffix, takeWhile_before_sign apart, dropWhile_before_sign apart]

/-- Behind the first character there is no plus sign, or a last one. -/
theorem exists_last_plus (subtype : List Char) :
    '+' ∉ subtype.drop 1 ∨
      ∃ name suffix, name ≠ [] ∧ '+' ∉ suffix ∧ subtype = name ++ '+' :: suffix := by
  by_cases plus : '+' ∈ subtype.drop 1
  · cases subtype with
    | nil => cases plus
    | cons first others =>
        obtain ⟨back, front, cut, last⟩ := List.eq_append_cons_of_mem (List.mem_reverse.mpr plus)
        have whole : others = front.reverse ++ '+' :: back.reverse := by
          simpa using congrArg List.reverse cut
        exact .inr ⟨first :: front.reverse, back.reverse, List.cons_ne_nil _ _,
          by simpa using last, by rw [whole]; rfl⟩
  · exact .inl plus

theorem cutSuffix_iff {subtype : List Char} :
    ((cutSuffix subtype).1 = "json".toList ∨ (cutSuffix subtype).2 = some "json".toList) ↔
      NamesJson subtype := by
  rcases exists_last_plus subtype with absent | ⟨name, suffix, filled, last, rfl⟩
  · rw [cutSuffix_of_absent absent, NamesJson]
    apply Iff.intro
    · intro json
      rcases json with same | none
      · exact .inl same
      · cases none
    · intro json
      rcases json with same | ⟨suffix, _, rfl⟩ | ⟨name, filled, rfl⟩
      · exact .inl same
      · exact absurd (by simp) absent
      · obtain ⟨first, others, rfl⟩ := List.exists_cons_of_ne_nil filled
        exact absurd (by simp) absent
  · rw [cutSuffix_append filled last, NamesJson]
    apply Iff.intro
    · intro json
      rcases json with rfl | json
      · exact .inr (.inl ⟨suffix, last, rfl⟩)
      · obtain rfl := Option.some.inj json
        exact .inr (.inr ⟨name, filled, rfl⟩)
    · intro json
      rcases json with same | ⟨other, lastOther, same⟩ | ⟨other, filledOther, same⟩
      · have plus : '+' ∈ "json".toList := by rw [← same]; simp
        exact absurd plus (by decide)
      · have cut := congrArg cutSuffix same
        have apart := cutSuffix_append (by decide : "json".toList ≠ []) lastOther
        rw [cutSuffix_append filled last] at cut
        exact .inl (congrArg Prod.fst (cut.trans apart))
      · have cut := congrArg cutSuffix same
        have apart := cutSuffix_append filledOther (by decide : '+' ∉ "json".toList)
        rw [cutSuffix_append filled last] at cut
        exact .inr (congrArg Prod.snd (cut.trans apart))

/-- A type that is taken for JSON: visible characters, a type and a subtype that are tokens, whose letters
count without their case, and parameters after them or none. -/
structure IsJson (text : List Char) : Prop where
  visible : ∀ c ∈ text, ' ' ≤ c ∧ c ≤ '~'
  named : ∃ type subtype rest, text = type ++ '/' :: (subtype ++ rest) ∧
    (∀ c ∈ type ++ subtype, isTokenCharacter c = true) ∧
    type.map Char.toLower = "application".toList ∧ NamesJson (subtype.map Char.toLower) ∧
    (rest = [] ∨ ∃ parameters, rest = ';' :: parameters ∧ Parameters parameters)

theorem isJsonType_iff {type subtype : List Char} :
    isJsonType type subtype = true ↔
      type.map Char.toLower = "application".toList ∧ NamesJson (subtype.map Char.toLower) := by
  rw [← cutSuffix_iff]
  simp only [isJsonType, Bool.and_eq_true, Bool.or_eq_true, beq_iff_eq]
  rfl

theorem all_visible_iff {text : List Char} :
    text.all (fun c => ' ' ≤ c && c ≤ '~') = true ↔ ∀ c ∈ text, ' ' ≤ c ∧ c ≤ '~' := by
  simp

/-- The media types of this grammar are admitted, and no others. -/
theorem isJson_iff {mediaType : String} : isJson mediaType = true ↔ IsJson mediaType.toList := by
  unfold isJson
  dsimp only
  rw [Bool.and_eq_true, all_visible_iff]
  apply Iff.intro
  · intro admitted
    obtain ⟨visible, scanned⟩ := admitted
    refine ⟨visible, ?_⟩
    split at scanned
    · rename_i type back named
      obtain ⟨whole, characters, _⟩ := token_eq_iff.mp named
      cases cut : token back with
      | mk subtype rest =>
          obtain ⟨rfl, charactersBack, _⟩ := token_eq_iff.mp cut
          rw [cut, Bool.and_eq_true, isJsonType_iff] at scanned
          obtain ⟨⟨application, json⟩, following⟩ := scanned
          refine ⟨type, subtype, rest, whole, List.forall_mem_append.mpr ⟨characters, charactersBack⟩,
            application, json, ?_⟩
          dsimp only at following
          split at following
          · exact .inl rfl
          · exact .inr ⟨_, rfl, (parametersWithin_iff (Nat.le_refl _)).mp following⟩
          · contradiction
    · contradiction
  · intro described
    obtain ⟨visible, type, subtype, rest, whole, characters, application, json, following⟩ := described
    rw [List.forall_mem_append] at characters
    have stop : ∀ c, rest.head? = some c → isTokenCharacter c = false := by
      intro c first
      rcases following with rfl | ⟨parameters, rfl, _⟩
      · cases first
      · cases first
        decide
    have named : token mediaType.toList = (type, '/' :: (subtype ++ rest)) := by
      refine token_eq_iff.mpr ⟨whole, characters.1, ?_⟩
      intro c first
      cases first
      decide
    have cut : token (subtype ++ rest) = (subtype, rest) :=
      token_eq_iff.mpr ⟨rfl, characters.2, stop⟩
    refine ⟨visible, ?_⟩
    rw [named]
    simp only [cut]
    rw [Bool.and_eq_true, isJsonType_iff]
    refine ⟨⟨application, json⟩, ?_⟩
    rcases following with rfl | ⟨parameters, rfl, described⟩
    · rfl
    · exact (parametersWithin_iff (Nat.le_refl _)).mpr described

example : isJson "Application/Problem+JSON; charset=\"\"a\" ;" = true ∧ isJson "text/json" = false ∧
    isJson "application/json; charset" = false ∧ isJson "application/json ; q=1" = false := by
  decide

end RequestLine.MediaType
