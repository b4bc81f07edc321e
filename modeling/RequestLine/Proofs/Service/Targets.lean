import RequestLine.Proofs.Text.Cutting
import RequestLine.Service

/-!
Which targets of a message are the root of the service: the path `/` itself, or a URL that names this
path or none.  A query and a fragment may follow.
-/

namespace RequestLine.Service

open Text

/-- The text does not go on with the path: it is empty, or begins a query or a fragment. -/
def BeyondPath (text : List Char) : Prop :=
  ∀ c, text.head? = some c → c = '?' ∨ c = '#'

/-- What follows the scheme of a URL names the root, by its path or by having none. -/
def RootAfterScheme (text : List Char) : Prop :=
  ∃ authority path rest, text = authority ++ (path ++ rest) ∧
    (∀ c ∈ authority, c ≠ '/' ∧ c ≠ '?' ∧ c ≠ '#') ∧ (path = [] ∨ path = ['/']) ∧ BeyondPath rest

def AtRoot (target : List Char) : Prop :=
  (∃ rest, target = '/' :: rest ∧ BeyondPath rest) ∨
  ∃ scheme rest, target = scheme ++ ':' :: '/' :: '/' :: rest ∧
    (∀ c ∈ scheme, isSchemeCharacter c = true) ∧ RootAfterScheme rest

theorem takeWhile_path_iff {text path : List Char} :
    text.takeWhile (!endsPath ·) = path ↔
      ∃ rest, text = path ++ rest ∧ (∀ c ∈ path, c ≠ '?' ∧ c ≠ '#') ∧ BeyondPath rest := by
  rw [takeWhile_eq_iff]
  simp [endsPath, BeyondPath, or_iff_not_imp_left]

theorem dropWhile_authority_iff {text rest : List Char} :
    text.dropWhile (fun c => c != '/' && !endsPath c) = rest ↔
      ∃ authority, text = authority ++ rest ∧ (∀ c ∈ authority, c ≠ '/' ∧ c ≠ '?' ∧ c ≠ '#') ∧
        ∀ c, rest.head? = some c → c ≠ '/' → c = '?' ∨ c = '#' := by
  rw [dropWhile_eq_iff]
  simp [endsPath, or_iff_not_imp_left]

theorem afterScheme?_eq_some_iff {target rest : List Char} :
    afterScheme? target = some rest ↔
      ∃ scheme, target = scheme ++ ':' :: '/' :: '/' :: rest ∧
        ∀ c ∈ scheme, isSchemeCharacter c = true := by
  have dropped : afterScheme? target = some rest ↔
      target.dropWhile isSchemeCharacter = ':' :: '/' :: '/' :: rest := by
    unfold afterScheme?
    split
    · rename_i following shape
      simp [shape]
    · rename_i other
      exact iff_of_false (by simp) (other rest)
  rw [dropped, dropWhile_eq_iff]
  apply exists_congr
  intro scheme
  apply and_congr_right
  intro _
  apply and_iff_left
  intro c first
  cases first
  decide

theorem pathAfterAuthority_root_iff {text : List Char} :
    (pathAfterAuthority text = [] ∨ pathAfterAuthority text = ['/']) ↔ RootAfterScheme text := by
  apply Iff.intro
  · intro root
    obtain ⟨authority, whole, inside, _⟩ := dropWhile_authority_iff.mp (rfl : _ = text.dropWhile _)
    obtain ⟨rest, shape, _, beyond⟩ := takeWhile_path_iff.mp (rfl : _ = pathAfterAuthority text)
    rw [shape] at whole
    exact ⟨authority, pathAfterAuthority text, rest, whole, inside, root, beyond⟩
  · intro named
    obtain ⟨authority, path, rest, whole, inside, root, beyond⟩ := named
    have ended : text.dropWhile (fun c => c != '/' && !endsPath c) = path ++ rest := by
      refine dropWhile_authority_iff.mpr ⟨authority, whole, inside, ?_⟩
      intro c first other
      rcases root with rfl | rfl
      · exact beyond c first
      · exact absurd (Option.some.inj first).symm other
    have within : ∀ c ∈ path, c ≠ '?' ∧ c ≠ '#' := by
      rcases root with rfl | rfl <;> simp
    rw [pathAfterAuthority, ended, takeWhile_path_iff.mpr ⟨rest, rfl, within, beyond⟩]
    exact root

theorem pathOf_of_path (rest : List Char) :
    pathOf ('/' :: rest) = ('/' :: rest).takeWhile (!endsPath ·) := rfl

theorem pathOf_of_url {target : List Char} (first : target.head? ≠ some '/') :
    pathOf target = ['/'] ↔ ∃ rest, afterScheme? target = some rest ∧
      (pathAfterAuthority rest = [] ∨ pathAfterAuthority rest = ['/']) := by
  unfold pathOf
  split
  · exact absurd rfl first
  · cases afterScheme? target with
    | none => simp
    | some rest => cases path : pathAfterAuthority rest <;> simp [path]

/-- The root is admitted under each of its spellings, and no other path is. -/
theorem pathOf_eq_root_iff {target : List Char} : pathOf target = ['/'] ↔ AtRoot target := by
  by_cases first : target.head? = some '/'
  · obtain ⟨rest, rfl⟩ := List.head?_eq_some_iff.mp first
    rw [pathOf_of_path, takeWhile_path_iff, AtRoot]
    apply Iff.intro
    · intro cut
      obtain ⟨rest, whole, _, beyond⟩ := cut
      exact .inl ⟨rest, whole, beyond⟩
    · intro root
      rcases root with ⟨rest, whole, beyond⟩ | ⟨scheme, rest, whole, characters, _⟩
      · exact ⟨rest, whole, by simp, beyond⟩
      · cases scheme with
        | nil => cases whole
        | cons c scheme =>
            cases whole
            have slash := characters '/' List.mem_cons_self
            contradiction
  · rw [pathOf_of_url first, AtRoot]
    apply Iff.intro
    · intro named
      obtain ⟨rest, found, root⟩ := named
      obtain ⟨scheme, whole, characters⟩ := afterScheme?_eq_some_iff.mp found
      exact .inr ⟨scheme, rest, whole, characters, pathAfterAuthority_root_iff.mp root⟩
    · intro root
      rcases root with ⟨rest, rfl, _⟩ | ⟨scheme, rest, whole, characters, root⟩
      · exact absurd rfl first
      · exact ⟨rest, afterScheme?_eq_some_iff.mpr ⟨scheme, whole, characters⟩,
          pathAfterAuthority_root_iff.mpr root⟩

example : pathOf "http://a.com?/x".toList = ['/'] ∧ pathOf "http://a.com/x".toList ≠ ['/'] ∧
    pathOf "//".toList ≠ ['/'] ∧ pathOf "a.com/".toList ≠ ['/'] := by
  decide

end RequestLine.Service
