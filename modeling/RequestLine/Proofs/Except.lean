import Mathlib.Data.List.Forall2

/-!
What it means that a computation with errors in it has come to a value, and which errors it can come
to.
-/

namespace RequestLine

variable {ε α β : Type}

@[simp] theorem ok_bind (value : α) (next : α → Except ε β) :
    (Except.ok value >>= next) = next value := rfl

@[simp] theorem map_ok (value : α) (change : α → β) :
    change <$> (Except.ok value : Except ε α) = .ok (change value) := rfl

theorem bind_eq_ok_iff {first : Except ε α} {next : α → Except ε β} {result : β} :
    (first >>= next) = .ok result ↔ ∃ value, first = .ok value ∧ next value = .ok result := by
  cases first with
  | error fault => simp [bind, Except.bind]
  | ok value => simp [bind, Except.bind]

theorem bind_eq_error_iff {first : Except ε α} {next : α → Except ε β} {cause : ε} :
    (first >>= next) = .error cause ↔
      first = .error cause ∨ ∃ value, first = .ok value ∧ next value = .error cause := by
  cases first with
  | error fault => simp [bind, Except.bind]
  | ok value => simp [bind, Except.bind]

/-- Reading a list succeeds exactly if the reading of each entry does. -/
theorem mapM_eq_ok_iff {read : α → Except ε β} {inputs : List α} {outputs : List β} :
    inputs.mapM read = .ok outputs ↔
      List.Forall₂ (fun input output => read input = .ok output) inputs outputs := by
  induction inputs generalizing outputs with
  | nil => simp [pure, Except.pure, eq_comm]
  | cons input inputs ih =>
      rw [List.mapM_cons, bind_eq_ok_iff, List.forall₂_cons_left_iff]
      apply Iff.intro
      · intro read
        obtain ⟨output, first, later⟩ := read
        obtain ⟨rest, others, same⟩ := bind_eq_ok_iff.mp later
        exact ⟨output, rest, first, ih.mp others, (Except.ok.inj same).symm⟩
      · intro related
        obtain ⟨output, rest, first, related, rfl⟩ := related
        exact ⟨output, first, bind_eq_ok_iff.mpr ⟨rest, ih.mpr related, rfl⟩⟩

/-- Reading a list ends with the error of the first entry that has one. -/
theorem mapM_eq_error_iff {read : α → Except ε β} {inputs : List α} {cause : ε} :
    inputs.mapM read = .error cause ↔
      ∃ front input back, inputs = front ++ input :: back ∧
        (∀ earlier ∈ front, ∃ output, read earlier = .ok output) ∧ read input = .error cause := by
  induction inputs with
  | nil => simp [pure, Except.pure]
  | cons first rest ih =>
      rw [List.mapM_cons]
      cases here : read first with
      | error fault =>
          change Except.error fault = Except.error cause ↔ _
          apply Iff.intro
          · intro same
            cases same
            exact ⟨[], first, rest, rfl, by simp, here⟩
          · intro described
            obtain ⟨front, input, back, cut, readable, failed⟩ := described
            cases front with
            | nil =>
                obtain ⟨rfl, _⟩ := List.cons.inj cut
                rw [here] at failed
                cases failed
                rfl
            | cons entry front =>
                obtain ⟨rfl, _⟩ := List.cons.inj cut
                obtain ⟨output, accepted⟩ := readable first List.mem_cons_self
                rw [here] at accepted
                contradiction
      | ok output =>
          have passed : (do return output :: (← rest.mapM read)) = .error cause ↔
              rest.mapM read = .error cause := by
            cases rest.mapM read <;> simp [bind, Except.bind, pure, Except.pure]
          rw [ok_bind, passed, ih]
          apply Iff.intro
          · intro described
            obtain ⟨front, input, back, rfl, readable, failed⟩ := described
            refine ⟨first :: front, input, back, rfl, ?_, failed⟩
            intro earlier member
            rcases List.mem_cons.mp member with rfl | member
            · exact ⟨output, here⟩
            · exact readable earlier member
          · intro described
            obtain ⟨front, input, back, cut, readable, failed⟩ := described
            cases front with
            | nil =>
                obtain ⟨rfl, _⟩ := List.cons.inj cut
                rw [here] at failed
                contradiction
            | cons entry front =>
                obtain ⟨rfl, rfl⟩ := List.cons.inj cut
                exact ⟨front, input, back, rfl,
                  fun earlier member => readable earlier (List.mem_cons_of_mem _ member), failed⟩

theorem map_eq_error_iff {result : Except ε α} {change : α → β} {cause : ε} :
    result.map change = .error cause ↔ result = .error cause := by
  cases result <;> simp [Except.map]

theorem exists_related {related : α → β → Prop} {inputs : List α} {outputs : List β}
    (pairs : List.Forall₂ related inputs outputs) {input : α} (member : input ∈ inputs) :
    ∃ output ∈ outputs, related input output := by
  induction pairs with
  | nil => cases member
  | @cons first result inputs outputs here _ ih =>
      rcases List.mem_cons.mp member with rfl | later
      · exact ⟨result, List.mem_cons_self, here⟩
      · obtain ⟨output, among, found⟩ := ih later
        exact ⟨output, List.mem_cons_of_mem _ among, found⟩

/-! ### The errors of a computation -/

/-- Every error that the computation can end in is one of the allowed. -/
def FailsOnly (allowed : ε → Prop) (computation : Except ε α) : Prop :=
  ∀ cause, computation = .error cause → allowed cause

variable {allowed : ε → Prop}

theorem failsOnly_ok (value : α) : FailsOnly allowed (.ok value : Except ε α) := by
  intro cause failed
  cases failed

theorem failsOnly_error {cause : ε} (known : allowed cause) :
    FailsOnly allowed (.error cause : Except ε α) := by
  intro other failed
  cases failed
  exact known

theorem failsOnly_ite {condition : Prop} [Decidable condition] {left right : Except ε α}
    (failsLeft : FailsOnly allowed left) (failsRight : FailsOnly allowed right) :
    FailsOnly allowed (if condition then left else right) := by
  split
  · exact failsLeft
  · exact failsRight

theorem failsOnly_bind_of_ok {first : Except ε α} {next : α → Except ε β}
    (failsFirst : FailsOnly allowed first)
    (failsNext : ∀ value, first = .ok value → FailsOnly allowed (next value)) :
    FailsOnly allowed (first >>= next) := by
  cases first with
  | error cause =>
      intro other failed
      cases failed
      exact failsFirst cause rfl
  | ok value => exact failsNext value rfl

theorem failsOnly_bind {first : Except ε α} {next : α → Except ε β}
    (failsFirst : FailsOnly allowed first) (failsNext : ∀ value, FailsOnly allowed (next value)) :
    FailsOnly allowed (first >>= next) :=
  failsOnly_bind_of_ok failsFirst fun value _ => failsNext value

theorem failsOnly_mapM {read : α → Except ε β} (fails : ∀ input, FailsOnly allowed (read input))
    (inputs : List α) : FailsOnly allowed (inputs.mapM read) := by
  induction inputs with
  | nil => exact failsOnly_ok []
  | cons input inputs ih =>
      rw [List.mapM_cons]
      exact failsOnly_bind (fails input) fun _ => failsOnly_bind ih fun _ => failsOnly_ok _

theorem failsOnly_foldlM {step : β → α → Except ε β} {inputs : List α}
    (fails : ∀ state, ∀ input ∈ inputs, FailsOnly allowed (step state input)) (state : β) :
    FailsOnly allowed (inputs.foldlM step state) := by
  induction inputs generalizing state with
  | nil => exact failsOnly_ok state
  | cons input inputs ih =>
      rw [List.foldlM_cons]
      exact failsOnly_bind (fails state input (by simp))
        (ih fun next entry member => fails next entry (by simp [member]))

end RequestLine
