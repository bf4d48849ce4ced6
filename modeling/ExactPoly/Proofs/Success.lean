import Mathlib.Data.List.Forall2

namespace ExactPoly

/-! When computations that can fail succeed.

A bound computation succeeds exactly when both parts do, and a traversal exactly
when it does at every element.  The error of a traversal is that of an element.
-/

variable {ε α β : Type}

theorem bind_ok_iff {x : Except ε α} {f : α → Except ε β} {b : β} :
    x >>= f = .ok b ↔ ∃ a, x = .ok a ∧ f a = .ok b := by
  cases x <;> simp [bind, Except.bind]

theorem ok_bind (a : α) (f : α → Except ε β) : (Except.ok a >>= f) = f a :=
  rfl

theorem map_ok_iff {x : Except ε α} {f : α → β} {b : β} :
    x.map f = .ok b ↔ ∃ a, x = .ok a ∧ f a = b := by
  cases x <;> simp [Except.map]

theorem mapError_ok_iff {ε' : Type} {x : Except ε α} {f : ε → ε'} {a : α} :
    x.mapError f = .ok a ↔ x = .ok a := by
  cases x <;> simp [Except.mapError]

theorem bind_error_iff {x : Except ε α} {f : α → Except ε β} {e : ε} :
    x >>= f = .error e ↔ x = .error e ∨ ∃ a, x = .ok a ∧ f a = .error e := by
  cases x <;> simp [bind, Except.bind]

theorem map_error_iff {x : Except ε α} {f : α → β} {e : ε} :
    x.map f = .error e ↔ x = .error e := by
  cases x <;> simp [Except.map]

theorem mapM_ok_iff {f : α → Except ε β} {inputs : List α} {outputs : List β} :
    inputs.mapM f = .ok outputs ↔ List.Forall₂ (fun a b => f a = .ok b) inputs outputs := by
  induction inputs generalizing outputs with
  | nil =>
      rw [List.mapM_nil, List.forall₂_nil_left_iff]
      exact ⟨fun done => (Except.ok.inj done).symm, fun empty => congrArg Except.ok empty.symm⟩
  | cons a rest ih =>
      rw [List.mapM_cons, bind_ok_iff]
      constructor
      · intro traversed
        obtain ⟨b, first, remaining⟩ := traversed
        obtain ⟨bs, tail, done⟩ := bind_ok_iff.mp remaining
        cases done
        exact .cons first (ih.mp tail)
      · intro related
        cases related with
        | cons first tail => exact ⟨_, first, bind_ok_iff.mpr ⟨_, ih.mpr tail, rfl⟩⟩

theorem exists_input {R : α → β → Prop} {inputs : List α} {outputs : List β} {b : β}
    (related : List.Forall₂ R inputs outputs) (member : b ∈ outputs) : ∃ a ∈ inputs, R a b := by
  induction related with
  | nil => contradiction
  | cons first _ ih =>
      rcases List.mem_cons.mp member with rfl | member
      · exact ⟨_, List.mem_cons_self .., first⟩
      · obtain ⟨a, inRest, related⟩ := ih member
        exact ⟨a, List.mem_cons_of_mem _ inRest, related⟩

theorem exists_outputs {R : α → β → Prop} {inputs : List α}
    (defined : ∀ a ∈ inputs, ∃ b, R a b) : ∃ outputs, List.Forall₂ R inputs outputs := by
  induction inputs with
  | nil => exact ⟨[], .nil⟩
  | cons a rest ih =>
      obtain ⟨⟨b, first⟩, others⟩ := List.forall_mem_cons.mp defined
      obtain ⟨bs, each⟩ := ih others
      exact ⟨b :: bs, .cons first each⟩

theorem mapM_error {f : α → Except ε β} {inputs : List α} {e : ε}
    (failed : inputs.mapM f = .error e) : ∃ a ∈ inputs, f a = .error e := by
  induction inputs with
  | nil => contradiction
  | cons a rest ih =>
      rw [List.mapM_cons] at failed
      rcases bind_error_iff.mp failed with first | ⟨b, -, remaining⟩
      · exact ⟨a, List.mem_cons_self .., first⟩
      · rcases bind_error_iff.mp remaining with others | ⟨bs, -, done⟩
        · obtain ⟨c, member, found⟩ := ih others
          exact ⟨c, List.mem_cons_of_mem _ member, found⟩
        · contradiction

theorem mapM_error_iff {f : α → Except ε β} {inputs : List α} :
    (∃ e, inputs.mapM f = .error e) ↔ ∃ a ∈ inputs, ∃ e, f a = .error e := by
  constructor
  · rintro ⟨e, failed⟩
    obtain ⟨a, member, found⟩ := mapM_error failed
    exact ⟨a, member, e, found⟩
  · rintro ⟨a, member, e, found⟩
    cases traversed : inputs.mapM f with
    | error cause => exact ⟨cause, rfl⟩
    | ok outputs =>
        obtain ⟨b, -, done⟩ := exists_input (mapM_ok_iff.mp traversed).flip member
        rw [found] at done
        contradiction

theorem mapM_mapError {ε' : Type} (f : α → Except ε β) (g : ε → ε') (inputs : List α) :
    inputs.mapM (fun a => (f a).mapError g) = (inputs.mapM f).mapError g := by
  induction inputs with
  | nil => rfl
  | cons a rest ih =>
      rw [List.mapM_cons, List.mapM_cons, ih]
      cases f a with
      | error cause => rfl
      | ok b => cases rest.mapM f <;> rfl

end ExactPoly
