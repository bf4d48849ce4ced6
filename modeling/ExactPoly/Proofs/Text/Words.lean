import ExactPoly.Text

namespace ExactPoly.Text

/-! Words and the gaps between them.

The words of a text are found again whatever the blanks between them are.
-/

variable {word gap text : List Char} {list : List (List Char)} {c : Char}

def Unbroken (word : List Char) : Prop :=
  word ≠ [] ∧ ∀ c ∈ word, isBlank c = false

def Gap (gap : List Char) : Prop :=
  gap ≠ [] ∧ ∀ c ∈ gap, isBlank c = true

/-- Words one after another with a gap between each two. -/
inductive Spaced : List (List Char) → List Char → Prop where
  | nil : Spaced [] []
  | single (word : List Char) : Spaced [word] word
  | cons {next gap text : List Char} {list : List (List Char)} (word : List Char)
      (apart : Gap gap) (rest : Spaced (next :: list) text) :
      Spaced (word :: next :: list) (word ++ gap ++ text)

theorem words_append_cons (blank : isBlank c = true) (before after : List Char) :
    words (before ++ c :: after) = words before ++ words after := by
  unfold words
  rw [List.splitOnP_append_cons before after blank, List.filter_append]

theorem words_append_gap (apart : Gap gap) (before after : List Char) :
    words (before ++ gap ++ after) = words before ++ words after := by
  obtain ⟨nonempty, blank⟩ := apart
  induction gap generalizing before with
  | nil => contradiction
  | cons c rest ih =>
      obtain ⟨first, others⟩ := List.forall_mem_cons.mp blank
      rw [List.append_assoc, List.cons_append, words_append_cons first]
      cases rest with
      | nil => rfl
      | cons d rest =>
          have dropped := ih [] (List.cons_ne_nil d rest) others
          rw [List.nil_append] at dropped
          rw [dropped]
          rfl

theorem words_of_unbroken (unbroken : Unbroken word) : words word = [word] := by
  unfold words
  rw [List.splitOnP_eq_singleton unbroken.2]
  exact List.filter_cons_of_pos (by simpa using unbroken.1)

theorem words_of_spaced (spaced : Spaced list text) (each : ∀ word ∈ list, Unbroken word) :
    words text = list := by
  induction spaced with
  | nil => rfl
  | single word => exact words_of_unbroken (each word (List.mem_singleton_self word))
  | cons word apart _ ih =>
      obtain ⟨first, others⟩ := List.forall_mem_cons.mp each
      rw [words_append_gap apart, words_of_unbroken first, ih others]
      rfl

theorem Spaced.mem (spaced : Spaced list text) (member : c ∈ text) :
    isBlank c = true ∨ ∃ word ∈ list, c ∈ word := by
  induction spaced with
  | nil => contradiction
  | single word => exact .inr ⟨word, List.mem_singleton_self word, member⟩
  | cons word apart _ ih =>
      rcases List.mem_append.mp member with inFirst | inRest
      · rcases List.mem_append.mp inFirst with inWord | inGap
        · exact .inr ⟨word, List.mem_cons_self .., inWord⟩
        · exact .inl (apart.2 c inGap)
      · refine (ih inRest).imp_right ?_
        rintro ⟨other, listed, inOther⟩
        exact ⟨other, List.mem_cons_of_mem word listed, inOther⟩

end ExactPoly.Text
