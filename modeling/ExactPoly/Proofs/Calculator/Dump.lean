import ExactPoly.Proofs.Calculator.Line
import ExactPoly.Proofs.Calculator.Reachable
import ExactPoly.Proofs.Text.RoundTrip
import ExactPoly.Proofs.Text.Words

namespace ExactPoly

/-! A stack written out as a line.

The text of a polynomial is one word, and no word of the command language is the
text of a polynomial.  So polynomials written one after another are a line that
pushes them.
-/

namespace Poly.Literal

def marks : List Char := ['/', 'N', 'a', '*', 'x', '^', '+', '-']

theorem mem_text {l : Literal} {c : Char} (member : c ∈ l.text) :
    c.isDigit = true ∨ c ∈ marks := by
  have ofSign (s : Sign) (same : c = s.char) : c ∈ marks := by
    subst same
    cases s <;> decide
  have ofTerm (t : Term.Literal) (inTerm : c ∈ t.text) : c.isDigit = true ∨ c ∈ marks :=
    (Term.Literal.mem_text inTerm).imp_right fun mark => List.mem_append_left ['+', '-'] mark
  rcases List.mem_append.mp member with inFirst | inRest
  · rcases List.mem_append.mp inFirst with inSign | inTerm
    · obtain ⟨s, -, same⟩ := List.mem_map.mp inSign
      exact .inr (ofSign s same.symm)
    · exact ofTerm l.first inTerm
  · obtain ⟨⟨s, t⟩, -, inPiece⟩ := List.mem_flatMap.mp inRest
    rcases List.mem_cons.mp inPiece with same | inTerm
    · exact .inr (ofSign s same)
    · exact ofTerm t inTerm

end Poly.Literal

theorem Text.isBlank_of_isDigit {c : Char} (digit : c.isDigit = true) : isBlank c = false := by
  have bounds : 48 ≤ c.toNat ∧ c.toNat ≤ 57 := by
    simpa [Char.isDigit, UInt32.le_iff_toNat_le] using digit
  simp only [isBlank, Bool.or_eq_false_iff, Bool.and_eq_false_imp, decide_eq_true_eq,
    decide_eq_false_iff_not, beq_eq_false_iff_ne]
  omega

namespace Poly

variable {p : Poly} {text : List Char}

theorem read_mem (accepted : read text = .ok p) {c : Char} (member : c ∈ text) :
    Text.isBlank c = false ∧ c ≠ '#' := by
  obtain ⟨l, rfl, -⟩ := exists_literal accepted
  rcases Literal.mem_text member with digit | mark
  · refine ⟨Text.isBlank_of_isDigit digit, ?_⟩
    rintro rfl
    contradiction
  · have apart : Literal.marks.all (fun c => !Text.isBlank c && c != '#') = true := by decide
    simpa using List.all_eq_true.mp apart c mark

theorem unbroken_of_read (accepted : read text = .ok p) : Text.Unbroken text := by
  refine ⟨?_, fun c member => (read_mem accepted member).1⟩
  rintro rfl
  contradiction

end Poly

namespace Command

variable {word text : List Char} {list : List (List Char)} {p : Poly} {polys : List Poly}

/-- The words that the command language keeps for itself. -/
def reserved : List String :=
  keywords.map Prod.fst ++ ["push", "eval", "defint"]

theorem ne_of_read (accepted : Poly.read word = .ok p) {name : String}
    (member : name ∈ reserved) : word ≠ name.toList := by
  have refused : ∀ name ∈ reserved, (Poly.read name.toList).toOption = none := by decide
  rintro rfl
  have none := refused name member
  rw [accepted] at none
  contradiction

theorem arity_of_read (accepted : Poly.read word = .ok p) : arity word = 0 := by
  rw [arity, if_neg (ne_of_read accepted (by decide)), if_neg (ne_of_read accepted (by decide)),
    if_neg (ne_of_read accepted (by decide))]

theorem ofWord_of_read (accepted : Poly.read word = .ok p) (rest : List (List Char)) :
    ofWord word rest = .ok (push p) := by
  have noKeyword : keywords.lookup (String.ofList word) = none := by
    rw [List.lookup_eq_none_iff]
    intro entry member
    rw [bne_iff_ne]
    rintro same
    have kept : entry.1 ∈ reserved := List.mem_append_left _ (List.mem_map_of_mem member)
    exact ne_of_read accepted kept (by rw [← same, String.toList_ofList])
  unfold ofWord
  rw [noKeyword]
  dsimp only
  rw [if_neg (ne_of_read accepted (by decide)), if_neg (ne_of_read accepted (by decide)),
    if_neg (ne_of_read accepted (by decide)), readPoly, accepted]
  rfl

theorem ofWords_of_read
    (accepted : List.Forall₂ (fun word p => Poly.read word = .ok p) list polys) :
    ofWords list = .ok (polys.map push) := by
  induction accepted with
  | nil => exact ofWords_nil
  | cons first _ ih =>
      refine ofWords_cons (ofWord_of_read first _) ?_
      rw [arity_of_read first, List.drop_zero]
      exact ih

/-- Polynomials with gaps between them are read as their pushes. -/
theorem readLine_of_spaced (spaced : Text.Spaced list text)
    (accepted : List.Forall₂ (fun word p => Poly.read word = .ok p) list polys) :
    Text.words (code text) = list ∧ readLine text = .ok (polys.map push) := by
  have each : ∀ word ∈ list, ∃ p, Poly.read word = .ok p := fun word member =>
    have ⟨p, _, read⟩ := exists_input accepted.flip member
    ⟨p, read⟩
  have noComment : '#' ∉ text := by
    intro member
    rcases spaced.mem member with blank | ⟨word, listed, inWord⟩
    · contradiction
    · obtain ⟨p, accepted⟩ := each word listed
      exact (Poly.read_mem accepted inWord).2 rfl
  have split : Text.words (code text) = list := by
    rw [code_of_absent noComment]
    refine Text.words_of_spaced spaced fun word listed => ?_
    obtain ⟨p, accepted⟩ := each word listed
    exact Poly.unbroken_of_read accepted
  exact ⟨split, readLine_of_words split (ofWords_of_read accepted)⟩

end Command

namespace Stack

variable {s : Stack} {text : List Char} {p : Poly}

theorem completed_pushes (s : Stack) (polys : List Poly) :
    Completed execute s (polys.map .push) (polys.map fun _ => none) (s.pushAll polys) := by
  induction polys generalizing s with
  | nil => exact .nil s
  | cons p rest ih => exact .cons rfl (ih (s.push p))

theorem executeAll_pushes (s : Stack) (polys : List Poly) :
    s.executeAll (polys.map .push) = .ok ⟨s.pushAll polys, .ok []⟩ := by
  have silent : (polys.map fun _ => (none : Option Output)).flatMap Option.toList = [] :=
    List.flatMap_eq_nil_iff.mpr (List.forall_mem_map.mpr fun _ _ => rfl)
  rw [executeAll_completed (completed_pushes s polys), silent]

theorem pushAll_bottomFirst (s : Stack) : empty.pushAll s.bottomFirst = s :=
  bottomFirst_injective (bottomFirst_pushAll empty s.bottomFirst)

/-- The texts of a stack's polynomials, from the bottom up and with any gaps between
them, are a line that pushes one polynomial for each; and from the empty stack that
line restores the stack, unless some numerator is the least one. -/
theorem executeLine_dump (held : s.Grounded)
    (dump : Text.Spaced (s.bottomFirst.map Poly.print) text) :
    (Text.words (Command.code text) = s.bottomFirst.map Poly.print ∧
      ∃ polys, List.Forall₂ (fun p q => Poly.read p.print = .ok q) s.bottomFirst polys ∧
        Command.readLine text = .ok (polys.map .push)) ∧
    ((∀ p ∈ s.polys, ∀ t ∈ p.terms, ¬ t.coeff.Least) →
      empty.executeLine text = .ok ⟨s, .ok []⟩) := by
  constructor
  · obtain ⟨polys, reread⟩ :
        ∃ polys, List.Forall₂ (fun p q => Poly.read p.print = .ok q) s.bottomFirst polys :=
      exists_outputs fun p _ => Poly.exists_read_print p
    have ⟨split, read⟩ :=
      Command.readLine_of_spaced dump (List.forall₂_map_left_iff.mpr reread)
    exact ⟨split, polys, reread, read⟩
  · intro noneLeast
    have restored : List.Forall₂ (fun p q => Poly.read p.print = .ok q) s.bottomFirst
        s.bottomFirst := List.forall₂_same.mpr fun p member =>
      have inStack := List.mem_reverse.mp member
      Poly.read_print_of_not_least (held p inStack).wellFormed
        (noneLeast p inStack)
    have ⟨_, read⟩ := Command.readLine_of_spaced dump (List.forall₂_map_left_iff.mpr restored)
    rw [executeLine_of_read read, executeAll_pushes, pushAll_bottomFirst]

theorem zero_and_nan_dump :
    let s : Stack := ⟨[.nan, 0, (Poly.monomial (-3) ⟨2, by decide⟩).add (.monomial 1 1)]⟩
    let text := "-3*x^2+x \t0\u3000NaN".toList
    s.Grounded ∧ Text.Spaced (s.bottomFirst.map Poly.print) text ∧
      (∀ p ∈ s.polys, ∀ t ∈ p.terms, ¬ t.coeff.Least) ∧
      empty.executeLine text = .ok ⟨s, .ok []⟩ := by
  intro s text
  have held : s.Grounded := by
    refine List.forall_mem_cons.mpr ⟨.nan, List.forall_mem_cons.mpr ⟨.zero, ?_⟩⟩
    exact List.forall_mem_singleton.mpr ((Poly.Reachable.monomial _ _).add (.monomial _ _))
  have texts : s.bottomFirst.map Poly.print = ["-3*x^2+x".toList, ['0'], Coeff.nanText] := by decide
  have joined : text =
      "-3*x^2+x".toList ++ [' ', '\t'] ++ (['0'] ++ ['\u3000'] ++ Coeff.nanText) := by
    decide
  have dump : Text.Spaced (s.bottomFirst.map Poly.print) text := by
    rw [texts, joined]
    have narrow : Text.Gap [' ', '\t'] :=
      ⟨by decide, List.forall_mem_cons.mpr ⟨rfl, List.forall_mem_singleton.mpr rfl⟩⟩
    have wide : Text.Gap ['\u3000'] := ⟨by decide, List.forall_mem_singleton.mpr rfl⟩
    exact .cons _ narrow (.cons _ wide (.single _))
  have noneLeast : ∀ p ∈ s.polys, ∀ t ∈ p.terms, ¬ t.coeff.Least := by decide
  exact ⟨held, dump, noneLeast, (executeLine_dump held dump).2 noneLeast⟩

end Stack

end ExactPoly
