import ExactPoly.Proofs.Text.Term

namespace ExactPoly

/-! Reading sums.

The scan is followed from sign to sign: a text is a word without signs and then
pieces, each a sign with the word after it.  A text is read exactly when every
word is a literal, with the first word missing only before a sign.
-/

namespace Sign

def apply : Sign → Term → Term
  | plus, t => t
  | minus, t => t.neg

theorem isSign_char (s : Sign) : Poly.isSign s.char = true := by
  cases s <;> rfl

theorem exists_of_isSign {c : Char} (isSign : Poly.isSign c = true) : ∃ s : Sign, s.char = c := by
  have cases : c = '+' ∨ c = '-' := by simpa [Poly.isSign] using isSign
  rcases cases with rfl | rfl
  · exact ⟨.plus, rfl⟩
  · exact ⟨.minus, rfl⟩

end Sign

namespace Poly

namespace Literal

/-- The stored form of a signed term. -/
def stored (signed : Sign × Term.Literal) : Term :=
  signed.1.apply signed.2.term

def terms (l : Literal) : List Term :=
  l.signed.map stored

def poly (l : Literal) : Poly :=
  ofTerms (mergeAll [] l.terms)

def piece (signed : Sign × Term.Literal) : Sign × List Char :=
  (signed.1, signed.2.text)

end Literal

variable {word text segment : List Char} {sign : Option (Char × Nat)} {offset : Nat} {s : Sign}
  {terms results : List Term} {pieces : List (Sign × List Char)} {p : Poly}

theorem byteSize_cons (c : Char) (text : List Char) :
    byteSize (c :: text) = c.utf8Size + byteSize text := by
  have shift (rest : List Char) (size : Nat) :
      rest.foldl (fun size c => size + c.utf8Size) size = size + byteSize rest := by
    induction rest generalizing size with
    | nil => rfl
    | cons d rest ih =>
        rw [byteSize, List.foldl_cons, List.foldl_cons, ih, ih, Nat.zero_add, Nat.add_assoc]
  rw [byteSize, List.foldl_cons, shift, Nat.zero_add]

theorem readFrom_word (free : SignFree word) (rest : List Char) :
    readFrom sign segment offset terms (word ++ rest) =
      readFrom sign (word.reverse ++ segment) (offset + byteSize word) terms rest := by
  induction word generalizing segment offset with
  | nil => rfl
  | cons c word ih =>
      obtain ⟨noSign, wordFree⟩ := signFree_cons.mp free
      rw [List.cons_append, readFrom, if_neg (Bool.eq_false_iff.mp noSign), ih wordFree,
        byteSize_cons, Nat.add_assoc, List.reverse_cons, List.append_assoc]
      rfl

theorem readFrom_sign (s : Sign) (rest : List Char) :
    readFrom sign segment offset terms (s.char :: rest) =
      readSegment sign segment.reverse terms >>= fun merged =>
        readFrom (some (s.char, offset)) [] (offset + s.char.utf8Size) merged rest := by
  rw [readFrom, if_pos s.isSign_char]

def join (pieces : List (Sign × List Char)) : List Char :=
  pieces.flatMap fun (s, word) => s.char :: word

theorem exists_pieces (text : List Char) :
    ∃ word pieces, SignFree word ∧ (∀ piece ∈ pieces, SignFree piece.2) ∧
      word ++ join pieces = text := by
  induction text with
  | nil => exact ⟨[], [], List.forall_mem_nil _, List.forall_mem_nil _, rfl⟩
  | cons c rest ih =>
      obtain ⟨word, pieces, free, each, rfl⟩ := ih
      cases isSign : isSign c with
      | false => exact ⟨c :: word, pieces, signFree_cons.mpr ⟨isSign, free⟩, each, rfl⟩
      | true =>
          obtain ⟨s, rfl⟩ := Sign.exists_of_isSign isSign
          exact ⟨[], (s, word) :: pieces, List.forall_mem_nil _,
            List.forall_mem_cons.mpr ⟨free, each⟩, rfl⟩

theorem join_map_piece (rest : List (Sign × Term.Literal)) :
    join (rest.map Literal.piece) = rest.flatMap Literal.spell :=
  List.flatMap_map Literal.piece _ rest

theorem readSegment_signed (free : SignFree word) :
    readSegment (some (s.char, offset)) word terms = .ok results ↔
      ∃ l : Term.Literal, l.text = word ∧ mergeTerm terms (Literal.stored (s, l)) = results := by
  have applied (t : Term) :
      (if (some (s.char, offset)).map Prod.fst = some '-' then t.neg else t) = s.apply t := by
    cases s <;> rfl
  cases word with
  | nil =>
      exact iff_of_false (fun failed => nomatch failed)
        (fun ⟨l, empty, _⟩ => l.text_ne_nil empty)
  | cons c rest =>
      rw [readSegment, bind_ok_iff]
      simp only [applied, Term.read_unsigned_iff free]
      constructor
      · rintro ⟨_, ⟨l, spelled, rfl⟩, merged⟩
        exact ⟨l, spelled, Except.ok.inj merged⟩
      · rintro ⟨l, spelled, merged⟩
        exact ⟨l.term, ⟨l, spelled, rfl⟩, congrArg Except.ok merged⟩

theorem readFrom_signed (free : SignFree word) (each : ∀ piece ∈ pieces, SignFree piece.2)
    (position : Nat) :
    readFrom (some (s.char, position)) [] offset terms (word ++ join pieces) = .ok results ↔
      ∃ (first : Term.Literal) (rest : List (Sign × Term.Literal)), first.text = word ∧
        rest.map Literal.piece = pieces ∧
        mergeAll terms (((s, first) :: rest).map Literal.stored) = results := by
  rw [readFrom_word free, List.append_nil]
  -- The sign of the next piece ends the word before it, so each step settles one
  -- term and leaves the same statement for the terms merged so far.
  induction pieces generalizing s position offset terms word with
  | nil =>
      rw [join, List.flatMap_nil, readFrom, List.reverse_reverse, readSegment_signed free]
      constructor
      · rintro ⟨l, spelled, merged⟩
        exact ⟨l, [], spelled, rfl, merged⟩
      · rintro ⟨l, rest, spelled, none, merged⟩
        cases List.map_eq_nil_iff.mp none
        exact ⟨l, spelled, merged⟩
  | cons piece pieces ih =>
      obtain ⟨sign, next⟩ := piece
      obtain ⟨nextFree, eachFree⟩ := List.forall_mem_cons.mp each
      have unfolded : join ((sign, next) :: pieces) = sign.char :: (next ++ join pieces) := rfl
      rw [unfolded, readFrom_sign, List.reverse_reverse, bind_ok_iff]
      constructor
      · rintro ⟨merged, segment, scanned⟩
        obtain ⟨first, spelled, rfl⟩ := (readSegment_signed free).mp segment
        rw [readFrom_word nextFree, List.append_nil] at scanned
        obtain ⟨second, rest, secondSpelled, restSpelled, done⟩ :=
          (ih nextFree eachFree _).mp scanned
        refine ⟨first, (sign, second) :: rest, spelled, ?_, done⟩
        rw [List.map_cons, Literal.piece, secondSpelled, restSpelled]
      · rintro ⟨first, rest, spelled, split, done⟩
        obtain ⟨⟨_, second⟩, others, rfl, head, tail⟩ := List.map_eq_cons_iff.mp split
        cases head
        refine ⟨_, (readSegment_signed free).mpr ⟨first, spelled, rfl⟩, ?_⟩
        rw [readFrom_word nextFree, List.append_nil]
        exact (ih nextFree eachFree _).mpr ⟨second, others, rfl, tail, done⟩

/-- A first word without a sign counts as added. -/
theorem readFrom_unsigned (nonempty : word ≠ []) (free : SignFree word) (position : Nat) :
    readFrom none [] offset terms (word ++ join pieces) =
      readFrom (some (Sign.plus.char, position)) [] offset terms (word ++ join pieces) := by
  have same : readSegment none word terms =
      readSegment (some (Sign.plus.char, position)) word terms := by
    cases word with
    | nil => contradiction
    | cons c rest => rfl
  rw [readFrom_word free, readFrom_word free, List.append_nil]
  cases pieces with
  | nil => simpa only [join, List.flatMap_nil, readFrom, List.reverse_reverse] using same
  | cons piece pieces =>
      have unfolded : join (piece :: pieces) = piece.1.char :: (piece.2 ++ join pieces) := rfl
      rw [unfolded, readFrom_sign, readFrom_sign, List.reverse_reverse, same]

namespace Literal

theorem text_ne_nil (l : Literal) : l.text ≠ [] :=
  List.append_ne_nil_of_left_ne_nil
    (List.append_ne_nil_of_right_ne_nil _ l.first.text_ne_nil) _

theorem signFree_pieces (rest : List (Sign × Term.Literal)) :
    ∀ piece ∈ rest.map Literal.piece, SignFree piece.2 :=
  List.forall_mem_map.mpr fun signed _ => signed.2.signFree_text

theorem read_text (l : Literal) : read l.text = .ok l.poly := by
  obtain ⟨sign?, first, rest⟩ := l
  have scanned (s : Sign) (offset position : Nat) :
      readFrom (some (s.char, position)) [] offset [] (first.text ++ join (rest.map piece)) =
        .ok (mergeAll [] (((s, first) :: rest).map stored)) :=
    (readFrom_signed first.signFree_text (signFree_pieces rest) position).mpr
      ⟨first, rest, rfl, rfl, rfl⟩
  rw [join_map_piece] at scanned
  rw [read, if_neg (text_ne_nil _), text]
  cases sign? with
  | none =>
      have unsigned : readFrom none [] 0 [] (first.text ++ join (rest.map piece)) = _ :=
        readFrom_unsigned first.text_ne_nil first.signFree_text 0
      rw [join_map_piece, scanned] at unsigned
      rw [Option.toList_none, List.map_nil, List.nil_append, unsigned]
      rfl
  | some s =>
      have opened : [s.char] ++ first.text ++ rest.flatMap spell =
          s.char :: (first.text ++ rest.flatMap spell) := List.append_assoc ..
      rw [Option.toList_some, List.map_singleton, opened, readFrom_sign]
      exact congrArg (Except.map ofTerms) (scanned s _ _)

end Literal

theorem exists_literal (accepted : read text = .ok p) :
    ∃ l : Literal, l.text = text ∧ l.poly = p := by
  unfold read at accepted
  split at accepted
  · contradiction
  · rename_i nonempty
    obtain ⟨results, scanned, rfl⟩ := map_ok_iff.mp accepted
    obtain ⟨word, pieces, free, each, rfl⟩ := exists_pieces text
    by_cases empty : word = []
    · subst empty
      cases pieces with
      | nil => contradiction
      | cons piece pieces =>
          obtain ⟨s, next⟩ := piece
          obtain ⟨nextFree, eachFree⟩ := List.forall_mem_cons.mp each
          have unfolded : [] ++ join ((s, next) :: pieces) = s.char :: (next ++ join pieces) := rfl
          rw [unfolded, readFrom_sign] at scanned
          obtain ⟨first, rest, rfl, rfl, merged⟩ := (readFrom_signed nextFree eachFree _).mp scanned
          refine ⟨⟨some s, first, rest⟩, ?_, congrArg ofTerms merged⟩
          rw [unfolded, join_map_piece]
          exact List.append_assoc ..
    · rw [readFrom_unsigned empty free 0] at scanned
      obtain ⟨first, rest, rfl, rfl, merged⟩ := (readFrom_signed free each _).mp scanned
      refine ⟨⟨none, first, rest⟩, ?_, congrArg ofTerms merged⟩
      rw [join_map_piece]
      rfl

end Poly

end ExactPoly
