import Mathlib.Data.List.TakeWhile
import ExactPoly.Poly
import ExactPoly.Proofs.Text.Integer

namespace ExactPoly

/-! Reading coefficients.

A text is read as a coefficient exactly when it is the text of a signed literal, and
then as the stored form of that literal.  Without signs it is the text of a literal.
-/

namespace Text

variable {mark : Char} {word rest text : List Char}

theorem takeWhile_ne_append (absent : mark ∉ word) (rest : List Char) :
    (word ++ mark :: rest).takeWhile (fun c => decide (c ≠ mark)) = word := by
  have kept : ∀ c ∈ word, decide (c ≠ mark) = true := fun c member =>
    decide_eq_true (fun same => absent (same ▸ member))
  rw [List.takeWhile_append_of_pos kept, List.takeWhile_cons_of_neg (by simp), List.append_nil]

theorem dropWhile_ne_append (absent : mark ∉ word) (rest : List Char) :
    (word ++ mark :: rest).dropWhile (fun c => decide (c ≠ mark)) = mark :: rest := by
  have kept : ∀ c ∈ word, decide (c ≠ mark) = true := fun c member =>
    decide_eq_true (fun same => absent (same ▸ member))
  rw [List.dropWhile_append_of_pos kept, List.dropWhile_cons_of_neg (by simp)]

theorem dropWhile_ne_of_absent (absent : mark ∉ word) :
    word.dropWhile (fun c => decide (c ≠ mark)) = [] :=
  List.dropWhile_eq_nil_iff.mpr fun _ member =>
    decide_eq_true (fun same => absent (same ▸ member))

end Text

def SignFree (text : List Char) : Prop :=
  ∀ c ∈ text, Poly.isSign c = false

theorem signFree_append {text more : List Char} :
    SignFree (text ++ more) ↔ SignFree text ∧ SignFree more :=
  List.forall_mem_append

theorem signFree_cons {c : Char} {text : List Char} :
    SignFree (c :: text) ↔ Poly.isSign c = false ∧ SignFree text :=
  List.forall_mem_cons

theorem signFree_of_isDigit {c : Char} (digit : c.isDigit = true) : Poly.isSign c = false := by
  rw [← Bool.not_eq_true]
  intro sign
  have cases : c = '+' ∨ c = '-' := by simpa [Poly.isSign] using sign
  rcases cases with rfl | rfl <;> contradiction

theorem Text.Integer.exists_plain {i : Text.Integer} (free : SignFree i.text) :
    ∃ magnitude, .plain magnitude = i := by
  cases i with
  | plain magnitude => exact ⟨magnitude, rfl⟩
  | minus magnitude => exact absurd (signFree_cons.mp free).1 (by decide)

namespace Coeff

variable {token text num den : List Char} {c : Coeff}

theorem readPart_ok_iff {n : Int} :
    readPart token = .ok n ↔ ∃ i : Text.Integer, i.text = token ∧ i.value = n := by
  by_cases plus : token.head? = some '+'
  · rw [readPart, if_pos plus]
    refine iff_of_false (fun failed => nomatch failed) fun spelled => ?_
    obtain ⟨i, rfl, -⟩ := spelled
    exact i.not_mem_text rfl (by decide) (List.mem_of_mem_head? plus)
  · rw [readPart, if_neg plus, mapError_ok_iff, Text.readInteger_ok_iff]

theorem read_nanText : read nanText = .ok nan :=
  rfl

theorem read_integer (nonempty : text ≠ []) (notNaN : text ≠ nanText) (whole : '/' ∉ text) :
    read text = (readPart text).map ofInt := by
  rw [read, if_neg nonempty, if_neg notNaN, Text.dropWhile_ne_of_absent whole]

theorem read_quotient (whole : '/' ∉ num) (den : List Char) :
    read (num ++ '/' :: den) = do
      let n ← readPart num
      let d ← readPart den
      return ofRatio ⟨n, d⟩ := by
  have notNaN : num ++ '/' :: den ≠ nanText := by
    intro same
    have member : '/' ∈ nanText := same ▸ List.mem_append_right num (.head den)
    exact absurd member (by decide)
  rw [read, if_neg (by simp), if_neg notNaN, Text.dropWhile_ne_append whole,
    Text.takeWhile_ne_append whole]

namespace SignedLiteral

/-- The stored form of what is written. -/
def coeff : SignedLiteral → Coeff
  | nan => .nan
  | integer num => ofInt num.value
  | quotient num den => ofRatio ⟨num.value, den.value⟩

theorem mem_text {l : SignedLiteral} {c : Char} (member : c ∈ l.text) :
    c.isDigit = true ∨ c ∈ ['-', '/', 'N', 'a'] := by
  have ofInteger {i : Text.Integer} (inInteger : c ∈ i.text) :
      c.isDigit = true ∨ c ∈ ['-', '/', 'N', 'a'] :=
    (Text.Integer.mem_text inInteger).imp_right fun minus => by simp [minus]
  cases l with
  | nan =>
      have marks : nanText ⊆ ['-', '/', 'N', 'a'] := by decide
      exact .inr (marks member)
  | integer num => exact ofInteger member
  | quotient num den =>
      cases List.mem_append.mp member with
      | inl inNum => exact ofInteger inNum
      | inr inRest =>
          cases List.mem_cons.mp inRest with
          | inl slash => exact .inr (by simp [slash])
          | inr inDen => exact ofInteger inDen

theorem x_not_mem_text (l : SignedLiteral) : 'x' ∉ l.text := by
  intro member
  cases mem_text member with
  | inl digit => contradiction
  | inr mark => exact absurd mark (by decide)

theorem text_ne_nil (l : SignedLiteral) : l.text ≠ [] := by
  cases l with
  | nan => decide
  | integer num => exact num.text_ne_nil
  | quotient num den => exact List.append_ne_nil_of_right_ne_nil _ (List.cons_ne_nil _ _)

theorem read_text (l : SignedLiteral) : read l.text = .ok l.coeff := by
  have part (i : Text.Integer) : readPart i.text = .ok i.value :=
    readPart_ok_iff.mpr ⟨i, rfl, rfl⟩
  have whole (i : Text.Integer) : '/' ∉ i.text := i.not_mem_text rfl (by decide)
  cases l with
  | nan => exact read_nanText
  | integer num =>
      have notNaN : num.text ≠ nanText := fun same =>
        num.not_mem_text (c := 'N') rfl (by decide) (same ▸ .head _)
      rw [text, read_integer num.text_ne_nil notNaN (whole num), part]
      rfl
  | quotient num den =>
      rw [text, read_quotient (whole num), part, part]
      rfl

end SignedLiteral

theorem read_ok_iff :
    read text = .ok c ↔ ∃ l : SignedLiteral, l.text = text ∧ l.coeff = c := by
  constructor
  · intro accepted
    by_cases empty : text = []
    · rw [read, if_pos empty] at accepted
      contradiction
    by_cases isNaN : text = nanText
    · subst isNaN
      rw [read_nanText] at accepted
      exact ⟨.nan, rfl, Except.ok.inj accepted⟩
    by_cases divided : '/' ∈ text
    · obtain ⟨num, den, rfl, whole⟩ := List.eq_append_cons_of_mem divided
      rw [read_quotient whole] at accepted
      obtain ⟨n, numRead, remaining⟩ := bind_ok_iff.mp accepted
      obtain ⟨d, denRead, built⟩ := bind_ok_iff.mp remaining
      obtain ⟨numerator, rfl, rfl⟩ := readPart_ok_iff.mp numRead
      obtain ⟨denominator, rfl, rfl⟩ := readPart_ok_iff.mp denRead
      exact ⟨.quotient numerator denominator, rfl, Except.ok.inj built⟩
    · rw [read_integer empty isNaN divided] at accepted
      obtain ⟨n, numRead, rfl⟩ := map_ok_iff.mp accepted
      obtain ⟨numerator, rfl, rfl⟩ := readPart_ok_iff.mp numRead
      exact ⟨.integer numerator, rfl, rfl⟩
  · intro spelled
    obtain ⟨l, rfl, rfl⟩ := spelled
    exact l.read_text

namespace Literal

/-- The stored form of what is written. -/
def coeff : Literal → Coeff
  | nan => .nan
  | integer num => ofInt num.value
  | quotient num den => ofRatio ⟨num.value, den.value⟩

def signed : Literal → SignedLiteral
  | nan => .nan
  | integer num => .integer (.plain num)
  | quotient num den => .quotient (.plain num) (.plain den)

@[simp] theorem signed_text (l : Literal) : l.signed.text = l.text := by
  cases l <;> rfl

@[simp] theorem signed_coeff (l : Literal) : l.signed.coeff = l.coeff := by
  cases l <;> rfl

theorem mem_text {l : Literal} {c : Char} (member : c ∈ l.text) :
    c.isDigit = true ∨ c = '/' ∨ c ∈ nanText := by
  cases l with
  | nan => exact .inr (.inr member)
  | integer num => exact .inl (num.decimal c member)
  | quotient num den =>
      rcases List.mem_append.mp member with inNum | inRest
      · exact .inl (num.decimal c inNum)
      · rcases List.mem_cons.mp inRest with slash | inDen
        · exact .inr (.inl slash)
        · exact .inl (den.decimal c inDen)

theorem text_ne_nil (l : Literal) : l.text ≠ [] := by
  rw [← l.signed_text]
  exact l.signed.text_ne_nil

theorem signFree_text (l : Literal) : SignFree l.text := by
  intro c member
  rcases mem_text member with digit | rfl | inNaN
  · exact signFree_of_isDigit digit
  · rfl
  · have noSign : ∀ c ∈ nanText, Poly.isSign c = false := by simp [nanText, Poly.isSign]
    exact noSign c inNaN

theorem read_text (l : Literal) : read l.text = .ok l.coeff := by
  rw [← l.signed_text, l.signed.read_text, l.signed_coeff]

end Literal

theorem SignedLiteral.exists_unsigned {l : SignedLiteral} (free : SignFree l.text) :
    ∃ u : Literal, u.signed = l := by
  cases l with
  | nan => exact ⟨.nan, rfl⟩
  | integer num =>
      obtain ⟨magnitude, rfl⟩ := num.exists_plain free
      exact ⟨.integer magnitude, rfl⟩
  | quotient num den =>
      obtain ⟨numFree, rest⟩ := signFree_append.mp free
      obtain ⟨numerator, rfl⟩ := num.exists_plain numFree
      obtain ⟨denominator, rfl⟩ := den.exists_plain (signFree_cons.mp rest).2
      exact ⟨.quotient numerator denominator, rfl⟩

theorem exists_literal (free : SignFree text) (accepted : read text = .ok c) :
    ∃ l : Literal, l.text = text ∧ l.coeff = c := by
  obtain ⟨l, rfl, rfl⟩ := read_ok_iff.mp accepted
  obtain ⟨u, rfl⟩ := l.exists_unsigned free
  exact ⟨u, u.signed_text.symm, u.signed_coeff.symm⟩

end Coeff

end ExactPoly
