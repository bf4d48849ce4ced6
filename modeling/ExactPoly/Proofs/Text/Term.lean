import ExactPoly.Proofs.Text.Coeff

namespace ExactPoly

/-! Reading terms.

The reader of terms splits a text at its first `x`.  What it accepts before and
after the `x` are the head and the optional exponent of a signed literal.  Without
signs the head is the optional coefficient of a literal.
-/

def Text.Numeral.exponent (m : Text.Numeral 4294967295) : Exponent :=
  ⟨m.value, m.bounded⟩

theorem Exponent.read_ok_iff {text : List Char} {e : Exponent} :
    read text = .ok e ↔ ∃ m : Text.Numeral 4294967295, m.digits = text ∧ m.exponent = e := by
  have stored (m : Text.Numeral 4294967295) : ofNat? m.value = some m.exponent :=
    dif_pos m.bounded
  unfold read
  rw [bind_ok_iff]
  constructor
  · intro accepted
    obtain ⟨n, digits, built⟩ := accepted
    obtain ⟨m, spelled, rfl⟩ := Text.readNatural_ok_iff.mp digits
    rw [stored] at built
    exact ⟨m, spelled, Except.ok.inj built⟩
  · intro spelled
    obtain ⟨m, digits, rfl⟩ := spelled
    refine ⟨m.value, Text.readNatural_ok_iff.mpr ⟨m, digits, rfl⟩, ?_⟩
    rw [stored]
    rfl

namespace Term

variable {text head tail whole : List Char} {c : Coeff} {e : Exponent} {t : Term}

theorem read_constant (nonempty : text ≠ []) (constant : 'x' ∉ text) :
    read text = ((Coeff.read text).mapError .coefficient).map (make · 0) := by
  rw [read, if_neg nonempty, Text.dropWhile_ne_of_absent constant]
  rfl

theorem read_power (first : 'x' ∉ head) (tail : List Char) :
    read (head ++ 'x' :: tail) = do
      let coeff ← readHead (head ++ 'x' :: tail) head
      let exponent ← readTail (head ++ 'x' :: tail) tail
      return make coeff exponent := by
  rw [read, if_neg (by simp), Text.dropWhile_ne_append first, Text.takeWhile_ne_append first]

/-- The stored form of what stands before the variable. -/
def Head.coeff : Head → Coeff
  | absent => 1
  | minus => -1
  | factor coeff => coeff.coeff

def Literal.tailExponent : Option (Text.Numeral 4294967295) → Exponent
  | none => 1
  | some exponent => exponent.exponent

/-- The stored form of what is written. -/
def SignedLiteral.term : SignedLiteral → Term
  | constant coeff => make coeff.coeff 0
  | power head exponent? => make head.coeff (Literal.tailExponent exponent?)

theorem readHead_ok_iff :
    readHead whole head = .ok c ↔ ∃ h : Head, h.text = head ∧ h.coeff = c := by
  constructor
  · intro accepted
    unfold readHead at accepted
    split at accepted
    · rename_i empty
      exact ⟨.absent, empty.symm, Except.ok.inj accepted⟩
    · split at accepted
      · rename_i minus
        exact ⟨.minus, minus.symm, Except.ok.inj accepted⟩
      · split at accepted
        · rename_i star
          obtain ⟨before, rfl⟩ := List.getLast?_eq_some_iff.mp star
          rw [List.dropLast_concat, mapError_ok_iff] at accepted
          obtain ⟨l, rfl, stored⟩ := Coeff.read_ok_iff.mp accepted
          exact ⟨.factor l, rfl, stored⟩
        · contradiction
  · intro spelled
    obtain ⟨h, rfl, rfl⟩ := spelled
    cases h with
    | absent => rfl
    | minus => rfl
    | factor l =>
        have notMinus : l.text ++ ['*'] ≠ ['-'] := fun same =>
          absurd (congrArg List.getLast? same) (by simp)
        rw [Head.text, readHead, if_neg (by simp), if_neg notMinus, if_pos (by simp),
          List.dropLast_concat, l.read_text]
        rfl

theorem readTail_ok_iff :
    readTail whole tail = .ok e ↔
      ∃ exponent?, Literal.tailText exponent? = tail ∧ Literal.tailExponent exponent? = e := by
  constructor
  · intro accepted
    unfold readTail at accepted
    split at accepted
    · exact ⟨none, rfl, Except.ok.inj accepted⟩
    · split at accepted
      · contradiction
      · rw [mapError_ok_iff] at accepted
        obtain ⟨m, rfl, stored⟩ := Exponent.read_ok_iff.mp accepted
        exact ⟨some m, rfl, stored⟩
    · contradiction
  · intro spelled
    obtain ⟨exponent?, rfl, rfl⟩ := spelled
    cases exponent? with
    | none => rfl
    | some m =>
        have noPlus : m.digits.head? ≠ some '+' := fun plus =>
          m.not_mem_digits rfl (List.mem_of_mem_head? plus)
        rw [Literal.tailText, readTail, if_neg noPlus, Exponent.read_ok_iff.mpr ⟨m, rfl, rfl⟩]
        rfl

theorem Head.x_not_mem_text (h : Head) : 'x' ∉ h.text := by
  cases h with
  | absent => exact List.not_mem_nil
  | minus => decide
  | factor coeff => simpa [text] using coeff.x_not_mem_text

theorem SignedLiteral.read_text (l : SignedLiteral) : read l.text = .ok l.term := by
  cases l with
  | constant coeff =>
      rw [text, read_constant coeff.text_ne_nil coeff.x_not_mem_text, coeff.read_text]
      rfl
  | power head exponent? =>
      rw [text, read_power head.x_not_mem_text, readHead_ok_iff.mpr ⟨head, rfl, rfl⟩,
        readTail_ok_iff.mpr ⟨exponent?, rfl, rfl⟩]
      rfl

theorem read_ok_iff :
    read text = .ok t ↔ ∃ l : SignedLiteral, l.text = text ∧ l.term = t := by
  constructor
  · intro accepted
    by_cases empty : text = []
    · rw [read, if_pos empty] at accepted
      contradiction
    by_cases power : 'x' ∈ text
    · obtain ⟨head, tail, rfl, first⟩ := List.eq_append_cons_of_mem power
      rw [read_power first] at accepted
      obtain ⟨coeff, headRead, remaining⟩ := bind_ok_iff.mp accepted
      obtain ⟨exponent, tailRead, built⟩ := bind_ok_iff.mp remaining
      obtain ⟨h, rfl, rfl⟩ := readHead_ok_iff.mp headRead
      obtain ⟨exponent?, rfl, rfl⟩ := readTail_ok_iff.mp tailRead
      exact ⟨.power h exponent?, rfl, Except.ok.inj built⟩
    · rw [read_constant empty power] at accepted
      obtain ⟨coeff, coeffRead, built⟩ := map_ok_iff.mp accepted
      obtain ⟨l, rfl, rfl⟩ := Coeff.read_ok_iff.mp (mapError_ok_iff.mp coeffRead)
      exact ⟨.constant l, rfl, built⟩
  · intro spelled
    obtain ⟨l, rfl, rfl⟩ := spelled
    exact l.read_text

namespace Literal

def headCoeff : Option Coeff.Literal → Coeff
  | none => 1
  | some coeff => coeff.coeff

/-- The stored form of what is written. -/
def term : Literal → Term
  | constant coeff => make coeff.coeff 0
  | power coeff? exponent? => make (headCoeff coeff?) (tailExponent exponent?)

def signedHead : Option Coeff.Literal → Head
  | none => .absent
  | some coeff => .factor coeff.signed

def signed : Literal → SignedLiteral
  | constant coeff => .constant coeff.signed
  | power coeff? exponent? => .power (signedHead coeff?) exponent?

theorem signed_text (l : Literal) : l.signed.text = l.text := by
  cases l with
  | constant coeff => exact coeff.signed_text
  | power coeff? exponent? =>
      cases coeff? with
      | none => rfl
      | some coeff =>
          simp only [signed, signedHead, SignedLiteral.text, Head.text, coeff.signed_text, text,
            headText]

theorem signed_term (l : Literal) : l.signed.term = l.term := by
  cases l with
  | constant coeff => simp only [signed, SignedLiteral.term, coeff.signed_coeff, term]
  | power coeff? exponent? =>
      cases coeff? with
      | none => rfl
      | some coeff =>
          simp only [signed, signedHead, SignedLiteral.term, Head.coeff, coeff.signed_coeff, term,
            headCoeff]

/-- Every character of a term is a digit or one of a few marks. -/
theorem mem_text {l : Literal} {c : Char} (member : c ∈ l.text) :
    c.isDigit = true ∨ c ∈ ['/', 'N', 'a', '*', 'x', '^'] := by
  have ofCoeff : ∀ coeff : Coeff.Literal, c ∈ coeff.text →
      c.isDigit = true ∨ c ∈ ['/', 'N', 'a', '*', 'x', '^'] := by
    intro coeff inCoeff
    refine (Coeff.Literal.mem_text inCoeff).imp_right fun other => ?_
    rcases other with rfl | inNaN
    · exact .head _
    · have marks : Coeff.nanText ⊆ ['/', 'N', 'a', '*', 'x', '^'] := by decide
      exact marks inNaN
  cases l with
  | constant coeff => exact ofCoeff coeff member
  | power coeff? exponent? =>
      rcases List.mem_append.mp member with inHead | inRest
      · cases coeff? with
        | none => contradiction
        | some coeff =>
            rcases List.mem_append.mp inHead with inCoeff | star
            · exact ofCoeff coeff inCoeff
            · exact .inr (by simp [List.mem_singleton.mp star])
      · rcases List.mem_cons.mp inRest with rfl | inTail
        · exact .inr (by simp)
        · cases exponent? with
          | none => contradiction
          | some exponent =>
              rcases List.mem_cons.mp inTail with rfl | digit
              · exact .inr (by simp)
              · exact .inl (exponent.decimal c digit)

theorem text_ne_nil (l : Literal) : l.text ≠ [] := by
  cases l with
  | constant coeff => exact coeff.text_ne_nil
  | power coeff? exponent? => exact List.append_ne_nil_of_right_ne_nil _ (List.cons_ne_nil _ _)

theorem signFree_text (l : Literal) : SignFree l.text := by
  intro c member
  rcases mem_text member with digit | mark
  · exact signFree_of_isDigit digit
  · have noSign : ∀ c ∈ ['/', 'N', 'a', '*', 'x', '^'], Poly.isSign c = false := by
      simp [Poly.isSign]
    exact noSign c mark

theorem read_text (l : Literal) : read l.text = .ok l.term := by
  rw [← l.signed_text, l.signed.read_text, l.signed_term]

end Literal

theorem SignedLiteral.exists_unsigned {l : SignedLiteral} (free : SignFree l.text) :
    ∃ u : Literal, u.signed = l := by
  cases l with
  | constant coeff =>
      obtain ⟨u, rfl⟩ := coeff.exists_unsigned free
      exact ⟨.constant u, rfl⟩
  | power head exponent? =>
      have headFree := (signFree_append.mp free).1
      cases head with
      | absent => exact ⟨.power none exponent?, rfl⟩
      | minus => exact absurd (signFree_cons.mp headFree).1 (by decide)
      | factor coeff =>
          obtain ⟨u, rfl⟩ := coeff.exists_unsigned (signFree_append.mp headFree).1
          exact ⟨.power (some u) exponent?, rfl⟩

theorem read_unsigned_iff (free : SignFree text) :
    read text = .ok t ↔ ∃ l : Literal, l.text = text ∧ l.term = t := by
  constructor
  · intro accepted
    obtain ⟨l, rfl, rfl⟩ := read_ok_iff.mp accepted
    obtain ⟨u, rfl⟩ := l.exists_unsigned free
    exact ⟨u, u.signed_text.symm, u.signed_term.symm⟩
  · intro spelled
    obtain ⟨l, rfl, rfl⟩ := spelled
    exact l.read_text

end Term

end ExactPoly
