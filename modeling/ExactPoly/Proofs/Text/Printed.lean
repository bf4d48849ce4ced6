import ExactPoly.Proofs.Text.Term
import ExactPoly.Proofs.Term.Value

namespace ExactPoly

/-! Printed coefficients and terms.

A coefficient is printed as the text of a signed literal that stores it again.  A
negative term is printed as a minus sign and its negation, which is the text of its
own coefficient unless the negation does not exist.
-/

namespace Text.Integer

def ofInt (n : Int) (lower : -9223372036854775808 ≤ n) (upper : n ≤ 9223372036854775807) :
    Integer :=
  if negative : n < 0 then .minus (.ofNat n.natAbs (by omega))
  else .plain (.ofNat n.natAbs (by omega))

variable {n : Int} (lower : -9223372036854775808 ≤ n) (upper : n ≤ 9223372036854775807)

theorem text_ofInt : (ofInt n lower upper).text = printInteger n := by
  unfold ofInt printInteger
  split <;> rfl

theorem value_ofInt : (ofInt n lower upper).value = n := by
  unfold ofInt
  split
  · rw [value, Numeral.value_ofNat]
    omega
  · rw [value, Numeral.value_ofNat]
    omega

end Text.Integer

namespace Coeff

variable {c : Coeff}

theorem isNegative_iff : c.isNegative = true ↔ c.value.num < 0 := by
  cases c with
  | nan => decide
  | finite a => exact decide_eq_true_iff.trans Int.sign_neg_iff

theorem Least.isNegative (least : c.Least) : c.isNegative = true := by
  have num := (least_iff least.finite).mp least
  rw [isNegative_iff]
  omega

theorem isNegative_neg (negative : c.isNegative = true) : (-c).isNegative = false := by
  rw [← Bool.not_eq_true, isNegative_iff]
  rw [isNegative_iff] at negative
  by_cases isNaN : -c = nan
  · rw [isNaN]
    decide
  · rw [(neg_finite isNaN).2, Rat.neg_num]
    omega

theorem exists_signedLiteral_print (c : Coeff) :
    ∃ l : SignedLiteral, l.text = c.print ∧ l.coeff = c := by
  cases c with
  | nan => exact ⟨.nan, rfl, rfl⟩
  | finite a =>
      obtain ⟨lower, upper, denBound⟩ := a.inRange
      have stored : ofRat a.value = .finite a := ofRat_value (c := .finite a) Coeff.noConfusion
      let num : Text.Integer := .ofInt a.num lower upper
      let den : Text.Numeral 9223372036854775807 := .ofNat a.den (by omega)
      have numText : num.text = Text.printInteger a.num := Text.Integer.text_ofInt lower upper
      have numValue : num.value = a.num := Text.Integer.value_ofInt lower upper
      rw [print]
      split
      · rename_i whole
        refine ⟨.integer num, numText, ?_⟩
        rw [SignedLiteral.coeff, numValue, ofInt_eq, ← stored, a.value_eq_div, whole, Nat.cast_one,
          div_one]
      · refine ⟨.quotient num (.plain den), ?_, ?_⟩
        · rw [SignedLiteral.text, numText]
          rfl
        · have denValue : (Text.Integer.plain den).value = a.den :=
            congrArg Int.ofNat (Text.Numeral.value_ofNat _)
          have nonzero : (a.den : Int) ≠ 0 := Int.natCast_ne_zero.mpr (Nat.ne_of_gt a.den_pos)
          rw [SignedLiteral.coeff, numValue, denValue, ofRatio_eq nonzero, ← stored,
            a.value_eq_div]
          rfl

theorem read_printed (c : Coeff) : read c.print = .ok c :=
  read_ok_iff.mpr c.exists_signedLiteral_print

theorem signFree_print (nonneg : c.isNegative = false) : SignFree c.print := by
  have natural (n : Nat) : SignFree (Text.printNatural n) := fun c member =>
    signFree_of_isDigit (Nat.isDigit_of_mem_toDigits (by decide) (by decide) member)
  cases c with
  | nan => exact Literal.nan.signFree_text
  | finite a =>
      have notNegative : ¬ a.num < 0 :=
        mt (isNegative_iff (c := .finite a)).mpr (Bool.eq_false_iff.mp nonneg)
      have printed : Text.printInteger a.num = Text.printNatural a.num.natAbs := if_neg notNegative
      rw [print, printed]
      split
      · exact natural _
      · exact signFree_append.mpr ⟨natural _, signFree_cons.mpr ⟨rfl, natural _⟩⟩

theorem exists_literal_print (nonneg : c.isNegative = false) :
    ∃ l : Literal, l.text = c.print ∧ l.coeff = c :=
  exists_literal (signFree_print nonneg) c.read_printed

theorem print_of_negative (negative : c.isNegative = true) (notLeast : ¬ c.Least) :
    c.print = '-' :: (-c).print := by
  cases c with
  | nan => contradiction
  | finite a =>
      have below : a.num < 0 := (isNegative_iff (c := .finite a)).mp negative
      have signed : Text.printInteger a.num = '-' :: Text.printInteger (-a.num) := by
        rw [Text.printInteger, if_pos below, Text.printInteger, if_neg (by omega), Int.natAbs_neg]
      have kept : ¬ a.num = -9223372036854775808 := fun least => notLeast (congrArg some least)
      have negated : -finite a = Coeff.neg (finite a) := rfl
      rw [negated, Coeff.neg, dif_neg kept, print, print, signed]
      split <;> rfl

end Coeff

namespace Term

variable {t : Term} {c : Coeff}

theorem exists_tail (e : Exponent) :
    ∃ exponent?, (if e = 1 then ['x'] else 'x' :: '^' :: e.print) =
      'x' :: Literal.tailText exponent? ∧ Literal.tailExponent exponent? = e := by
  by_cases one : e = 1
  · exact ⟨none, if_pos one, one.symm⟩
  · exact ⟨some (.ofNat e.val e.val_le), if_neg one, Exponent.ext (Text.Numeral.value_ofNat _)⟩

/-- An unsigned term is printed as its coefficient, as its power or as both. -/
theorem printUnsigned_shape (c : Coeff) (e : Exponent) :
    (e = 0 ∧ printUnsigned c e = c.print) ∨
      ∃ exponent?, Literal.tailExponent exponent? = e ∧
        ((c = 1 ∧ printUnsigned c e = 'x' :: Literal.tailText exponent?) ∨
          printUnsigned c e = c.print ++ ['*'] ++ 'x' :: Literal.tailText exponent?) := by
  by_cases zero : e = 0
  · exact .inl ⟨zero, if_pos zero⟩
  · obtain ⟨exponent?, spelled, stored⟩ := exists_tail e
    refine .inr ⟨exponent?, stored, ?_⟩
    rw [printUnsigned, if_neg zero, spelled]
    by_cases one : c.isOne = true
    · exact .inl ⟨beq_iff_eq.mp one, if_pos one⟩
    · rw [if_neg one, List.append_assoc]
      exact .inr rfl

theorem exists_literal_printUnsigned (nonneg : c.isNegative = false) (e : Exponent) :
    ∃ l : Literal, l.text = printUnsigned c e ∧ l.term = make c e := by
  obtain ⟨coeff, spelled, stored⟩ := Coeff.exists_literal_print nonneg
  rcases printUnsigned_shape c e with
    ⟨zero, printed⟩ | ⟨exponent?, exponent, ⟨one, printed⟩ | printed⟩
  · exact ⟨.constant coeff, spelled.trans printed.symm, by rw [Literal.term, stored, zero]⟩
  · refine ⟨.power none exponent?, printed.symm, ?_⟩
    rw [Literal.term, Literal.headCoeff, exponent, one]
  · refine ⟨.power (some coeff) exponent?, ?_, ?_⟩
    · rw [printed, ← spelled]
      rfl
    · rw [Literal.term, Literal.headCoeff, stored, exponent]

/-- The minus sign before the negation is read as part of the coefficient. -/
theorem exists_signedLiteral_printUnsigned (negative : c.isNegative = true)
    (notLeast : ¬ c.Least) (e : Exponent) :
    ∃ l : SignedLiteral, l.text = '-' :: printUnsigned (-c) e ∧ l.term = make c e := by
  obtain ⟨coeff, spelled, stored⟩ := c.exists_signedLiteral_print
  rw [Coeff.print_of_negative negative notLeast] at spelled
  rcases printUnsigned_shape (-c) e with
    ⟨zero, printed⟩ | ⟨exponent?, exponent, ⟨one, printed⟩ | printed⟩
  · refine ⟨.constant coeff, ?_, ?_⟩
    · rw [printed, ← spelled]
      rfl
    · rw [SignedLiteral.term, stored, zero]
  · have finite : c ≠ .nan := by
      intro isNaN
      rw [isNaN] at negative
      contradiction
    have minusOne : -1 = c := by
      rw [← one, Coeff.neg_neg_of_not_least finite notLeast]
    refine ⟨.power .minus exponent?, ?_, ?_⟩
    · rw [printed]
      rfl
    · rw [SignedLiteral.term, Head.coeff, exponent, minusOne]
  · refine ⟨.power (.factor coeff) exponent?, ?_, ?_⟩
    · rw [printed, SignedLiteral.text, Head.text, spelled]
      rfl
    · rw [SignedLiteral.term, Head.coeff, stored, exponent]

theorem exists_signedLiteral_print (notLeast : ¬ t.coeff.Least) :
    ∃ l : SignedLiteral, l.text = t.print ∧ l.term = t := by
  by_cases isNaN : t.isNaN = true
  · rw [print, if_pos isNaN, eq_nan (isNaN_iff.mp isNaN)]
    exact ⟨.constant .nan, rfl, rfl⟩
  rw [print, if_neg isNaN]
  by_cases negative : t.coeff.isNegative = true
  · rw [if_pos negative]
    have printed := exists_signedLiteral_printUnsigned negative notLeast t.exponent
    rwa [t.make_parts] at printed
  · rw [if_neg negative]
    obtain ⟨l, spelled, stored⟩ :=
      exists_literal_printUnsigned (Bool.eq_false_iff.mpr negative) t.exponent
    rw [t.make_parts] at stored
    exact ⟨l.signed, l.signed_text.trans spelled, l.signed_term.trans stored⟩

/-- The negation of the least numerator is printed as NaN, and no coefficient reads as the
negation of NaN. -/
theorem read_printed_of_least (least : t.coeff.Least) :
    read t.print = .error (.coefficient (.invalidInteger "-NaN" .invalidDigit)) := by
  have notNaN : ¬ t.isNaN = true := mt isNaN_iff.mp least.finite
  have lost : -t.coeff = .nan := (Coeff.neg_eq_nan_iff least.finite).mpr least
  have refused : Coeff.read "-NaN".toList = .error (.invalidInteger "-NaN" .invalidDigit) := rfl
  rw [print, if_neg notNaN, if_pos least.isNegative, lost]
  rcases printUnsigned_shape .nan t.exponent with
    ⟨-, printed⟩ | ⟨exponent?, -, ⟨one, -⟩ | printed⟩
  · have text : '-' :: printUnsigned .nan t.exponent = "-NaN".toList := by
      rw [printed]
      rfl
    rw [text, read_constant (by decide) (by decide), refused]
    rfl
  · contradiction
  · have text : '-' :: printUnsigned .nan t.exponent =
        "-NaN*".toList ++ 'x' :: Literal.tailText exponent? := by
      rw [printed]
      rfl
    rw [text, read_power (by decide)]
    rfl

/-- The texts that are read, what they are read as, and that printed values read back, except for
terms with the least numerator. -/
theorem texts_and_round_trips :
    (∀ text c, Coeff.read text = .ok c ↔
        ∃ l : Coeff.SignedLiteral, l.text = text ∧ l.coeff = c) ∧
      (∀ text t, read text = .ok t ↔ ∃ l : SignedLiteral, l.text = text ∧ l.term = t) ∧
      (∀ c : Coeff, Coeff.read c.print = .ok c) ∧
      ∀ t : Term, (¬ t.coeff.Least → read t.print = .ok t) ∧
        (t.coeff.Least →
          read t.print = .error (.coefficient (.invalidInteger "-NaN" .invalidDigit))) :=
  ⟨fun _ _ => Coeff.read_ok_iff, fun _ _ => read_ok_iff, Coeff.read_printed, fun _ =>
    ⟨fun notLeast => read_ok_iff.mpr (exists_signedLiteral_print notLeast), read_printed_of_least⟩⟩

/-- The least numerator is kept by a coefficient on its own and lost in a term. -/
theorem least_numerator_read_alone :
    let least : Coeff := .ofInt (-9223372036854775808)
    let t := make (.ofRatio ⟨-3, 2⟩) ⟨2, by decide⟩
    Coeff.read "-006/4".toList = .ok (.ofRatio ⟨-3, 2⟩) ∧ read "-006/4*x^02".toList = .ok t ∧
      Coeff.read least.print = .ok least ∧ ¬ t.coeff.Least ∧ read t.print = .ok t ∧
      (make least 1).coeff.Least ∧ (make least 1).print = "-NaN*x".toList ∧
      read (make least 1).print = .error (.coefficient (.invalidInteger "-NaN" .invalidDigit)) := by
  intro least t
  obtain ⟨coeffTexts, termTexts, coeffPrinted, termPrinted⟩ := texts_and_round_trips
  let six : Text.Numeral 9223372036854775808 :=
    ⟨['0', '0', '6'], by decide, List.all_eq_true.mp rfl, by decide⟩
  let four : Text.Numeral 9223372036854775807 :=
    ⟨['4'], by decide, List.all_eq_true.mp rfl, by decide⟩
  let two : Text.Numeral 4294967295 := ⟨['0', '2'], by decide, List.all_eq_true.mp rfl, by decide⟩
  let coeff : Coeff.SignedLiteral := .quotient (.minus six) (.plain four)
  have notLeast : ¬ t.coeff.Least := by decide
  have isLeast : (make least 1).coeff.Least := by decide
  refine ⟨(coeffTexts _ _).mpr ⟨coeff, by decide, by decide⟩,
    (termTexts _ _).mpr ⟨.power (.factor coeff) (some two), by decide, by decide⟩,
    coeffPrinted least, notLeast, (termPrinted t).1 notLeast, isLeast, by decide,
    (termPrinted _).2 isLeast⟩

end Term

end ExactPoly
