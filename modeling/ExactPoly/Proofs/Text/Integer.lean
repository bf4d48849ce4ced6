import ExactPoly.Term
import ExactPoly.Proofs.Success
import ExactPoly.Proofs.Text.Literal

namespace ExactPoly

/-! Reading runs of digits.

A reader of bounded integers accepts the numerals of its bound and nothing else,
and printing a number gives a numeral that reads back.
-/

namespace Text

variable {limit value n : Nat} {text digits : List Char} {overflow : IntegerError} {c : Char}

theorem le_ofDigitChars (digits : List Char) (value : Nat) :
    value ≤ Nat.ofDigitChars 10 digits value := by
  induction digits generalizing value with
  | nil => exact Nat.le_refl value
  | cons c rest ih =>
      rw [Nat.ofDigitChars_cons]
      exact Nat.le_trans (by omega) (ih _)

theorem readDigits_ok_iff (within : value ≤ limit) :
    readDigits limit overflow value digits = .ok n ↔
      (∀ c ∈ digits, c.isDigit = true) ∧ n ≤ limit ∧ Nat.ofDigitChars 10 digits value = n := by
  induction digits generalizing value with
  | nil =>
      rw [readDigits, Nat.ofDigitChars_nil, Except.ok.injEq]
      constructor
      · intro same
        subst same
        exact ⟨List.forall_mem_nil _, within, rfl⟩
      · exact fun read => read.2.2
  | cons c rest ih =>
      rw [readDigits, Nat.ofDigitChars_cons, List.forall_mem_cons]
      split
      · rename_i digit
        simp only [digit, true_and]
        split
        · exact ih ‹_›
        · rename_i exceeds
          refine iff_of_false (fun failed => nomatch failed) ?_
          intro read
          obtain ⟨-, bounded, total⟩ := read
          have least := le_ofDigitChars rest (10 * value + (c.toNat - '0'.toNat))
          omega
      · exact iff_of_false (fun failed => nomatch failed) (fun read => absurd read.1.1 ‹_›)

namespace Numeral

def ofNat (n : Nat) (bounded : n ≤ limit) : Numeral limit where
  digits := printNatural n
  nonempty := Nat.toDigits_ne_nil
  decimal _ member := Nat.isDigit_of_mem_toDigits (by decide) (by decide) member
  bounded := by rwa [printNatural, Nat.ofDigitChars_toDigits (by decide) (by decide)]

@[simp] theorem value_ofNat (bounded : n ≤ limit) : (ofNat n bounded).value = n :=
  Nat.ofDigitChars_toDigits (by decide) (by decide)

theorem not_mem_digits (m : Numeral limit) (other : c.isDigit = false) : c ∉ m.digits :=
  fun member => Bool.false_ne_true (other.symm.trans (m.decimal c member))

/-- The bounded reader before its test for an empty text. -/
theorem exists_iff (nonempty : digits ≠ []) :
    readDigits limit overflow 0 digits = .ok n ↔
      ∃ m : Numeral limit, m.digits = digits ∧ m.value = n := by
  rw [readDigits_ok_iff (Nat.zero_le limit)]
  constructor
  · intro read
    obtain ⟨decimal, bounded, rfl⟩ := read
    exact ⟨⟨digits, nonempty, decimal, bounded⟩, rfl, rfl⟩
  · intro spelled
    obtain ⟨m, rfl, rfl⟩ := spelled
    exact ⟨m.decimal, m.bounded, rfl⟩

end Numeral

theorem readNatural_ok_iff :
    readNatural limit text = .ok n ↔ ∃ m : Numeral limit, m.digits = text ∧ m.value = n := by
  cases text with
  | nil => exact iff_of_false (fun failed => nomatch failed) (fun ⟨m, empty, _⟩ => m.nonempty empty)
  | cons c rest => exact Numeral.exists_iff (List.cons_ne_nil c rest)

namespace Integer

theorem text_ne_nil (i : Integer) : i.text ≠ [] := by
  cases i with
  | plain magnitude => exact magnitude.nonempty
  | minus magnitude => exact List.cons_ne_nil _ _

theorem mem_text {i : Integer} (member : c ∈ i.text) : c.isDigit = true ∨ c = '-' := by
  cases i with
  | plain magnitude => exact .inl (magnitude.decimal c member)
  | minus magnitude =>
      cases List.mem_cons.mp member with
      | inl minus => exact .inr minus
      | inr digit => exact .inl (magnitude.decimal c digit)

theorem not_mem_text (i : Integer) (notDigit : c.isDigit = false) (notMinus : c ≠ '-') :
    c ∉ i.text := by
  intro member
  cases mem_text member with
  | inl digit => exact Bool.false_ne_true (notDigit.symm.trans digit)
  | inr minus => exact notMinus minus

theorem natAbs_value_le (i : Integer) : i.value.natAbs ≤ 9223372036854775808 := by
  cases i with
  | plain magnitude =>
      rw [value, Int.natAbs_natCast]
      exact Nat.le_succ_of_le magnitude.bounded
  | minus magnitude =>
      rw [value, Int.natAbs_neg, Int.natAbs_natCast]
      exact magnitude.bounded

end Integer

theorem readInteger_text (i : Integer) : readInteger i.text = .ok i.value := by
  cases i with
  | plain magnitude =>
      have read : readDigits 9223372036854775807 .positiveOverflow 0 magnitude.digits =
          .ok magnitude.value := (Numeral.exists_iff magnitude.nonempty).mpr ⟨magnitude, rfl, rfl⟩
      have noMinus : '-' ∉ magnitude.digits := magnitude.not_mem_digits rfl
      rw [Integer.text, readInteger]
      · rw [read]
        rfl
      · exact magnitude.nonempty
      · intro minus
        exact noMinus (minus ▸ .head _)
      · intro digits minus
        exact noMinus (minus ▸ .head _)
  | minus magnitude =>
      have read : readDigits 9223372036854775808 .negativeOverflow 0 magnitude.digits =
          .ok magnitude.value := (Numeral.exists_iff magnitude.nonempty).mpr ⟨magnitude, rfl, rfl⟩
      rw [Integer.text, readInteger]
      · rw [read]
        rfl
      · exact magnitude.nonempty

theorem readInteger_ok_iff {n : Int} :
    readInteger text = .ok n ↔ ∃ i : Integer, i.text = text ∧ i.value = n := by
  constructor
  · intro accepted
    unfold readInteger at accepted
    split at accepted
    · contradiction
    · contradiction
    · rename_i digits nonempty
      obtain ⟨_, signed, rfl⟩ := map_ok_iff.mp accepted
      obtain ⟨_, read, same⟩ := bind_ok_iff.mp signed
      obtain ⟨m, rfl, rfl⟩ := (Numeral.exists_iff nonempty).mp read
      cases same
      exact ⟨.minus m, rfl, rfl⟩
    · rename_i nonempty _ _
      obtain ⟨_, signed, rfl⟩ := map_ok_iff.mp accepted
      obtain ⟨_, read, same⟩ := bind_ok_iff.mp signed
      obtain ⟨m, rfl, rfl⟩ := (Numeral.exists_iff nonempty).mp read
      cases same
      exact ⟨.plain m, rfl, rfl⟩
  · intro spelled
    obtain ⟨i, rfl, rfl⟩ := spelled
    exact readInteger_text i

end Text

end ExactPoly
