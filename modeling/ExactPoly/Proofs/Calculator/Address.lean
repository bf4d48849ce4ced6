import ExactPoly.Proofs.Calculator.Dump

namespace ExactPoly.Stack

/-! Positions counted from the top.

An address, a number of pops and a line of the listing count the same polynomials.
The one exception is the greatest 64-bit address: the place after it cannot be
counted, and so it faults instead of being out of range.
-/

variable {s : Stack} {index : UInt64} {n : Nat} {p : Poly}

/-- What a pop returns after `n` earlier ones. -/
def popAfter (s : Stack) : Nat → Except StackError Poly
  | 0 => s.pop.result
  | n + 1 =>
      match s.pop with
      | ⟨_, .error cause⟩ => .error cause
      | ⟨rest, .ok _⟩ => rest.popAfter n

def printedLines (s : Stack) : List (List Char) :=
  (Output.stack s).print.splitOn '\n'

theorem popAfter_eq_ok_iff : s.popAfter n = .ok p ↔ s.polys[n]? = some p := by
  induction n generalizing s with
  | zero =>
      obtain ⟨polys⟩ := s
      cases polys with
      | nil => exact iff_of_false nofun nofun
      | cons top rest =>
          change Except.ok top = .ok p ↔ some top = some p
          rw [Except.ok.injEq, Option.some.injEq]
  | succ n ih =>
      obtain ⟨polys⟩ := s
      cases polys with
      | nil => exact iff_of_false nofun nofun
      | cons top rest => exact ih (s := ⟨rest⟩)

theorem exists_popAfter (inside : n < s.size) : ∃ p, s.popAfter n = .ok p :=
  ⟨s.polys[n], popAfter_eq_ok_iff.mpr (List.getElem?_eq_getElem inside)⟩

/-- Counting from the bottom ends at the same polynomial as counting from the top. -/
theorem bottomFirst_checkedSub (s : Stack) (n : Nat) :
    (checkedSub s.size (n + 1)).bind (fun place => s.bottomFirst[place]?) = s.polys[n]? := by
  obtain ⟨polys⟩ := s
  change (checkedSub polys.length (n + 1)).bind (fun place => polys.reverse[place]?) = polys[n]?
  by_cases inside : n + 1 ≤ polys.length
  · have within : polys.length - (n + 1) < polys.length := by omega
    have mirrored : polys.length - 1 - (polys.length - (n + 1)) = n := by omega
    rw [checkedSub, if_pos inside, Option.bind_some, List.getElem?_reverse within, mirrored]
  · rw [checkedSub, if_neg inside, Option.bind_none,
      List.getElem?_eq_none (Nat.le_of_not_lt inside)]

theorem nthFromTop_of_room (room : index.toNat ≠ 18446744073709551615)
    (found : s.polys[index.toNat]? = some p) : s.nthFromTop index = .ok p := by
  have bounded := index.toNat_lt
  rw [nthFromTop, if_pos (by omega), bottomFirst_checkedSub, found]

theorem nthFromTop_outOfRange (room : index.toNat ≠ 18446744073709551615)
    (outside : s.size ≤ index.toNat) :
    s.nthFromTop index = .error (.error (.outOfRange index.toNat s.size)) := by
  have bounded := index.toNat_lt
  rw [nthFromTop, if_pos (by omega), bottomFirst_checkedSub, List.getElem?_eq_none outside]

theorem nthFromTop_greatest (greatest : index.toNat = 18446744073709551615) :
    s.nthFromTop index = .error (.fault .addressOverflow) :=
  if_neg (by omega)

/-- An address has the answer that pops give: what a pop returns after that many earlier
ones, or else that it is out of range. -/
def AnsweredByPops (s : Stack) (index : UInt64) : Prop :=
  (s.size ≤ index.toNat →
      s.nthFromTop index = .error (.error (.outOfRange index.toNat s.size))) ∧
    (index.toNat < s.size → ∃ p, s.popAfter index.toNat = .ok p ∧ s.nthFromTop index = .ok p)

theorem answeredByPops_of_room (room : index.toNat ≠ 18446744073709551615) :
    s.AnsweredByPops index := by
  refine ⟨nthFromTop_outOfRange room, fun inside => ?_⟩
  obtain ⟨p, popped⟩ := exists_popAfter inside
  exact ⟨p, popped, nthFromTop_of_room room (popAfter_eq_ok_iff.mp popped)⟩

theorem not_answeredByPops (greatest : index.toNat = 18446744073709551615) :
    ¬ s.AnsweredByPops index := by
  rintro ⟨outside, inside⟩
  rw [nthFromTop_greatest greatest] at outside inside
  rcases Nat.lt_or_ge index.toNat s.size with below | above
  · obtain ⟨p, -, found⟩ := inside below
    cases found
  · cases outside above

theorem lineFeed_not_mem_print (p : Poly) : '\n' ∉ p.print := by
  intro member
  obtain ⟨_, read⟩ := p.exists_read_print
  exact absurd (Poly.read_mem read member).1 (by decide)

theorem listing_getElem? (s : Stack) (n : Nat) :
    (Output.listing s)[n]? =
      s.polys[n]?.map fun p => Text.printNatural n ++ ':' :: ' ' :: p.print := by
  rw [Output.listing, List.getElem?_map, List.getElem?_zipIdx, Option.map_map, Nat.zero_add]
  rfl

theorem lineFeed_not_mem_listing {line : List Char} (listed : line ∈ Output.listing s) :
    '\n' ∉ line := by
  obtain ⟨⟨p, n⟩, -, rfl⟩ := List.mem_map.mp listed
  intro member
  rcases List.mem_append.mp member with inNumber | inText
  · have digit := Nat.isDigit_of_mem_toDigits (by decide) (by decide) inNumber
    contradiction
  · exact lineFeed_not_mem_print p (by simpa using inText)

theorem printedLines_eq (nonempty : s.polys ≠ []) : s.printedLines = Output.listing s := by
  have filled : s.isEmpty = false := by simpa [isEmpty] using nonempty
  have listed : Output.listing s ≠ [] := by simpa [Output.listing] using nonempty
  rw [printedLines, Output.print, if_neg (Bool.eq_false_iff.mp filled)]
  exact List.splitOn_intercalate '\n' (fun _ => lineFeed_not_mem_listing) listed

theorem printedLines_of_popAfter (popped : s.popAfter n = .ok p) :
    s.printedLines[n]? = some (Text.printNatural n ++ ':' :: ' ' :: p.print) := by
  have found := popAfter_eq_ok_iff.mp popped
  have nonempty : s.polys ≠ [] := by
    intro empty
    rw [empty, List.getElem?_nil] at found
    cases found
  rw [printedLines_eq nonempty, listing_getElem?, found, Option.map_some]

/-- Addresses count as pops do, except for the greatest one.  A listing has one line for
each polynomial, numbered by the pops before it. -/
theorem address_consistent_iff (s : Stack) (index : UInt64) :
    (s.AnsweredByPops index ↔ index.toNat ≠ 18446744073709551615) ∧
      (index.toNat = 18446744073709551615 →
        s.nthFromTop index = .error (.fault .addressOverflow)) ∧
      (s.polys ≠ [] → s.printedLines.length = s.size ∧
        ∀ n < s.size, ∃ p, s.popAfter n = .ok p ∧
          s.printedLines[n]? = some (Text.printNatural n ++ ':' :: ' ' :: p.print)) := by
  refine ⟨⟨fun answered greatest => not_answeredByPops greatest answered, answeredByPops_of_room⟩,
    nthFromTop_greatest, fun nonempty => ⟨?_, fun n inside => ?_⟩⟩
  · rw [printedLines_eq nonempty, Output.listing, List.length_map, List.length_zipIdx, size]
  · obtain ⟨p, popped⟩ := exists_popAfter inside
    exact ⟨p, popped, printedLines_of_popAfter popped⟩

/-- The greatest address faults on a stack that holds a single polynomial. -/
theorem greatest_address_faults :
    let s := empty.push (.monomial 1 1)
    s.nthFromTop 18446744073709551615 = .error (.fault .addressOverflow) ∧
      ¬ s.AnsweredByPops 18446744073709551615 :=
  ⟨nthFromTop_greatest rfl, not_answeredByPops rfl⟩

/-- The address below it is out of range, and the middle one of three polynomials has
address one. -/
theorem three_polynomials_addressed :
    let s := ((empty.push (.monomial 1 0)).push .nan).push (.monomial 1 1)
    s.AnsweredByPops 18446744073709551614 ∧
      s.nthFromTop 18446744073709551615 = .error (.fault .addressOverflow) ∧
      s.printedLines.length = 3 ∧ s.printedLines[1]? = some "1: NaN".toList := by
  intro s
  have ⟨_, overflow, listed⟩ := address_consistent_iff s 18446744073709551615
  obtain ⟨length, lines⟩ := listed (by decide)
  obtain ⟨p, popped, line⟩ := lines 1 (by decide)
  have middle : p = .nan := Except.ok.inj (popped.symm.trans rfl)
  subst p
  exact ⟨(address_consistent_iff s 18446744073709551614).1.mpr (by decide), overflow (by decide),
    length, line⟩

end ExactPoly.Stack
