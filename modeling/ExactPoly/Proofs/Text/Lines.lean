import ExactPoly.Text

namespace ExactPoly.Text

/-! Lines of text and lines of bytes.

The encoding of a text has a byte of value 10 or 13 exactly where the text has a line
feed or a carriage return.  So it does not matter whether bytes are decoded before
they are split into lines or after.
-/

section

variable {α β : Type} {mark : α → Bool} {byteMark : β → Bool} {encode : α → List β}
  {before : List β}

theorem splitOnP_append_unmarked (unmarked : ∀ b ∈ before, byteMark b = false) (after : List β) :
    (before ++ after).splitOnP byteMark = (after.splitOnP byteMark).modifyHead (before ++ ·) := by
  induction before with
  | nil =>
      have same : (([] : List β) ++ ·) = id := funext List.nil_append
      rw [List.nil_append, same]
      cases after.splitOnP byteMark <;> rfl
  | cons b rest ih =>
      obtain ⟨first, others⟩ := List.forall_mem_cons.mp unmarked
      rw [List.cons_append, List.splitOnP_cons_eq_if_modifyHead, if_neg (by simp [first]), ih others]
      cases after.splitOnP byteMark <;> rfl

theorem splitOnP_flatMap (marked : ∀ a, mark a = true → ∃ b, encode a = [b] ∧ byteMark b = true)
    (unmarked : ∀ a, mark a = false → ∀ b ∈ encode a, byteMark b = false) (text : List α) :
    (text.flatMap encode).splitOnP byteMark = (text.splitOnP mark).map (·.flatMap encode) := by
  induction text with
  | nil => rfl
  | cons a rest ih =>
      rw [List.flatMap_cons, List.splitOnP_cons_eq_if_modifyHead]
      cases isMark : mark a with
      | true =>
          obtain ⟨b, single, isByteMark⟩ := marked a isMark
          rw [single, List.singleton_append, List.splitOnP_cons_eq_if_modifyHead, if_pos isByteMark,
            ih]
          rfl
      | false =>
          rw [splitOnP_append_unmarked (unmarked a isMark), ih]
          cases rest.splitOnP mark <;> rfl

/-- An element whose encoding is a single byte that no other encoding contains. -/
structure Marks (encode : α → List β) (a : α) (b : β) : Prop where
  own : encode a = [b]
  only : ∀ c, b ∈ encode c → c = a

variable [DecidableEq α] [DecidableEq β] {lineFeed carriageReturn : α} {lf cr : β}

theorem dropReturn_flatMap (returns : Marks encode carriageReturn cr)
    (nonempty : ∀ a, encode a ≠ []) (line : List α) :
    dropReturn cr (line.flatMap encode) = (dropReturn carriageReturn line).flatMap encode := by
  rcases List.eq_nil_or_concat line with rfl | ⟨front, last, rfl⟩
  · rfl
  · rw [List.concat_eq_append, List.flatMap_append, List.flatMap_singleton]
    unfold dropReturn
    by_cases isReturn : last = carriageReturn
    · rw [isReturn, returns.own, if_pos List.getLast?_concat, if_pos List.getLast?_concat,
        List.dropLast_concat, List.dropLast_concat]
    · have other : (encode last).getLast? ≠ some cr := fun same =>
        isReturn (returns.only last (List.mem_of_getLast? same))
      have ends : (encode last).getLast?.isSome = true :=
        List.getLast?_isSome.mpr (nonempty last)
      rw [List.getLast?_append, Option.or_of_isSome ends, if_neg other,
        List.getLast?_concat, if_neg (mt Option.some.inj isReturn), List.flatMap_append,
        List.flatMap_singleton]

theorem linesOf_flatMap (feeds : Marks encode lineFeed lf) (returns : Marks encode carriageReturn cr)
    (nonempty : ∀ a, encode a ≠ []) (text : List α) :
    linesOf lf cr (text.flatMap encode) =
      (linesOf lineFeed carriageReturn text).map (·.flatMap encode) := by
  have split : (text.flatMap encode).splitOnP (fun b => decide (b = lf)) =
      (text.splitOnP (fun a => decide (a = lineFeed))).map (·.flatMap encode) := by
    refine splitOnP_flatMap (fun a isFeed => ?_) (fun a notFeed b member => ?_) text
    · exact ⟨lf, of_decide_eq_true isFeed ▸ feeds.own, decide_eq_true rfl⟩
    · refine decide_eq_false ?_
      rintro rfl
      exact of_decide_eq_false notFeed (feeds.only a member)
  have ended : dropReturn cr ∘ (·.flatMap encode) =
      (·.flatMap encode) ∘ dropReturn carriageReturn :=
    funext (dropReturn_flatMap returns nonempty)
  have last (line : List α) : (line.flatMap encode).isEmpty = line.isEmpty := by
    cases line with
    | nil => rfl
    | cons a rest => simp [nonempty a]
  simp only [linesOf, split]
  rw [← List.map_dropLast, List.map_map, ended, List.getLast?_map, List.map_append,
    List.map_map]
  congr 1
  cases (text.splitOnP fun a => decide (a = lineFeed)).getLast? with
  | none => rfl
  | some line =>
      simp only [Option.map_some, Option.toList_some, List.filter_cons, List.filter_nil, last]
      cases line.isEmpty <;> rfl

end

theorem toNat_of_mem_utf8EncodeChar {c : Char} {b : UInt8} (member : b ∈ String.utf8EncodeChar c)
    (small : b.toNat < 128) : b.toNat = c.toNat := by
  -- All bytes of an encoding that is longer than one byte have their high bit set.
  have notLarge (n : Nat) (least : 128 ≤ n) (most : n < 256) : b ≠ UInt8.ofNat n := by
    rintro rfl
    rw [UInt8.toNat_ofNat'] at small
    omega
  unfold String.utf8EncodeChar at member
  dsimp only at member
  split at member
  · rename_i single
    rw [List.mem_singleton.mp member, UInt8.toNat_ofNat']
    exact Nat.mod_eq_of_lt (by omega)
  · have large : ∃ n, 128 ≤ n ∧ n < 256 ∧ b = UInt8.ofNat n := by
      split at member
      · simp only [List.mem_cons, List.not_mem_nil, or_false] at member
        rcases member with rfl | rfl <;> exact ⟨_, by omega, by omega, rfl⟩
      · split at member
        · simp only [List.mem_cons, List.not_mem_nil, or_false] at member
          rcases member with rfl | rfl | rfl <;> exact ⟨_, by omega, by omega, rfl⟩
        · simp only [List.mem_cons, List.not_mem_nil, or_false] at member
          rcases member with rfl | rfl | rfl | rfl <;> exact ⟨_, by omega, by omega, rfl⟩
    obtain ⟨n, least, most, same⟩ := large
    exact absurd same (notLarge n least most)

/-- A character up to 127 is marked by the byte of its own code. -/
theorem marks_utf8EncodeChar {c : Char} {b : UInt8} (code : b.toNat = c.toNat)
    (small : c.toNat < 128) : Marks String.utf8EncodeChar c b := by
  constructor
  · have within : c.val.toNat ≤ 127 := Nat.le_of_lt_succ small
    have byte : b = UInt8.ofNat c.toNat := by rw [← code, UInt8.ofNat_toNat]
    rw [byte]
    exact if_pos within
  · intro d member
    have same := toNat_of_mem_utf8EncodeChar member (code ▸ small)
    exact Char.toNat_inj.mp (same.symm.trans code)

theorem fromUTF8?_flatMap (line : List Char) :
    String.fromUTF8? ⟨(line.flatMap String.utf8EncodeChar).toArray⟩ = some (String.ofList line) := by
  have bytes : (⟨(line.flatMap String.utf8EncodeChar).toArray⟩ : ByteArray) = line.utf8Encode :=
    ByteArray.ext List.data_toByteArray.symm
  rw [bytes]
  unfold String.fromUTF8?
  rw [dif_pos ByteArray.isValidUTF8_utf8Encode]
  exact congrArg some (String.toByteArray_inj.mp String.toByteArray_ofList.symm)

theorem decodeLine_flatMap (line : List Char) :
    decodeLine (line.flatMap String.utf8EncodeChar) = .ok line := by
  rw [decodeLine, fromUTF8?_flatMap]
  exact congrArg Except.ok String.toList_ofList

theorem byteLines_toUTF8 (text : String) :
    byteLines text.toUTF8 = (lines text.toList).map .ok := by
  have bytes : text.toUTF8.data.toList = text.toList.flatMap String.utf8EncodeChar := by
    rw [String.toUTF8_eq_toByteArray, ← String.utf8Encode_toList]
    exact List.toList_data_toByteArray
  have nonempty (c : Char) : String.utf8EncodeChar c ≠ [] := by
    have positive := c.utf8Size_pos
    rw [← String.length_utf8EncodeChar] at positive
    exact List.ne_nil_of_length_pos positive
  rw [byteLines, bytes, linesOf_flatMap (marks_utf8EncodeChar (c := '\n') rfl (by decide))
    (marks_utf8EncodeChar (c := '\r') rfl (by decide)) nonempty, List.map_map]
  exact List.map_congr_left fun line _ => decodeLine_flatMap line

end ExactPoly.Text
