import ExactPoly.Proofs.Text.Lines
import ExactPoly.Proofs.Text.Scan

namespace ExactPoly.Poly

/-! Signs and segments of a text by byte offset.

Signs are found in the UTF-8 bytes of a text, where a byte of a longer character
never looks like one.  Between the signs stand the segments.  A text is a word without
signs and then signs with the words after them, and each part adds its own signs and
segments to those of the rest.
-/

/-- The UTF-8 bytes of a text. -/
def bytes (text : List Char) : List UInt8 :=
  (String.ofList text).toUTF8.data.toList

def SignAt (text : List Char) (offset : Nat) (c : Char) : Prop :=
  isSign c = true ∧ (bytes text)[offset]? = some c.toUInt8

/-- A term cannot begin at a byte offset: a sign stands there, or the text ends. -/
def StopAt (text : List Char) (offset : Nat) : Prop :=
  offset = (bytes text).length ∨ ∃ c, SignAt text offset c

/-- The sign at a byte offset is followed by another sign or by the end. -/
structure Dangles (text : List Char) (offset : Nat) (c : Char) : Prop where
  sign : SignAt text offset c
  bare : StopAt text (offset + 1)

/-- A maximal run of characters without signs, which begins at the byte `start`. -/
structure Segment (text : List Char) (start : Nat) (segment : List Char) : Prop where
  nonempty : segment ≠ []
  free : SignFree segment
  within : ∃ before after, before ++ segment ++ after = text ∧ (bytes before).length = start ∧
    (∀ c ∈ before.getLast?, isSign c = true) ∧ ∀ c ∈ after.head?, isSign c = true

variable {text word rest segment : List Char} {offset start : Nat} {c : Char} {s : Sign}

theorem bytes_eq (text : List Char) : bytes text = text.flatMap String.utf8EncodeChar := by
  rw [bytes, String.toUTF8_eq_toByteArray, String.toByteArray_ofList]
  exact List.toList_data_toByteArray

theorem bytes_append (text more : List Char) : bytes (text ++ more) = bytes text ++ bytes more := by
  rw [bytes_eq, bytes_eq, bytes_eq, List.flatMap_append]

theorem marks_sign (isSign : isSign c = true) :
    Text.Marks String.utf8EncodeChar c c.toUInt8 := by
  obtain ⟨s, rfl⟩ := Sign.exists_of_isSign isSign
  cases s with
  | plus => exact Text.marks_utf8EncodeChar rfl (by decide)
  | minus => exact Text.marks_utf8EncodeChar rfl (by decide)

theorem bytes_sign (s : Sign) (rest : List Char) :
    bytes (s.char :: rest) = s.char.toUInt8 :: bytes rest := by
  rw [bytes_eq, bytes_eq, List.flatMap_cons, (marks_sign s.isSign_char).own]
  rfl

theorem length_bytes (text : List Char) : (bytes text).length = byteSize text := by
  induction text with
  | nil => rfl
  | cons c rest ih =>
      rw [bytes_eq] at ih ⊢
      rw [List.flatMap_cons, List.length_append, String.length_utf8EncodeChar, ih, byteSize_cons]

theorem length_bytes_pos (nonempty : text ≠ []) : 0 < (bytes text).length := by
  obtain ⟨c, rest, rfl⟩ := List.exists_cons_of_ne_nil nonempty
  rw [length_bytes, byteSize_cons]
  exact Nat.add_pos_left c.utf8Size_pos _

theorem sign_not_mem_bytes (free : SignFree word) (isSign : isSign c = true) :
    c.toUInt8 ∉ bytes word := by
  intro member
  rw [bytes_eq] at member
  obtain ⟨d, inWord, encoded⟩ := List.mem_flatMap.mp member
  cases (marks_sign isSign).only d encoded
  exact Bool.false_ne_true ((free _ inWord).symm.trans isSign)

theorem signAt_word (free : SignFree word) (rest : List Char) :
    SignAt (word ++ rest) offset c ↔
      ∃ later, (bytes word).length + later = offset ∧ SignAt rest later c := by
  rw [SignAt, bytes_append]
  constructor
  · intro signed
    obtain ⟨isSign, found⟩ := signed
    have beyond : (bytes word).length ≤ offset := by
      by_contra inside
      rw [List.getElem?_append_left (Nat.lt_of_not_le inside)] at found
      exact sign_not_mem_bytes free isSign (List.mem_of_getElem? found)
    rw [List.getElem?_append_right beyond] at found
    exact ⟨offset - (bytes word).length, Nat.add_sub_cancel' beyond, isSign, found⟩
  · intro behind
    obtain ⟨later, rfl, isSign, found⟩ := behind
    refine ⟨isSign, ?_⟩
    rwa [List.getElem?_append_right (Nat.le_add_right _ _), Nat.add_sub_cancel_left]

theorem signAt_zero : SignAt (s.char :: rest) 0 c ↔ c = s.char := by
  rw [SignAt, bytes_sign, List.getElem?_cons_zero]
  constructor
  · intro signed
    obtain ⟨isSign, same⟩ := signed
    have encoded : c.toUInt8 ∈ String.utf8EncodeChar s.char := by
      rw [← Option.some.inj same, (marks_sign s.isSign_char).own]
      exact List.mem_singleton_self _
    exact ((marks_sign isSign).only _ encoded).symm
  · intro same
    subst same
    exact ⟨s.isSign_char, rfl⟩

theorem signAt_succ : SignAt (s.char :: rest) (offset + 1) c ↔ SignAt rest offset c := by
  rw [SignAt, bytes_sign, List.getElem?_cons_succ, SignAt]

theorem stopAt_word (free : SignFree word) (rest : List Char) :
    StopAt (word ++ rest) ((bytes word).length + offset) ↔ StopAt rest offset := by
  have signs : (∃ c, SignAt (word ++ rest) ((bytes word).length + offset) c) ↔
      ∃ c, SignAt rest offset c := by
    simp only [signAt_word free, Nat.add_left_cancel_iff, exists_eq_left]
  rw [StopAt, signs, bytes_append, List.length_append, Nat.add_left_cancel_iff, StopAt]

theorem stopAt_succ : StopAt (s.char :: rest) (offset + 1) ↔ StopAt rest offset := by
  rw [StopAt, bytes_sign, List.length_cons, Nat.add_right_cancel_iff, StopAt]
  simp only [signAt_succ]

theorem stopAt_zero_iff (free : SignFree word) (pieces : List (Sign × List Char)) :
    StopAt (word ++ join pieces) 0 ↔ word = [] := by
  constructor
  · intro stop
    by_contra nonempty
    have positive := length_bytes_pos nonempty
    rcases stop with ended | ⟨c, sign⟩
    · rw [bytes_append, List.length_append] at ended
      omega
    · obtain ⟨later, same, -⟩ := (signAt_word free _).mp sign
      omega
  · intro empty
    subst empty
    cases pieces with
    | nil => exact .inl rfl
    | cons piece pieces => exact .inr ⟨piece.1.char, signAt_zero.mpr rfl⟩

theorem dangles_word (free : SignFree word) (rest : List Char) :
    Dangles (word ++ rest) offset c ↔
      ∃ later, (bytes word).length + later = offset ∧ Dangles rest later c := by
  constructor
  · intro dangles
    obtain ⟨later, rfl, inRest⟩ := (signAt_word free rest).mp dangles.sign
    exact ⟨later, rfl, inRest, (stopAt_word free rest).mp dangles.bare⟩
  · intro behind
    obtain ⟨later, rfl, sign, bare⟩ := behind
    exact ⟨(signAt_word free rest).mpr ⟨later, rfl, sign⟩, (stopAt_word free rest).mpr bare⟩

theorem dangles_sign :
    Dangles (s.char :: rest) offset c ↔
      (offset = 0 ∧ c = s.char ∧ StopAt rest 0) ∨
        ∃ later, 1 + later = offset ∧ Dangles rest later c := by
  constructor
  · intro dangles
    obtain ⟨sign, bare⟩ := dangles
    cases offset with
    | zero => exact .inl ⟨rfl, signAt_zero.mp sign, stopAt_succ.mp bare⟩
    | succ later =>
        exact .inr ⟨later, Nat.add_comm 1 later, signAt_succ.mp sign, stopAt_succ.mp bare⟩
  · intro split
    rcases split with ⟨rfl, same, stop⟩ | ⟨later, rfl, sign, bare⟩
    · exact ⟨signAt_zero.mpr same, stopAt_succ.mpr stop⟩
    · rw [Nat.add_comm]
      exact ⟨signAt_succ.mpr sign, stopAt_succ.mpr bare⟩

theorem takeWhile_segment (free : SignFree segment) (closed : ∀ c ∈ rest.head?, isSign c = true) :
    (segment ++ rest).takeWhile (fun c => !isSign c) = segment := by
  have kept : ∀ c ∈ segment, (!isSign c) = true := fun c member => by rw [free c member]; rfl
  have stopped : rest.takeWhile (fun c => !isSign c) = [] := by
    cases rest with
    | nil => rfl
    | cons c rest => exact List.takeWhile_cons_of_neg (by simp [closed c rfl])
  rw [List.takeWhile_append_of_pos kept, stopped, List.append_nil]

theorem eq_nil_of_sign_last (free : SignFree word) (opens : ∀ c ∈ word.getLast?, isSign c = true) :
    word = [] := by
  cases last : word.getLast? with
  | none => exact List.getLast?_eq_none_iff.mp last
  | some c =>
      have noSign := free c (List.mem_of_getLast? last)
      exact absurd (noSign.symm.trans (opens c last)) Bool.false_ne_true

theorem segment_word (nonempty : word ≠ []) (free : SignFree word)
    (closed : ∀ c ∈ rest.head?, isSign c = true) :
    Segment (word ++ rest) start segment ↔
      (start = 0 ∧ segment = word) ∨
        ∃ later, (bytes word).length + later = start ∧ Segment rest later segment := by
  constructor
  · intro placed
    obtain ⟨filled, segmentFree, before, after, split, rfl, opens, closes⟩ := placed
    rw [List.append_assoc] at split
    rcases List.append_eq_append_iff.mp split with ⟨others, inWord, tail⟩ | ⟨others, rfl, tail⟩
    · cases eq_nil_of_sign_last (signFree_append.mp (inWord ▸ free)).1 opens
      cases inWord
      have same := takeWhile_segment segmentFree closes
      rw [tail] at same
      exact .inl ⟨rfl, same.symm.trans (takeWhile_segment free closed)⟩
    · have opensRest : ∀ c ∈ others.getLast?, isSign c = true := fun c last =>
        opens c (by rw [List.getLast?_append, Option.mem_def.mp last]; rfl)
      refine .inr ⟨_, ?_, filled, segmentFree, others, after, ?_, rfl, opensRest, closes⟩
      · rw [bytes_append, List.length_append]
      · rw [List.append_assoc, tail]
  · intro split
    rcases split with ⟨rfl, rfl⟩ | ⟨later, rfl, placed⟩
    · exact ⟨nonempty, free, [], rest, rfl, rfl, by simp, closed⟩
    · obtain ⟨filled, segmentFree, before, after, rfl, rfl, opens, closes⟩ := placed
      refine ⟨filled, segmentFree, word ++ before, after, ?_, ?_, ?_, closes⟩
      · simp only [List.append_assoc]
      · rw [bytes_append, List.length_append]
      · cases before with
        | nil =>
            -- A segment at the very start of the rest would begin with its sign.
            obtain ⟨c, others, rfl⟩ := List.exists_cons_of_ne_nil filled
            have noSign := (signFree_cons.mp segmentFree).1
            exact absurd (noSign.symm.trans (closed c rfl)) Bool.false_ne_true
        | cons d before =>
            rw [List.getLast?_append, Option.or_of_isSome (List.getLast?_isSome.mpr (by simp))]
            exact opens

theorem segment_sign :
    Segment (s.char :: rest) start segment ↔
      ∃ later, 1 + later = start ∧ Segment rest later segment := by
  constructor
  · intro placed
    obtain ⟨nonempty, free, before, after, split, rfl, opens, closes⟩ := placed
    cases before with
    | nil =>
        obtain ⟨c, others, rfl⟩ := List.exists_cons_of_ne_nil nonempty
        cases (List.cons.inj split).1
        have noSign := (signFree_cons.mp free).1
        exact absurd (noSign.symm.trans s.isSign_char) Bool.false_ne_true
    | cons c before =>
        obtain ⟨rfl, rfl⟩ := List.cons.inj split
        have opensRest : ∀ c ∈ before.getLast?, isSign c = true := fun c last =>
          opens c (by rw [List.getLast?_cons, Option.mem_def.mp last]; rfl)
        refine ⟨_, ?_, nonempty, free, before, after, rfl, rfl, opensRest, closes⟩
        rw [bytes_sign, List.length_cons, Nat.add_comm]
  · intro behind
    obtain ⟨later, rfl, nonempty, free, before, after, rfl, rfl, opens, closes⟩ := behind
    refine ⟨nonempty, free, s.char :: before, after, rfl, ?_, ?_, closes⟩
    · rw [bytes_sign, List.length_cons, Nat.add_comm]
    · rw [List.getLast?_cons]
      cases last : before.getLast? with
      | none => simpa using s.isSign_char
      | some c => simpa using opens c last

end ExactPoly.Poly
