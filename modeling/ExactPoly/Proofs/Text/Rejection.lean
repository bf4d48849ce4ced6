import ExactPoly.Proofs.Text.Segments

namespace ExactPoly

/-! Rejected sums.

The errors of a text are its dangling signs and the segments that are no terms, each at
a byte offset.  The reader stops at the leftmost one.  After a sign it has found no
error yet, so what it reports is the leftmost error of the sign and the text behind it.
-/

/-- The errors of a term that is not empty. -/
def ReadError.OfTerm : ReadError → Prop
  | coefficient _ | exponent _ _ | malformedTerm _ => True
  | empty | danglingSign _ _ => False

theorem ReadError.ofTerm_iff {e : ReadError} :
    e.OfTerm ↔ e ≠ .empty ∧ ∀ c offset, e ≠ .danglingSign c offset := by
  cases e <;> simp [OfTerm]

namespace Term

variable {text head tail whole : List Char} {e : ReadError}

theorem ofTerm_of_mapError {ε α : Type} {x : Except ε α} (f : ε → ReadError)
    (each : ∀ cause, (f cause).OfTerm) (failed : x.mapError f = .error e) : e.OfTerm := by
  cases x with
  | ok a => contradiction
  | error cause =>
      cases failed
      exact each cause

theorem readHead_error (failed : readHead whole head = .error e) : e.OfTerm := by
  unfold readHead at failed
  split at failed
  · contradiction
  · split at failed
    · contradiction
    · split at failed
      · exact ofTerm_of_mapError .coefficient (fun _ => trivial) failed
      · cases failed
        trivial

theorem readTail_error (failed : readTail whole tail = .error e) : e.OfTerm := by
  unfold readTail at failed
  split at failed
  · contradiction
  · split at failed
    · cases failed
      trivial
    · exact ofTerm_of_mapError (.exponent _) (fun _ => trivial) failed
  · cases failed
    trivial

theorem read_error (nonempty : text ≠ []) (failed : read text = .error e) : e.OfTerm := by
  by_cases power : 'x' ∈ text
  · obtain ⟨head, tail, rfl, first⟩ := List.eq_append_cons_of_mem power
    rw [read_power first] at failed
    rcases bind_error_iff.mp failed with inHead | ⟨coeff, -, remaining⟩
    · exact readHead_error inHead
    · rcases bind_error_iff.mp remaining with inTail | ⟨exponent, -, built⟩
      · exact readTail_error inTail
      · contradiction
  · rw [read_constant nonempty power, map_error_iff] at failed
    exact ofTerm_of_mapError .coefficient (fun _ => trivial) failed

end Term

namespace Poly

/-- The text is that of an unsigned term. -/
def IsTerm (text : List Char) : Prop :=
  ∃ l : Term.Literal, l.text = text

/-- An error of the text that stands after the first `base` bytes, and its offset. -/
inductive ErrorAt (base : Nat) (text : List Char) : Nat → ReadError → Prop where
  | dangling {offset : Nat} {c : Char} (dangles : Dangles text offset c) :
      ErrorAt base text (base + offset) (.danglingSign c (base + offset))
  | invalid {start : Nat} {segment : List Char} {e : ReadError}
      (placed : Segment text start segment) (failed : Term.read segment = .error e) :
      ErrorAt base text (base + start) e

def Leftmost (errors : Nat → ReadError → Prop) (e : ReadError) : Prop :=
  ∃ offset, errors offset e ∧ ∀ earlier other, errors earlier other → offset ≤ earlier

variable {text word rest : List Char} {sign : Option (Char × Nat)}
  {base offset position : Nat} {c : Char} {s : Sign} {e : ReadError} {terms : List Term}
  {pieces : List (Sign × List Char)}

theorem ErrorAt.base_le (error : ErrorAt base text position e) : base ≤ position := by
  cases error with
  | dangling => exact Nat.le_add_right _ _
  | invalid => exact Nat.le_add_right _ _

theorem not_errorAt_nil : ¬ ErrorAt base [] position e := by
  intro error
  cases error with
  | dangling dangles => exact nomatch dangles.sign.2
  | invalid placed =>
      obtain ⟨before, after, split, -⟩ := placed.within
      exact placed.nonempty (List.append_eq_nil_iff.mp (List.append_eq_nil_iff.mp split).1).2

theorem errorAt_word (nonempty : word ≠ []) (free : SignFree word)
    (closed : ∀ c ∈ rest.head?, isSign c = true) (position : Nat) (e : ReadError) :
    ErrorAt base (word ++ rest) position e ↔
      (position = base ∧ Term.read word = .error e) ∨
        ErrorAt (base + (bytes word).length) rest position e := by
  constructor
  · intro error
    cases error with
    | dangling dangles =>
        obtain ⟨later, rfl, inRest⟩ := (dangles_word free rest).mp dangles
        rw [← Nat.add_assoc]
        exact .inr (.dangling inRest)
    | invalid placed failed =>
        rcases (segment_word nonempty free closed).mp placed with
          ⟨rfl, rfl⟩ | ⟨later, rfl, inRest⟩
        · exact .inl ⟨rfl, failed⟩
        · rw [← Nat.add_assoc]
          exact .inr (.invalid inRest failed)
  · intro split
    rcases split with ⟨rfl, failed⟩ | error
    · exact .invalid ((segment_word nonempty free closed).mpr (.inl ⟨rfl, rfl⟩)) failed
    · cases error with
      | dangling inRest =>
          rw [Nat.add_assoc]
          exact .dangling ((dangles_word free rest).mpr ⟨_, rfl, inRest⟩)
      | invalid inRest failed =>
          rw [Nat.add_assoc]
          have placed := (segment_word nonempty free closed).mpr (.inr ⟨_, rfl, inRest⟩)
          exact .invalid placed failed

theorem errorAt_sign (position : Nat) (e : ReadError) :
    ErrorAt base (s.char :: rest) position e ↔
      (position = base ∧ StopAt rest 0 ∧ e = .danglingSign s.char base) ∨
        ErrorAt (base + 1) rest position e := by
  constructor
  · intro error
    cases error with
    | dangling dangles =>
        rcases dangles_sign.mp dangles with ⟨rfl, rfl, stop⟩ | ⟨later, rfl, inRest⟩
        · exact .inl ⟨rfl, stop, rfl⟩
        · rw [← Nat.add_assoc]
          exact .inr (.dangling inRest)
    | invalid placed failed =>
        obtain ⟨later, rfl, inRest⟩ := segment_sign.mp placed
        rw [← Nat.add_assoc]
        exact .inr (.invalid inRest failed)
  · intro split
    rcases split with ⟨rfl, stop, rfl⟩ | error
    · exact .dangling (dangles_sign.mpr (.inl ⟨rfl, rfl, stop⟩))
    · cases error with
      | dangling inRest =>
          rw [Nat.add_assoc]
          exact .dangling (dangles_sign.mpr (.inr ⟨_, rfl, inRest⟩))
      | invalid inRest failed =>
          rw [Nat.add_assoc]
          exact .invalid (segment_sign.mpr ⟨_, rfl, inRest⟩) failed

/-- An error in the part that is read first is the leftmost; without one, the leftmost
error is that of the part behind it. -/
theorem leftmost_iff {errors later : Nat → ReadError → Prop} {first : ReadError → Prop}
    (split : ∀ offset e, errors offset e ↔ (offset = base ∧ first e) ∨ later offset e)
    (behind : ∀ offset e, later offset e → base < offset) :
    Leftmost errors e ↔ first e ∨ (∀ other, ¬ first other) ∧ Leftmost later e := by
  constructor
  · intro leftmost
    obtain ⟨offset, error, least⟩ := leftmost
    rcases (split _ _).mp error with ⟨-, found⟩ | found
    · exact .inl found
    · refine .inr ⟨fun other atBase => ?_, offset, found, fun earlier other inLater => ?_⟩
      · have bounded := least base other ((split _ _).mpr (.inl ⟨rfl, atBase⟩))
        exact Nat.not_lt_of_le bounded (behind _ _ found)
      · exact least earlier other ((split _ _).mpr (.inr inLater))
  · intro settled
    rcases settled with found | ⟨none, offset, found, least⟩
    · refine ⟨base, (split _ _).mpr (.inl ⟨rfl, found⟩), fun earlier other error => ?_⟩
      rcases (split _ _).mp error with ⟨rfl, -⟩ | inLater
      · exact Nat.le_refl _
      · exact Nat.le_of_lt (behind _ _ inLater)
    · refine ⟨offset, (split _ _).mpr (.inr found), fun earlier other error => ?_⟩
      rcases (split _ _).mp error with ⟨-, atBase⟩ | inLater
      · exact absurd atBase (none other)
      · exact least earlier other inLater

theorem leftmost_dangling (pieces : List (Sign × List Char)) :
    Leftmost (ErrorAt base (s.char :: join pieces)) e ↔ e = .danglingSign s.char base := by
  have stop : StopAt (join pieces) 0 := (stopAt_zero_iff (List.forall_mem_nil _) pieces).mpr rfl
  rw [leftmost_iff errorAt_sign (fun _ _ error => error.base_le), or_iff_left]
  · exact and_iff_right stop
  · exact fun behind => behind.1 _ ⟨stop, rfl⟩

theorem leftmost_behind_sign (nonempty : word ≠ []) (free : SignFree word) :
    Leftmost (ErrorAt base (s.char :: (word ++ join pieces))) e ↔
      Leftmost (ErrorAt (base + 1) (word ++ join pieces)) e := by
  have goesOn : ¬ StopAt (word ++ join pieces) 0 := mt (stopAt_zero_iff free pieces).mp nonempty
  rw [leftmost_iff errorAt_sign (fun _ _ error => error.base_le), or_iff_right]
  · exact and_iff_right fun _ first => goesOn first.1
  · exact fun first => goesOn first.1

theorem head?_join (pieces : List (Sign × List Char)) :
    ∀ c ∈ (join pieces).head?, isSign c = true := by
  intro c first
  cases pieces with
  | nil => contradiction
  | cons piece pieces =>
      cases first
      exact piece.1.isSign_char

theorem leftmost_word (nonempty : word ≠ []) (free : SignFree word) :
    Leftmost (ErrorAt base (word ++ join pieces)) e ↔
      Term.read word = .error e ∨ (∀ other, Term.read word ≠ .error other) ∧
        Leftmost (ErrorAt (base + (bytes word).length) (join pieces)) e :=
  leftmost_iff (errorAt_word nonempty free (head?_join pieces)) fun _ _ error =>
    Nat.lt_of_lt_of_le (Nat.lt_add_of_pos_right (length_bytes_pos nonempty)) error.base_le

theorem not_leftmost_nil : ¬ Leftmost (ErrorAt base []) e := by
  intro leftmost
  obtain ⟨offset, error, -⟩ := leftmost
  exact not_errorAt_nil error

theorem readSegment_error_iff (nonempty : word ≠ []) :
    readSegment sign word terms = .error e ↔ Term.read word = .error e := by
  obtain ⟨c, rest, rfl⟩ := List.exists_cons_of_ne_nil nonempty
  rw [readSegment, bind_error_iff, or_iff_left]
  intro merged
  obtain ⟨t, -, failed⟩ := merged
  contradiction

theorem readFrom_dangling (pieces : List (Sign × List Char)) :
    readFrom (some (s.char, position)) [] offset terms (join pieces) =
      .error (.danglingSign s.char position) := by
  cases pieces with
  | nil => rfl
  | cons piece pieces => exact readFrom_sign piece.1 (piece.2 ++ join pieces)

/-- One step over a sign, which is an error itself if no word stands behind it. -/
theorem readFrom_sign_error_iff (free : SignFree word)
    (behind : word ≠ [] →
      (readFrom (some (s.char, base)) [] (base + 1) terms (word ++ join pieces) = .error e ↔
        Leftmost (ErrorAt (base + 1) (word ++ join pieces)) e)) :
    readFrom (some (s.char, base)) [] (base + s.char.utf8Size) terms (word ++ join pieces) =
        .error e ↔
      Leftmost (ErrorAt base (s.char :: (word ++ join pieces))) e := by
  have size : s.char.utf8Size = 1 := by cases s <;> rfl
  by_cases empty : word = []
  · subst empty
    rw [List.nil_append, readFrom_dangling, leftmost_dangling, Except.error.injEq, eq_comm]
  · rw [size, behind empty, leftmost_behind_sign empty free]

theorem readFrom_error_iff (nonempty : word ≠ []) (free : SignFree word)
    (each : ∀ piece ∈ pieces, SignFree piece.2) :
    readFrom sign [] offset terms (word ++ join pieces) = .error e ↔
      Leftmost (ErrorAt offset (word ++ join pieces)) e := by
  -- The sign of the next piece ends the word before it.  If that word is a term, the
  -- errors left are those of the sign and of the text behind it.
  induction pieces generalizing word sign offset terms with
  | nil =>
      rw [leftmost_word nonempty free, readFrom_word free, List.append_nil, join,
        List.flatMap_nil, readFrom, List.reverse_reverse, readSegment_error_iff nonempty,
        or_iff_left]
      exact fun behind => not_leftmost_nil behind.2
  | cons piece pieces ih =>
      obtain ⟨s, next⟩ := piece
      obtain ⟨nextFree, eachFree⟩ := List.forall_mem_cons.mp each
      have unfolded : join ((s, next) :: pieces) = s.char :: (next ++ join pieces) := rfl
      rw [leftmost_word nonempty free, readFrom_word free, List.append_nil, length_bytes, unfolded,
        readFrom_sign, List.reverse_reverse, bind_error_iff, readSegment_error_iff nonempty]
      have behind (merged : List Term) :
          readFrom (some (s.char, offset + byteSize word)) []
              (offset + byteSize word + s.char.utf8Size) merged (next ++ join pieces) = .error e ↔
            Leftmost (ErrorAt (offset + byteSize word) (s.char :: (next ++ join pieces))) e :=
        readFrom_sign_error_iff nextFree fun nextNonempty => ih nextNonempty nextFree eachFree
      refine or_congr_right ⟨fun scanned => ?_, fun leftmost => ?_⟩
      · obtain ⟨merged, done, failed⟩ := scanned
        refine ⟨fun other unread => ?_, (behind merged).mp failed⟩
        have stopped : readSegment sign word terms = .error other :=
          (readSegment_error_iff nonempty).mpr unread
        rw [done] at stopped
        contradiction
      · cases done : readSegment sign word terms with
        | error other => exact absurd ((readSegment_error_iff nonempty).mp done) (leftmost.1 other)
        | ok merged => exact ⟨merged, rfl, (behind merged).mpr leftmost.2⟩

theorem read_error_iff :
    read text = .error e ↔ (text = [] ∧ e = .empty) ∨ Leftmost (ErrorAt 0 text) e := by
  by_cases empty : text = []
  · subst empty
    rw [read, if_pos rfl, or_iff_left not_leftmost_nil, and_iff_right rfl, Except.error.injEq,
      eq_comm]
  rw [read, if_neg empty, map_error_iff, or_iff_right fun first => empty first.1]
  obtain ⟨word, pieces, free, each, rfl⟩ := exists_pieces text
  by_cases signFirst : word = []
  · subst signFirst
    cases pieces with
    | nil => contradiction
    | cons piece pieces =>
        obtain ⟨s, next⟩ := piece
        obtain ⟨nextFree, eachFree⟩ := List.forall_mem_cons.mp each
        have unfolded : [] ++ join ((s, next) :: pieces) = s.char :: (next ++ join pieces) := rfl
        rw [unfolded, readFrom_sign]
        exact readFrom_sign_error_iff nextFree fun nonempty =>
          readFrom_error_iff nonempty nextFree eachFree
  · exact readFrom_error_iff signFirst free each

/-- Before a byte offset all segments are terms, and no sign dangles. -/
structure SoundBefore (text : List Char) (offset : Nat) : Prop where
  terms : ∀ start segment, Segment text start segment → start < offset → IsTerm segment
  signs : ∀ earlier c, Dangles text earlier c → ¬ earlier < offset

theorem isTerm_iff (free : SignFree word) : IsTerm word ↔ ∀ e, Term.read word ≠ .error e := by
  constructor
  · intro isTerm e failed
    obtain ⟨l, rfl⟩ := isTerm
    exact nomatch l.read_text.symm.trans failed
  · intro accepted
    cases done : Term.read word with
    | error e => exact absurd done (accepted e)
    | ok t =>
        obtain ⟨l, spelled, -⟩ := (Term.read_unsigned_iff free).mp done
        exact ⟨l, spelled⟩

theorem soundBefore_iff :
    SoundBefore text offset ↔
      ∀ earlier other, ErrorAt 0 text earlier other → offset ≤ earlier := by
  constructor
  · intro sound earlier other error
    rw [← Nat.not_lt]
    intro before
    cases error with
    | dangling dangles => exact sound.signs _ _ dangles (by omega)
    | invalid placed failed =>
        have isTerm := sound.terms _ _ placed (by omega)
        exact (isTerm_iff placed.free).mp isTerm other failed
  · intro least
    constructor
    · intro start segment placed before
      refine (isTerm_iff placed.free).mpr fun e failed => ?_
      have bounded := least _ _ (.invalid placed failed)
      omega
    · intro earlier c dangles before
      have bounded := least _ _ (.dangling dangles)
      omega

theorem not_leftmost_empty : ¬ Leftmost (ErrorAt 0 text) .empty := by
  intro leftmost
  obtain ⟨position, error, -⟩ := leftmost
  cases error with
  | invalid placed failed => exact Term.read_error placed.nonempty failed

theorem leftmost_iff_dangling :
    Leftmost (ErrorAt 0 text) (.danglingSign c offset) ↔
      Dangles text offset c ∧ SoundBefore text offset := by
  rw [soundBefore_iff]
  constructor
  · intro leftmost
    obtain ⟨position, error, least⟩ := leftmost
    generalize same : ReadError.danglingSign c offset = e at error
    cases error with
    | dangling dangles =>
        cases same
        rw [Nat.zero_add] at least ⊢
        exact ⟨dangles, least⟩
    | invalid placed failed =>
        cases same
        exact (Term.read_error placed.nonempty failed).elim
  · intro first
    obtain ⟨dangles, least⟩ := first
    have error : ErrorAt 0 text (0 + offset) (.danglingSign c (0 + offset)) := .dangling dangles
    rw [Nat.zero_add] at error
    exact ⟨offset, error, least⟩

theorem leftmost_iff_invalid :
    Leftmost (ErrorAt 0 text) e ∧ e.OfTerm ↔
      ∃ start segment, Segment text start segment ∧ ¬ IsTerm segment ∧
        Term.read segment = .error e ∧ SoundBefore text start := by
  constructor
  · intro leftmost
    obtain ⟨⟨position, error, least⟩, ofTerm⟩ := leftmost
    cases error with
    | dangling => exact ofTerm.elim
    | invalid placed failed =>
        rw [Nat.zero_add, ← soundBefore_iff] at least
        have noTerm := mt (isTerm_iff placed.free).mp fun accepted => accepted e failed
        exact ⟨_, _, placed, noTerm, failed, least⟩
  · intro first
    obtain ⟨start, segment, placed, -, failed, sound⟩ := first
    have error : ErrorAt 0 text (0 + start) e := .invalid placed failed
    have ofTerm := Term.read_error placed.nonempty failed
    rw [Nat.zero_add] at error
    exact ⟨⟨start, error, soundBefore_iff.mp sound⟩, ofTerm⟩

/-- A text is rejected for its leftmost error: the empty text for being empty, and any
other for a dangling sign or for a segment that is no term, whichever comes first. -/
theorem read_reports_leftmost_error (text : List Char) :
    (read text = .error .empty ↔ text = []) ∧
      (∀ c offset, read text = .error (.danglingSign c offset) ↔
        Dangles text offset c ∧ SoundBefore text offset) ∧
      ∀ e, (read text = .error e ∧ e ≠ .empty ∧ ∀ c offset, e ≠ .danglingSign c offset) ↔
        ∃ start segment, Segment text start segment ∧ ¬ IsTerm segment ∧
          Term.read segment = .error e ∧ SoundBefore text start := by
  refine ⟨?_, fun c offset => ?_, fun e => ?_⟩
  · rw [read_error_iff, and_iff_left rfl, or_iff_left not_leftmost_empty]
  · rw [read_error_iff, or_iff_right (by simp), leftmost_iff_dangling]
  · rw [← ReadError.ofTerm_iff, ← leftmost_iff_invalid, read_error_iff]
    refine and_congr_left fun ofTerm => or_iff_right fun empty => ?_
    exact (ReadError.ofTerm_iff.mp ofTerm).1 empty.2

/-- The doubled sign comes before the segment that is no term and the sign at the end. -/
example : read ['3', '*', 'x', '+', '+', 'é', '-'] = .error (.danglingSign '+' 3) := by decide

end Poly

end ExactPoly
