import ExactPoly.CommandLine.Arguments
import ExactPoly.Proofs.Success

namespace ExactPoly.CommandLine

/-! Argument lists with one more option.

The options of a run are collected item by item, and every item only changes what it
is about.  An argument list that leaves the verbosity open can therefore be given one
in front.
-/

variable {a next result : Arguments} {v : Verbosity} {setting : Setting} {value path : String}
  {item : Item} {items : List Item} {arguments : List String}

namespace Arguments

def asking (a : Arguments) (v : Verbosity) : Arguments :=
  { a with verbosity := some v }

theorem set_verbosity (given : a.verbosity = some v)
    (done : a.set value setting = .ok next) : next.verbosity = some v := by
  cases setting with
  | lines => cases done; exact given
  | config => obtain ⟨-, -, rfl⟩ := map_ok_iff.mp done; exact given
  | historyFile => obtain ⟨-, -, rfl⟩ := map_ok_iff.mp done; exact given
  | verbosity =>
      rw [set, given] at done
      contradiction

theorem set_asking (v : Verbosity) (unset : next.verbosity = none)
    (done : a.set value setting = .ok next) :
    (a.asking v).set value setting = .ok (next.asking v) := by
  cases setting with
  | lines => cases done; rfl
  | config =>
      obtain ⟨file, found, rfl⟩ := map_ok_iff.mp done
      exact map_ok_iff.mpr ⟨file, found, rfl⟩
  | historyFile =>
      obtain ⟨file, found, rfl⟩ := map_ok_iff.mp done
      exact map_ok_iff.mpr ⟨file, found, rfl⟩
  | verbosity =>
      -- This setting would have left a verbosity behind.
      simp only [set] at done
      split at done
      · contradiction
      · split at done
        · contradiction
        · cases done
          contradiction

theorem setScript_ok_iff :
    a.setScript path = .ok next ↔
      a.options.script = none ∧ path ≠ "" ∧ { a with options.script := some path } = next := by
  unfold setScript single
  by_cases given : a.options.script = none
  · by_cases empty : path = ""
    · simp [given, empty, Except.map]
    · simp [given, empty, Except.map]
  · simp [given, Option.isSome_iff_ne_none]

/-- What an item does to the options, unless it ends their collection. -/
inductive Takes : Arguments → Item → Arguments → Prop where
  | quiet {a : Arguments} (first : ¬ a.options.quiet = true) :
      Takes a (.flag .quiet) { a with options.quiet := true }
  | noHistory {a : Arguments} (first : ¬ a.options.noHistory = true) :
      Takes a (.flag .noHistory) { a with options.noHistory := true }
  | setting {a next : Arguments} {setting : Setting} {value : String}
      (done : a.set value setting = .ok next) : Takes a (.setting setting value) next
  | script {a next : Arguments} {path : String} (done : a.setScript path = .ok next) :
      Takes a (.positional path) next

theorem Takes.verbosity (taken : Takes a item next) (given : a.verbosity = some v) :
    next.verbosity = some v := by
  cases taken with
  | quiet => exact given
  | noHistory => exact given
  | setting done => exact set_verbosity given done
  | script done =>
      obtain ⟨-, -, rfl⟩ := setScript_ok_iff.mp done
      exact given

theorem Takes.asking (taken : Takes a item next) (v : Verbosity)
    (unset : next.verbosity = none) : Takes (a.asking v) item (next.asking v) := by
  cases taken with
  | quiet first => exact .quiet first
  | noHistory first => exact .noHistory first
  | setting done => exact .setting (set_asking v unset done)
  | script done =>
      obtain ⟨noScript, nonempty, rfl⟩ := setScript_ok_iff.mp done
      exact .script (setScript_ok_iff.mpr ⟨noScript, nonempty, rfl⟩)

end Arguments

namespace Request

open Arguments

theorem ofItems_cons_iff :
    ofItems a (item :: items) = .ok (.run result) ↔
      ∃ next, Takes a item next ∧ ofItems next items = .ok (.run result) := by
  constructor
  · intro collected
    cases item with
    | misuse cause => contradiction
    | flag name =>
        cases name with
        | help => cases collected
        | version => cases collected
        | quiet =>
            rw [ofItems] at collected
            split at collected
            · contradiction
            · exact ⟨_, .quiet ‹_›, collected⟩
        | noHistory =>
            rw [ofItems] at collected
            split at collected
            · contradiction
            · exact ⟨_, .noHistory ‹_›, collected⟩
    | setting name value =>
        rw [ofItems] at collected
        split at collected
        · contradiction
        · exact ⟨_, .setting ‹_›, collected⟩
    | positional path =>
        rw [ofItems] at collected
        split at collected
        · contradiction
        · exact ⟨_, .script ‹_›, collected⟩
  · intro continued
    obtain ⟨next, taken, rest⟩ := continued
    cases taken with
    | quiet first =>
        rw [ofItems, if_neg first]
        exact rest
    | noHistory first =>
        rw [ofItems, if_neg first]
        exact rest
    | setting done =>
        rw [ofItems, done]
        exact rest
    | script done =>
        rw [ofItems, done]
        exact rest

theorem ofItems_verbosity (given : a.verbosity = some v)
    (collected : ofItems a items = .ok (.run result)) : result.verbosity = some v := by
  induction items generalizing a with
  | nil => cases collected; exact given
  | cons item items ih =>
      obtain ⟨next, taken, rest⟩ := ofItems_cons_iff.mp collected
      exact ih (taken.verbosity given) rest

theorem ofItems_asking (v : Verbosity) (unset : result.verbosity = none)
    (collected : ofItems a items = .ok (.run result)) :
    ofItems (a.asking v) items = .ok (.run (result.asking v)) := by
  induction items generalizing a with
  | nil => cases collected; rfl
  | cons item items ih =>
      obtain ⟨next, taken, rest⟩ := ofItems_cons_iff.mp collected
      have nextUnset : next.verbosity = none := by
        refine Option.eq_none_iff_forall_ne_some.mpr fun w given => ?_
        have kept := ofItems_verbosity given rest
        rw [unset] at kept
        contradiction
      exact ofItems_cons_iff.mpr ⟨next.asking v, taken.asking v nextUnset, ih rest⟩

/-- Arguments that leave the verbosity open can follow a request for one. -/
theorem ofArguments_asking (v : Verbosity) (unset : a.verbosity = none)
    (read : ofArguments arguments = .ok (.run a)) :
    ofArguments ("--verbosity" :: v.name :: arguments) = .ok (.run (a.asking v)) := by
  have items : Item.ofArguments none ("--verbosity" :: v.name :: arguments) =
      .setting .verbosity v.name :: Item.ofArguments none arguments := by
    cases v <;> rfl
  have first : Takes {} (.setting .verbosity v.name) (Arguments.asking {} v) := by
    apply Takes.setting
    rw [Arguments.set, Verbosity.named?_name]
    rfl
  rw [ofArguments, items]
  exact ofItems_cons_iff.mpr ⟨_, first, ofItems_asking v unset read⟩

end Request

end ExactPoly.CommandLine
