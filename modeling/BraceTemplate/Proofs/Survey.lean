import BraceTemplate.Proofs.PlainTree

/-!
# Surveying a way

The survey of a way tells from the file system as it stands what making the directories
along it will do: which places are directories afterwards, whether one of them is made,
and what stops it. A file system that has grown gives the same survey, as long as
nothing was put in the way; only a file that was found while directories were made may
be reported in another manner.
-/
namespace BraceTemplate

/-- How far a way has come, the places on it that are directories in the end, whether one of
them is missing yet, and what stands in the way. -/
structure Survey where
  here : Location
  passed : List Location
  made : Bool
  cause : Option Cause

namespace Survey

def start (l : Location) : Survey := ⟨l, [l], false, none⟩

/-- One more step behind an obstacle. A path through a file is refused as a whole, unless a
directory before the file was missing: then it is the file that could not be made. -/
def halt (v : Survey) : Survey :=
  if v.cause = some .alreadyExists ∧ v.made = false then { v with cause := some .notDirectory }
  else v

def next (fs : FileSystem) (v : Survey) : PathStep → Survey
  | .stay => v
  | .up =>
    if v.cause = none then
      { v with here := v.here.dropLast, passed := v.here.dropLast :: v.passed }
    else v.halt
  | .down name =>
    if v.cause = none then
      if name.isTooLong then { v with cause := some .nameTooLong }
      else if fs.blocks (v.here ++ [name]) then { v with cause := some .alreadyExists }
      else ⟨v.here ++ [name], (v.here ++ [name]) :: v.passed,
        v.made || (fs.entry? (v.here ++ [name])).isNone, none⟩
    else v.halt

/-- All that a step can do. -/
inductive Moves (fs : FileSystem) (v : Survey) : PathStep → Survey → Prop
  | stay : Moves fs v .stay v
  | halt {s : PathStep} (moving : s ≠ .stay) (stuck : v.cause ≠ none) : Moves fs v s v.halt
  | up (clear : v.cause = none) :
    Moves fs v .up { v with here := v.here.dropLast, passed := v.here.dropLast :: v.passed }
  | long {name : FileName} (clear : v.cause = none) (long : name.isTooLong = true) :
    Moves fs v (.down name) { v with cause := some .nameTooLong }
  | block {name : FileName} (clear : v.cause = none) (short : name.isTooLong = false)
    (block : fs.blocks (v.here ++ [name]) = true) :
    Moves fs v (.down name) { v with cause := some .alreadyExists }
  | down {name : FileName} (clear : v.cause = none) (short : name.isTooLong = false)
    (free : fs.blocks (v.here ++ [name]) = false) :
    Moves fs v (.down name) ⟨v.here ++ [name], (v.here ++ [name]) :: v.passed,
      v.made || (fs.entry? (v.here ++ [name])).isNone, none⟩

theorem moves_next (fs : FileSystem) (v : Survey) (s : PathStep) : v.Moves fs s (v.next fs s) := by
  cases s with
  | stay => exact .stay
  | up =>
    rw [next]
    split
    · next clear => exact .up clear
    · next stuck => exact .halt (by simp) stuck
  | down name =>
    rw [next]
    split
    · next clear =>
      split
      · next long => exact .long clear long
      · next short =>
        split
        · next block => exact .block clear (eq_false_of_ne_true short) block
        · next free =>
          exact .down clear (eq_false_of_ne_true short)
            (eq_false_of_ne_true free)
    · next stuck => exact .halt (by simp) stuck

@[simp] theorem here_halt (v : Survey) : v.halt.here = v.here := by
  rw [halt]
  split
  · rfl
  · rfl

@[simp] theorem passed_halt (v : Survey) : v.halt.passed = v.passed := by
  rw [halt]
  split
  · rfl
  · rfl

@[simp] theorem made_halt (v : Survey) : v.halt.made = v.made := by
  rw [halt]
  split
  · rfl
  · rfl

theorem halt_of_made {v : Survey} (made : v.made = true) : v.halt = v := by
  rw [halt, if_neg]
  simp [made]

theorem halt_of_cause {v : Survey} (other : v.cause ≠ some .alreadyExists) : v.halt = v := by
  rw [halt, if_neg]
  exact fun h => other h.1

theorem cause_halt_of_file {v : Survey} (there : v.made = false)
    (file : v.cause = some .alreadyExists ∨ v.cause = some .notDirectory) :
    v.halt.cause = some .notDirectory := by
  rcases file with file | file
  · rw [halt, if_pos ⟨file, there⟩]
  · rw [halt_of_cause (by simp [file]), file]

theorem cause_halt_ne_none {v : Survey} (stuck : v.cause ≠ none) : v.halt.cause ≠ none := by
  rw [halt]
  split
  · simp
  · exact stuck

theorem Moves.passed_subset {fs : FileSystem} {v w : Survey} {s : PathStep}
    (move : v.Moves fs s w) : v.passed ⊆ w.passed := by
  intro l listed
  cases move with
  | stay => exact listed
  | halt => rwa [passed_halt]
  | up => exact List.mem_cons_of_mem _ listed
  | long => exact listed
  | block => exact listed
  | down => exact List.mem_cons_of_mem _ listed

/-- Nothing blocks the places passed, and unless one is missing they are directories. -/
structure Sound (fs : FileSystem) (v : Survey) : Prop where
  here : v.here ∈ v.passed
  free : ∀ l ∈ v.passed, ∀ k, k <+: l → fs.blocks k = false
  unmade : v.made = false ↔ ∀ l ∈ v.passed, fs.entry? l = some .directory

variable {fs fs' : FileSystem} {v w : Survey}

theorem sound_start {l : Location} (dir : fs.entry? l = some .directory) : (start l).Sound fs where
  here := List.mem_singleton_self l
  free := by
    intro k listed j h
    rw [List.mem_singleton.mp listed] at h
    exact FileSystem.blocks_eq_false.mpr (Or.inr (FileSystem.directory_of_prefix dir h))
  unmade := by
    refine ⟨fun _ k listed => ?_, fun _ => rfl⟩
    rw [List.mem_singleton.mp listed]
    exact dir

theorem Moves.sound {s : PathStep} (move : v.Moves fs s w) (sound : v.Sound fs) :
    w.Sound fs := by
  cases move with
  | stay => exact sound
  | halt =>
    refine ⟨?_, ?_, ?_⟩
    · rw [here_halt, passed_halt]
      exact sound.here
    · rw [passed_halt]
      exact sound.free
    · rw [made_halt, passed_halt]
      exact sound.unmade
  | up =>
    refine ⟨List.mem_cons_self, ?_, ?_⟩
    · intro l listed k h
      rcases List.mem_cons.mp listed with rfl | listed
      · exact sound.free v.here sound.here k (h.trans (List.dropLast_prefix v.here))
      · exact sound.free l listed k h
    · refine sound.unmade.trans ⟨fun all l listed => ?_, fun all l listed => ?_⟩
      · rcases List.mem_cons.mp listed with rfl | listed
        · exact FileSystem.directory_dropLast (all v.here sound.here)
        · exact all l listed
      · exact all l (List.mem_cons_of_mem _ listed)
  | long => exact ⟨sound.here, sound.free, sound.unmade⟩
  | block => exact ⟨sound.here, sound.free, sound.unmade⟩
  | @down name _ _ free =>
    refine ⟨List.mem_cons_self, ?_, ?_⟩
    · intro l listed k h
      rcases List.mem_cons.mp listed with rfl | listed
      · rcases List.prefix_concat_iff.mp h with rfl | h
        · exact free
        · exact sound.free v.here sound.here k h
      · exact sound.free l listed k h
    · have there : (fs.entry? (v.here ++ [name])).isNone = false ↔
          fs.entry? (v.here ++ [name]) = some .directory := by
        rcases FileSystem.blocks_eq_false.mp free with missing | dir
        · simp [missing]
        · simp [dir]
      rw [Bool.or_eq_false_iff, sound.unmade, there, List.forall_mem_cons, and_comm]

/-- What looking along the way finds, before anything is made. -/
inductive Sees (fs : FileSystem) (v : Survey) : Except Cause Location → Prop
  | missing (made : v.made = true) : Sees fs v (.error .notFound)
  | clear (there : v.made = false) (clear : v.cause = none) : Sees fs v (.ok v.here)
  | atFile {l : Location} (there : v.made = false) (file : v.cause = some .alreadyExists)
    (block : fs.entry? l ≠ some .directory) : Sees fs v (.ok l)
  | throughFile (there : v.made = false)
    (file : v.cause = some .alreadyExists ∨ v.cause = some .notDirectory) :
    Sees fs v (.error .notDirectory)
  | longName (there : v.made = false) (long : v.cause = some .nameTooLong) :
    Sees fs v (.error .nameTooLong)

theorem Moves.made {s : PathStep} (move : v.Moves fs s w) (made : v.made = true) :
    w.made = true := by
  cases move with
  | stay => exact made
  | halt => rwa [made_halt]
  | up => exact made
  | long => exact made
  | block => exact made
  | down => simp [made]

theorem Moves.sees_of_clear {s : PathStep} (move : v.Moves fs s w) (sound : v.Sound fs)
    (there : v.made = false) (clear : v.cause = none) : w.Sees fs (fs.step? v.here s) := by
  have dir := sound.unmade.mp there v.here sound.here
  cases move with
  | stay =>
    rw [FileSystem.step?, if_pos dir]
    exact .clear there clear
  | halt _ stuck => exact absurd clear stuck
  | up =>
    rw [FileSystem.step?, if_pos dir]
    exact .clear there clear
  | long _ long =>
    rw [FileSystem.step?, if_pos dir, if_pos long]
    exact .longName there rfl
  | block _ short block =>
    have found := FileSystem.blocks_eq_true.mp block
    rw [FileSystem.step?, if_pos dir, if_neg (by simp [short]), if_pos found.1]
    exact .atFile there rfl found.2
  | @down name _ short free =>
    rw [FileSystem.step?, if_pos dir, if_neg (by simp [short])]
    rcases FileSystem.blocks_eq_false.mp free with missing | found
    · rw [if_neg (by simp [missing])]
      exact .missing (by simp [missing])
    · rw [if_pos (by simp [found])]
      exact .clear (by simp [there, found]) rfl

theorem Moves.sees {s : PathStep} (move : v.Moves fs s w) (sound : v.Sound fs)
    {found : Except Cause Location} (sees : v.Sees fs found) :
    w.Sees fs (found >>= fun l => fs.step? l s) := by
  cases sees with
  | missing made => exact .missing (move.made made)
  | clear there clear => exact move.sees_of_clear sound there clear
  | @atFile l there file block =>
    change Sees fs w (fs.step? l s)
    unfold FileSystem.step?
    rw [if_neg block]
    cases move with
    | stay => exact .throughFile there (Or.inl file)
    | halt =>
      exact .throughFile (by rwa [made_halt]) (Or.inr (cause_halt_of_file there (Or.inl file)))
    | up clear => simp [clear] at file
    | long clear => simp [clear] at file
    | block clear => simp [clear] at file
    | down clear => simp [clear] at file
  | throughFile there file =>
    change Sees fs w (.error .notDirectory)
    cases move with
    | stay => exact .throughFile there file
    | halt => exact .throughFile (by rwa [made_halt]) (Or.inr (cause_halt_of_file there file))
    | up clear => simp [clear] at file
    | long clear => simp [clear] at file
    | block clear => simp [clear] at file
    | down clear => simp [clear] at file
  | longName there long =>
    change Sees fs w (.error .nameTooLong)
    cases move with
    | stay => exact .longName there long
    | halt => exact .longName (by rwa [made_halt]) (by rw [halt_of_cause (by simp [long]), long])
    | up clear => simp [clear] at long
    | long clear => simp [clear] at long
    | block clear => simp [clear] at long
    | down clear => simp [clear] at long

theorem Moves.reach {s : PathStep} (move : v.Moves fs s w) (clear : w.cause = none) :
    v.cause = none ∧ w.here = FileSystem.reach v.here [s] := by
  cases move with
  | stay => exact ⟨clear, rfl⟩
  | halt _ stuck => exact absurd clear (cause_halt_ne_none stuck)
  | up before => exact ⟨before, rfl⟩
  | long => cases clear
  | block => cases clear
  | down before => exact ⟨before, rfl⟩

theorem Moves.cause_ne_notDirectory {s : PathStep} (move : v.Moves fs s w)
    (clear : v.cause = none) : w.cause ≠ some .notDirectory := by
  cases move with
  | stay => simp [clear]
  | halt _ stuck => exact absurd clear stuck
  | up => simp [clear]
  | long => simp
  | block => simp
  | down => simp

theorem Moves.mem_passed {s : PathStep} (move : v.Moves fs s w) {l : Location}
    (listed : l ∈ w.passed) :
    l ∈ v.passed ∨ v.cause = none ∧ l = FileSystem.reach v.here [s] := by
  cases move with
  | stay => exact Or.inl listed
  | halt =>
    rw [passed_halt] at listed
    exact Or.inl listed
  | up before =>
    rcases List.mem_cons.mp listed with rfl | listed
    · exact Or.inr ⟨before, rfl⟩
    · exact Or.inl listed
  | long => exact Or.inl listed
  | block => exact Or.inl listed
  | down before =>
    rcases List.mem_cons.mp listed with rfl | listed
    · exact Or.inr ⟨before, rfl⟩
    · exact Or.inl listed

/-- The surveys of one way before and after the file system has grown. What was missing may be
there, and then a file in the way may be reported in the other manner. -/
structure Matches (v w : Survey) : Prop where
  here : w.here = v.here
  passed : w.passed = v.passed
  made : w.made = true → v.made = true
  cause : w.cause = v.cause ∨
    v.made = true ∧ v.cause = some .alreadyExists ∧ w.cause = some .notDirectory

theorem Matches.clear_iff (same : v.Matches w) : w.cause = none ↔ v.cause = none := by
  rcases same.cause with same | ⟨-, before, after⟩
  · rw [same]
  · simp [before, after]

theorem Matches.halt (same : v.Matches w) : v.halt.Matches w.halt where
  here := by simp [same.here]
  passed := by simp [same.passed]
  made := by simpa using same.made
  cause := by
    rcases same.cause with cause | ⟨made, file, through⟩
    · by_cases file : v.cause = some .alreadyExists
      · cases made : v.made with
        | false =>
          have made' : w.made = false := eq_false_of_ne_true fun h => by
            rw [same.made h] at made
            cases made
          left
          rw [cause_halt_of_file made (Or.inl file),
            cause_halt_of_file made' (Or.inl (cause.trans file))]
        | true =>
          rw [halt_of_made made]
          cases made' : w.made with
          | false => exact Or.inr ⟨made, file, cause_halt_of_file made' (Or.inl (cause.trans file))⟩
          | true => exact Or.inl (by rw [halt_of_made made', cause])
      · left
        rw [halt_of_cause file, halt_of_cause (by rwa [cause]), cause]
    · right
      rw [halt_of_made made, halt_of_cause (by simp [through])]
      exact ⟨made, file, through⟩

theorem next_of_stuck {s : PathStep} (moving : s ≠ .stay) (stuck : w.cause ≠ none) :
    w.next fs s = w.halt := by
  cases s with
  | stay => exact absurd rfl moving
  | up => rw [next, if_neg stuck]
  | down name => rw [next, if_neg stuck]

theorem Moves.matches_next {v' : Survey} {s : PathStep} (move : v.Moves fs s v')
    (same : v.Matches w) (grows : fs.Grows fs') (free : ∀ l ∈ v'.passed, fs'.blocks l = false) :
    v'.Matches (w.next fs' s) := by
  cases move with
  | stay => exact same
  | halt moving stuck =>
    rw [next_of_stuck moving (mt same.clear_iff.mp stuck)]
    exact same.halt
  | up clear =>
    rw [next, if_pos (same.clear_iff.mpr clear)]
    exact ⟨by simp [same.here], by simp [same.here, same.passed], same.made, same.cause⟩
  | long clear long =>
    rw [next, if_pos (same.clear_iff.mpr clear), if_pos long]
    exact ⟨same.here, same.passed, same.made, Or.inl rfl⟩
  | block clear short block =>
    have block' := grows.blocks _ block
    rw [← same.here] at block'
    rw [next, if_pos (same.clear_iff.mpr clear), if_neg (by simp [short]), if_pos block']
    exact ⟨same.here, same.passed, same.made, Or.inl rfl⟩
  | @down name clear short _ =>
    have free' := free _ List.mem_cons_self
    rw [← same.here] at free'
    rw [next, if_pos (same.clear_iff.mpr clear), if_neg (by simp [short]),
      if_neg (by simp [free']), same.here, same.passed]
    refine ⟨rfl, rfl, ?_, Or.inl rfl⟩
    simp only [Bool.or_eq_true, Option.isNone_iff_eq_none]
    rintro (made | missing)
    · exact Or.inl (same.made made)
    · right
      cases found : fs.entry? (v.here ++ [name]) with
      | none => rfl
      | some e =>
        have there := grows.isSome (l := v.here ++ [name]) (by simp [found])
        rw [missing] at there
        cases there

/-- If something was missing, the way has come to a missing place and has met no file. -/
def Firm (fs : FileSystem) (v : Survey) : Prop :=
  v.made = true → fs.entry? v.here = none ∧ v.cause ≠ some .alreadyExists

/-- A step that does not go up keeps a survey firm, since below a missing place all is missing. -/
theorem Moves.firm {s : PathStep} (move : v.Moves fs s w) (down : s ≠ .up) (firm : v.Firm fs) :
    w.Firm fs := by
  intro made
  have missing_below : v.made = true → ∀ name, fs.entry? (v.here ++ [name]) = none := by
    intro made name
    cases found : fs.entry? (v.here ++ [name]) with
    | none => rfl
    | some e =>
      have dir := FileSystem.directory_of_entry?_concat found
      rw [(firm made).1] at dir
      cases dir
  cases move with
  | stay => exact firm made
  | halt =>
    rw [made_halt] at made
    rw [halt_of_made made]
    exact firm made
  | up => exact absurd rfl down
  | long => exact ⟨(firm made).1, by simp⟩
  | @block name _ _ block =>
    rw [FileSystem.blocks, missing_below made name] at block
    cases block
  | @down name =>
    refine ⟨?_, by simp⟩
    rcases Bool.or_eq_true_iff.mp made with made | missing
    · exact missing_below made name
    · exact Option.isNone_iff_eq_none.mp missing

theorem Moves.made_of_up (move : v.Moves fs .up w) : w.made = v.made := by
  cases move with
  | halt => exact made_halt v
  | up => rfl

end Survey

namespace FileSystem
variable {fs fs' : FileSystem}

/-- The survey of a whole way. -/
def survey (fs : FileSystem) (here : Location) (steps : List PathStep) : Survey :=
  steps.foldl (Survey.next fs) (Survey.start here)

theorem survey_concat (fs : FileSystem) (here : Location) (steps : List PathStep) (s : PathStep) :
    fs.survey here (steps ++ [s]) = (fs.survey here steps).next fs s := by
  rw [survey, List.foldl_append]
  rfl

theorem moves_survey (fs : FileSystem) (here : Location) (steps : List PathStep) (s : PathStep) :
    (fs.survey here steps).Moves fs s (fs.survey here (steps ++ [s])) := by
  rw [survey_concat]
  exact Survey.moves_next fs _ s

section Whole
variable {here : Location} (dir : fs.entry? here = some .directory)
include dir

theorem sound_survey (steps : List PathStep) : (fs.survey here steps).Sound fs := by
  induction steps using List.reverseRecOn with
  | nil => exact Survey.sound_start dir
  | append_singleton steps s ih => exact (fs.moves_survey here steps s).sound ih

theorem sees_survey (steps : List PathStep) :
    (fs.survey here steps).Sees fs (fs.look here steps) := by
  induction steps using List.reverseRecOn with
  | nil => exact .clear rfl rfl
  | append_singleton steps s ih =>
    rw [look_concat]
    exact (fs.moves_survey here steps s).sees (sound_survey dir steps) ih

end Whole

theorem here_survey {here : Location} {steps : List PathStep}
    (clear : (fs.survey here steps).cause = none) :
    (fs.survey here steps).here = reach here steps := by
  induction steps using List.reverseRecOn with
  | nil => rfl
  | append_singleton steps s ih =>
    obtain ⟨before, last⟩ := (fs.moves_survey here steps s).reach clear
    rw [last, ih before, reach_append]

theorem passed_survey_subset (fs : FileSystem) (here : Location) (steps more : List PathStep) :
    (fs.survey here steps).passed ⊆ (fs.survey here (steps ++ more)).passed := by
  induction more using List.reverseRecOn with
  | nil =>
    rw [List.append_nil]
    exact List.Subset.refl _
  | append_singleton more s ih =>
    rw [← List.append_assoc]
    exact List.Subset.trans ih (fs.moves_survey here (steps ++ more) s).passed_subset

/-- Names at the end of a way add the places below the one that it has come to. -/
theorem mem_passed_survey_down {here l : Location} {steps : List PathStep} {trail : Location}
    (listed : l ∈ (fs.survey here (steps ++ trail.map .down)).passed) :
    l ∈ (fs.survey here steps).passed ∨ ∃ d, d ≠ [] ∧ d <+: trail ∧ l = reach here steps ++ d := by
  induction trail using List.reverseRecOn with
  | nil =>
    rw [List.map_nil, List.append_nil] at listed
    exact Or.inl listed
  | append_singleton trail name ih =>
    rw [List.map_append, List.map_singleton, ← List.append_assoc] at listed
    rcases (fs.moves_survey here (steps ++ trail.map .down) (.down name)).mem_passed listed with
      listed | ⟨clear, rfl⟩
    · rcases ih listed with listed | ⟨d, some, h, rfl⟩
      · exact Or.inl listed
      · exact Or.inr ⟨d, some, h.trans (List.prefix_append trail [name]), rfl⟩
    · refine Or.inr ⟨trail ++ [name], by simp, List.prefix_refl _, ?_⟩
      rw [here_survey clear, reach_append, reach_down, ← List.append_assoc]
      rfl

theorem matches_survey {here : Location} {steps : List PathStep} (grows : fs.Grows fs')
    (free : ∀ l ∈ (fs.survey here steps).passed, fs'.blocks l = false) :
    (fs.survey here steps).Matches (fs'.survey here steps) := by
  induction steps using List.reverseRecOn with
  | nil => exact ⟨rfl, rfl, fun made => made, Or.inl rfl⟩
  | append_singleton steps s ih =>
    rw [survey_concat fs']
    have move := fs.moves_survey here steps s
    exact move.matches_next (ih fun l listed => free l (move.passed_subset listed)) grows free

section Passed
variable {here : Location} {steps : List PathStep} (grows : fs.Grows fs')
variable (passed : ∀ l ∈ (fs.survey here steps).passed, fs'.entry? l = some .directory)
include grows passed

theorem matches_survey_of_passed : (fs.survey here steps).Matches (fs'.survey here steps) :=
  matches_survey grows fun l listed => blocks_eq_false.mpr (Or.inr (passed l listed))

variable (dir : fs.entry? here = some .directory)
include dir

theorem made_survey_of_passed : (fs'.survey here steps).made = false := by
  refine (sound_survey (grows.directory here dir) steps).unmade.mpr fun l listed => ?_
  exact passed l ((matches_survey_of_passed grows passed).passed ▸ listed)

/-- A way whose directories are all there leads to its end. -/
theorem look_of_passed (clear : (fs.survey here steps).cause = none) :
    fs'.look here steps = .ok (reach here steps) := by
  have same := matches_survey_of_passed grows passed
  have there := made_survey_of_passed grows passed dir
  have clear' := same.clear_iff.mpr clear
  have sees := sees_survey (grows.directory here dir) steps
  generalize found : fs'.look here steps = result at sees
  cases sees with
  | missing made => simp [there] at made
  | clear => rw [here_survey clear']
  | atFile _ file => simp [clear'] at file
  | throughFile _ file => simp [clear'] at file
  | longName _ long => simp [clear'] at long

end Passed

theorem firm_survey {here : Location} {steps more : List PathStep}
    (firm : (fs.survey here steps).Firm fs) (down : .up ∉ more) :
    (fs.survey here (steps ++ more)).Firm fs := by
  induction more using List.reverseRecOn with
  | nil => rwa [List.append_nil]
  | append_singleton more s ih =>
    rw [List.mem_append, List.mem_singleton, not_or] at down
    rw [← List.append_assoc]
    exact (fs.moves_survey here (steps ++ more) s).firm (Ne.symm down.2) (ih down.1)

theorem made_survey_of_look {here l : Location} {steps : List PathStep}
    (dir : fs.entry? here = some .directory) (h : fs.look here steps = .ok l) :
    (fs.survey here steps).made = false := by
  have sees := sees_survey dir steps
  rw [h] at sees
  cases sees with
  | clear there => exact there
  | atFile there => exact there

/-- Going up does no harm from a place that is there. -/
theorem firm_survey_of_look {here : Location} {steps : List PathStep}
    (dir : fs.entry? here = some .directory)
    (found : ∀ way, way ++ [.up] <+: steps → ∃ l, fs.look here way = .ok l) :
    (fs.survey here steps).Firm fs := by
  induction steps using List.reverseRecOn with
  | nil => exact fun made => absurd made Bool.false_ne_true
  | append_singleton steps s ih =>
    have move := fs.moves_survey here steps s
    by_cases up : s = .up
    · subst up
      obtain ⟨l, looked⟩ := found steps (List.prefix_refl _)
      intro made
      rw [move.made_of_up, made_survey_of_look dir looked] at made
      cases made
    · refine move.firm up (ih fun way h => ?_)
      exact found way (h.trans (List.prefix_append steps [s]))

/-- The survey of a path from where it starts. -/
def surveyPath (fs : FileSystem) (path : Text) : Survey :=
  fs.survey ((Route.ofText path).startFrom fs.home) (Route.ofText path).steps

theorem sound_surveyPath (fs : FileSystem) (path : Text) : (fs.surveyPath path).Sound fs :=
  sound_survey (fs.directory_startFrom _) _

end FileSystem
end BraceTemplate
