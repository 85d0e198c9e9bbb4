import BraceTemplate.Proofs.Making
import BraceTemplate.Site.Store

/-!
# Saving a file

What saving a file will do can be told from the file system as it stands: the plan holds
the directories that are there afterwards and the place of the file, or the reason why
it is not written. Saving carries out the plan and nothing else. A file system that has
grown has the same plan, as long as nothing was put in its way.
-/
namespace BraceTemplate

/-- The directories that are there after saving, and where the file is written. -/
structure Plan where
  passed : List Location
  result : Except Cause Location

/-- The place is among those that the survey has passed. -/
def Survey.passes (v : Survey) (l : Location) : Bool := v.passed.any fun k => k = l

@[simp] theorem Survey.passes_iff {v : Survey} {l : Location} :
    v.passes l = true ↔ l ∈ v.passed := by
  simp [passes]

/-- Where the file is written if its directory is the one that the survey has come to. -/
def Survey.filePlace (fs : FileSystem) (v : Survey) (refusal? : Option Cause)
    (last : Option PathStep) : Except Cause Location :=
  match refusal?, last with
  | some cause, _ => .error cause
  | none, some (.down name) =>
    if name.isTooLong then .error .nameTooLong
    else if fs.entry? (v.here ++ [name]) = some .directory ∨ v.passes (v.here ++ [name]) then
      .error .isDirectory
    else .ok (v.here ++ [name])
  | none, _ => .error .isDirectory

namespace FileSystem

/-- The plan for a file of this name below the path. -/
def plan (fs : FileSystem) (path name : Text) : Plan :=
  match Route.wayRefusal? path with
  | some cause => ⟨[], .error cause⟩
  | none =>
    ⟨(fs.surveyPath path).passed, match (fs.surveyPath path).cause with
      | some cause => .error cause
      | none => (fs.surveyPath path).filePlace fs (Route.ofText (Text.below path name)).refusal?
        (PathStep.ofPiece? name)⟩

end FileSystem

/-- The plan has been carried out. -/
structure Plan.Saved (p : Plan) (fs fs' : FileSystem) (bytes : ByteArray) : Prop where
  home : fs'.home = fs.home
  written : ∀ l, p.result = .ok l → fs'.entry? l = some (.file bytes)
  made : ∀ l ∈ p.passed, fs'.entry? l = some .directory
  kept : ∀ l, l ∉ p.passed → p.result ≠ .ok l → fs'.entry? l = fs.entry? l

theorem Survey.filePlace_eq_ok {fs : FileSystem} {v : Survey} {refusal? : Option Cause}
    {last : Option PathStep} {l : Location} (h : v.filePlace fs refusal? last = .ok l) :
    refusal? = none ∧ ∃ name, last = some (.down name) ∧ name.isTooLong = false ∧
      l = v.here ++ [name] ∧ fs.entry? l ≠ some .directory ∧ l ∉ v.passed := by
  unfold filePlace at h
  split at h
  · cases h
  · next name =>
    split at h
    · cases h
    · next short =>
      split at h
      · cases h
      · next free =>
        rw [not_or, passes_iff] at free
        cases h
        exact ⟨rfl, name, rfl, by simpa using short, rfl, free.1, free.2⟩
  · cases h

namespace FileSystem
variable {fs fs' : FileSystem} {path name : Text}

/-- All that a plan can be. -/
theorem plan_cases (fs : FileSystem) (path name : Text) :
    (∃ cause, Route.wayRefusal? path = some cause ∧ fs.plan path name = ⟨[], .error cause⟩) ∨
    Route.wayRefusal? path = none ∧ ((∃ cause, (fs.surveyPath path).cause = some cause ∧
        fs.plan path name = ⟨(fs.surveyPath path).passed, .error cause⟩) ∨
      (fs.surveyPath path).cause = none ∧ fs.plan path name = ⟨(fs.surveyPath path).passed,
        (fs.surveyPath path).filePlace fs (Route.ofText (Text.below path name)).refusal?
          (PathStep.ofPiece? name)⟩) := by
  cases refused : Route.wayRefusal? path with
  | some cause => exact Or.inl ⟨cause, rfl, by rw [plan, refused]⟩
  | none =>
    refine Or.inr ⟨rfl, ?_⟩
    cases stuck : (fs.surveyPath path).cause with
    | some cause => exact Or.inl ⟨cause, rfl, by simp only [plan, refused, stuck]⟩
    | none => exact Or.inr ⟨rfl, by simp only [plan, refused, stuck]⟩

theorem plan_eq_ok {l : Location} (h : (fs.plan path name).result = .ok l) :
    (fs.surveyPath path).cause = none ∧
      (Route.ofText (Text.below path name)).refusal? = none ∧
      (fs.plan path name).passed = (fs.surveyPath path).passed ∧
      ∃ last, PathStep.ofPiece? name = some (.down last) ∧ last.isTooLong = false ∧
        l = reach ((Route.ofText path).startFrom fs.home) (Route.ofText path).steps ++ [last] ∧
        fs.entry? l ≠ some .directory ∧ l ∉ (fs.plan path name).passed := by
  rcases fs.plan_cases path name with ⟨cause, -, plan⟩ | ⟨-, ⟨cause, -, plan⟩ | ⟨clear, plan⟩⟩
  · rw [plan] at h
    cases h
  · rw [plan] at h
    cases h
  · rw [plan] at h ⊢
    obtain ⟨accepted, last, reads, short, rfl, free, new⟩ := Survey.filePlace_eq_ok h
    refine ⟨clear, accepted, rfl, last, reads, short, ?_, free, new⟩
    rw [surveyPath, here_survey clear]

theorem passed_plan_subset (fs : FileSystem) (path name : Text) :
    (fs.plan path name).passed ⊆ (fs.surveyPath path).passed := by
  rcases fs.plan_cases path name with ⟨cause, -, plan⟩ | ⟨-, ⟨cause, -, plan⟩ | ⟨-, plan⟩⟩
  · rw [plan]
    exact List.nil_subset _
  · rw [plan]
    exact List.Subset.refl _
  · rw [plan]
    exact List.Subset.refl _

theorem free_of_mem_plan {l : Location} (listed : l ∈ (fs.plan path name).passed) :
    fs.blocks l = false :=
  (fs.sound_surveyPath path).free l (fs.passed_plan_subset path name listed) l (List.prefix_refl l)

end FileSystem

namespace Plan.Saved
variable {fs fs' : FileSystem} {path name : Text} {bytes : ByteArray}

theorem grows (saved : (fs.plan path name).Saved fs fs' bytes) : fs.Grows fs' where
  home := saved.home
  directory := fun l dir => by
    by_cases listed : l ∈ (fs.plan path name).passed
    · exact saved.made l listed
    · rw [saved.kept l listed, dir]
      intro written
      obtain ⟨-, -, -, -, -, -, -, free, -⟩ := FileSystem.plan_eq_ok written
      exact free dir
  blocks := fun l block => by
    by_cases listed : l ∈ (fs.plan path name).passed
    · rw [FileSystem.free_of_mem_plan listed] at block
      cases block
    · by_cases written : (fs.plan path name).result = .ok l
      · exact FileSystem.blocks_of_file (saved.written l written)
      · rwa [FileSystem.blocks, saved.kept l listed written]

theorem plain (saved : (fs.plan path name).Saved fs fs' bytes) (plain : fs.Plain) : fs'.Plain := by
  intro l target found
  by_cases listed : l ∈ (fs.plan path name).passed
  · cases (saved.made l listed).symm.trans found
  · by_cases written : (fs.plan path name).result = .ok l
    · cases (saved.written l written).symm.trans found
    · exact plain l target ((saved.kept l listed written).symm.trans found)

/-- Carrying out a plan whose directories and file are there changes nothing. -/
theorem eq_of_settled {p : Plan} (saved : p.Saved fs fs' bytes)
    (made : ∀ l ∈ p.passed, fs.entry? l = some .directory)
    (written : ∀ l, p.result = .ok l → fs.entry? l = some (.file bytes)) : fs' = fs := by
  refine FileSystem.ext_entry? saved.home fun l => ?_
  by_cases listed : l ∈ p.passed
  · rw [saved.made l listed, made l listed]
  · by_cases place : p.result = .ok l
    · rw [saved.written l place, written l place]
    · exact saved.kept l listed place

end Plan.Saved

namespace FileSystem
variable {fs fs' : FileSystem} {path name : Text}

theorem writeTarget_down (plain : fs.Plain) {r : Route} {way : List PathStep} {name : FileName}
    (steps : r.steps = way ++ [.down name]) (noSlash : r.endsInSlash = false)
    {start dir : Location} (found : fs.look start way = .ok dir)
    (there : fs.entry? dir = some .directory) (links : Nat) :
    fs.writeTarget links start r =
      if name.isTooLong then .error .nameTooLong
      else if fs.entry? (dir ++ [name]) = some .directory then .error .isDirectory
      else .ok (dir, name) := by
  have last : r.steps.getLast? = some (.down name) := by rw [steps, List.getLast?_concat]
  have way : fs.follow links start r.steps.dropLast = .ok (dir, links) := by
    rw [steps, List.dropLast_concat, follow_eq_look plain, found]
    rfl
  rw [writeTarget]
  split
  · next same =>
    obtain rfl : name = _ := PathStep.down.inj (Option.some.inj (last.symm.trans same))
    split
    · next refused =>
      rw [way] at refused
      cases refused
    · next found =>
      obtain ⟨rfl, rfl⟩ := Prod.mk.inj (Except.ok.inj (way.symm.trans found))
      rw [if_pos there, noSlash]
      cases entry : fs.entry? (dir ++ [name]) with
      | none => simp
      | some e =>
        cases e with
        | directory => simp
        | file bytes => simp
        | link target => exact absurd entry (plain _ _)
  · next other => exact absurd last (other name)

theorem writeTarget_up (plain : fs.Plain) {r : Route} {way : List PathStep}
    (steps : r.steps = way ++ [.up]) {start dir : Location} (found : fs.look start way = .ok dir)
    (there : fs.entry? dir = some .directory) (links : Nat) :
    fs.writeTarget links start r = .error .isDirectory := by
  have last : r.steps.getLast? = some .up := by rw [steps, List.getLast?_concat]
  have way : fs.follow links start r.steps = .ok (dir.dropLast, links) := by
    rw [steps, follow_eq_look plain, look_concat, found]
    simp [bind, Except.bind, step?, there, Except.map]
  rw [writeTarget]
  split
  · next same =>
    rw [last] at same
    cases same
  · simp only [way]

section Named
variable (leads : Route.isIdle name = false) (slashless : '/' ∉ name)
include leads slashless

theorem makeParents_below (fs : FileSystem) :
    fs.makeParents (Text.below path name) = makeDirectories (Text.pieces path).reverse fs := by
  obtain ⟨front, below, before⟩ := Text.pieces_below path slashless
  have above : (Route.ofText (Text.below path name)).aboveReversed = front.reverse := by
    rw [Route.aboveReversed, Route.ofText, below, List.reverse_append, List.reverse_singleton,
      List.singleton_append, List.dropWhile_cons_of_neg (by simp [leads]), List.tail_cons]
  rw [makeParents, above]
  rcases before with before | before
  · rw [before]
  · rw [before, List.reverse_append, List.reverse_singleton, List.singleton_append,
      makeDirectories, if_pos (by decide)]

/-- With its directory made, the file is written as planned. -/
theorem writeBytes_of_laid (plain : fs.Plain) (clear : (fs.surveyPath path).cause = none)
    (laid : (fs.surveyPath path).Laid fs fs') (bytes : ByteArray) :
    (∃ cause, (fs.surveyPath path).filePlace fs (Route.ofText (Text.below path name)).refusal?
        (PathStep.ofPiece? name) = .error cause ∧
      fs'.writeBytes (Text.below path name) bytes = .error cause) ∨
    ∃ dir last, (fs.surveyPath path).filePlace fs (Route.ofText (Text.below path name)).refusal?
        (PathStep.ofPiece? name) = .ok (dir ++ [last]) ∧
      fs'.entry? dir = some .directory ∧ fs'.entry? (dir ++ [last]) ≠ some .directory ∧
      fs'.writeBytes (Text.below path name) bytes = .ok (fs'.put dir last (.file bytes)) := by
  have named : name ≠ [] := of_decide_eq_false (Bool.or_eq_false_iff.mp leads).1
  have sound := fs.sound_surveyPath path
  have there := laid.made _ sound.here
  have found : fs'.look ((Route.ofText path).startFrom fs.home) (Route.ofText path).steps =
      .ok (fs.surveyPath path).here := by
    rw [surveyPath, here_survey clear]
    exact look_of_passed (laid.grows sound) laid.made (fs.directory_startFrom _) clear
  have start : (Route.ofText (Text.below path name)).startFrom fs'.home =
      (Route.ofText path).startFrom fs.home := by
    rw [laid.home, Route.startFrom_below path named slashless]
  have noSlash := Route.endsInSlash_below path named slashless
  obtain ⟨s, reads, moving⟩ := PathStep.exists_ofPiece? leads slashless
  have steps := Route.steps_below path slashless
  rw [reads, Option.toList_some] at steps
  rw [reads]
  simp only [writeBytes, start]
  generalize (fs.surveyPath path) = v at *
  cases refused : (Route.ofText (Text.below path name)).refusal? with
  | some cause => exact Or.inl ⟨cause, rfl, rfl⟩
  | none =>
    cases s with
    | stay => exact absurd rfl moving
    | up =>
      rw [writeTarget_up (laid.plain plain) steps found there]
      exact Or.inl ⟨.isDirectory, rfl, rfl⟩
    | down last =>
      rw [writeTarget_down (laid.plain plain) steps noSlash found there, Survey.filePlace]
      cases long : last.isTooLong with
      | true => exact Or.inl ⟨.nameTooLong, rfl, rfl⟩
      | false =>
        have taken : fs'.entry? (v.here ++ [last]) = some .directory ↔
            fs.entry? (v.here ++ [last]) = some .directory ∨ v.here ++ [last] ∈ v.passed := by
          by_cases listed : v.here ++ [last] ∈ v.passed
          · simp [listed, laid.made _ listed]
          · simp [listed, laid.kept _ listed]
        by_cases dir : fs'.entry? (v.here ++ [last]) = some .directory
        · left
          refine ⟨.isDirectory, ?_, ?_⟩
          · simp [taken.mp dir]
          · simp [dir, bind, Except.bind]
        · right
          refine ⟨v.here, last, ?_, there, dir, ?_⟩
          · simp [mt taken.mpr dir]
          · simp [dir, bind, Except.bind, pure, Except.pure]

/-- Saving carries out the plan. -/
theorem save_eq (plain : fs.Plain) (code : Text) :
    ∃ fs', fs.save (Text.below path name) code =
        (match (fs.plan path name).result with
          | .ok _ => .ok ()
          | .error cause => .error (.write (Text.below path name) cause), fs') ∧
      (fs.plan path name).Saved fs fs' (Text.toUtf8 code) := by
  rw [save, makeParents_below leads slashless]
  rcases fs.plan_cases path name with ⟨cause, refused, plan⟩ | ⟨accepted, planned⟩
  · rw [makeDirectories_of_refused refused, plan]
    exact ⟨fs, rfl, rfl, by simp, by simp, fun _ _ _ => rfl⟩
  · obtain ⟨fs₁, done, laid⟩ := makeDirectories_of_accepted plain accepted
    rw [done]
    rcases planned with ⟨cause, stuck, plan⟩ | ⟨clear, plan⟩
    · rw [Survey.verdict_of_cause stuck, plan]
      exact ⟨fs₁, rfl, laid.home, by simp, laid.made, fun l absent _ => laid.kept l absent⟩
    · rw [Survey.verdict_of_clear clear]
      rcases writeBytes_of_laid leads slashless plain clear laid (Text.toUtf8 code) with
        ⟨cause, planned, refused⟩ | ⟨dir, last, planned, there, free, written⟩
      · rw [planned] at plan
        simp only [refused, plan]
        exact ⟨fs₁, rfl, laid.home, by simp, laid.made, fun l absent _ => laid.kept l absent⟩
      · have new := (Survey.filePlace_eq_ok planned).2
        rw [planned] at plan
        simp only [written, plan]
        refine ⟨_, rfl, (home_put there free _).trans laid.home, ?_, ?_, ?_⟩
        · intro l same
          rw [entry?_put there free, if_pos (Except.ok.inj same).symm]
        · intro l listed
          rw [entry?_put there free, if_neg]
          · exact laid.made l listed
          · rintro rfl
            obtain ⟨-, -, -, -, -, absent⟩ := new
            exact absent listed
        · intro l absent other
          rw [entry?_put there free, if_neg]
          · exact laid.kept l absent
          · rintro rfl
            exact other rfl

end Named

/-- A saved file is found under the path that it was saved under. -/
theorem locate_of_saved (slashless : '/' ∉ name) {bytes : ByteArray} (plain : fs.Plain)
    (saved : (fs.plan path name).Saved fs fs' bytes) {l : Location}
    (h : (fs.plan path name).result = .ok l) :
    fs'.locate (Text.below path name) = .ok l := by
  obtain ⟨clear, accepted, passed, last, reads, short, rfl, free, -⟩ := plan_eq_ok h
  have named : name ≠ [] := by
    rintro rfl
    cases reads
  refine (locateRoute_eq_ok (saved.plain plain)).mpr ⟨accepted, ?_⟩
  have found := look_of_passed saved.grows (passed ▸ saved.made) (fs.directory_startFrom _) clear
  have there : fs'.entry? (reach ((Route.ofText path).startFrom fs.home)
      (Route.ofText path).steps) = some .directory := by
    rw [← here_survey clear]
    exact saved.made _ (passed ▸ (fs.sound_surveyPath path).here)
  rw [Route.walk_below path named slashless, Route.startFrom_below path named slashless, saved.home,
    Route.steps_below path slashless, reads, Option.toList_some, look_concat, found]
  exact step?_down there short (by rw [saved.written _ h]; rfl)

/-- The file keeps its place unless a directory has taken it. -/
theorem filePlace_of_grows (grows : fs.Grows fs') {v w : Survey} (same : v.Matches w)
    {refusal? : Option Cause} {last : Option PathStep}
    (free : ∀ l, v.filePlace fs refusal? last = .ok l → fs'.entry? l ≠ some .directory) :
    w.filePlace fs' refusal? last = v.filePlace fs refusal? last := by
  unfold Survey.filePlace at free ⊢
  simp only [Survey.passes_iff, same.here, same.passed] at free ⊢
  split
  · rfl
  · next name =>
    split
    · rfl
    · next short =>
      by_cases taken : fs.entry? (v.here ++ [name]) = some .directory ∨ v.here ++ [name] ∈ v.passed
      · have taken' := taken.imp_left (grows.directory _)
        rw [if_pos taken, if_pos taken']
      · simp only [if_neg short, if_neg taken] at free
        have taken' := not_or.mpr ⟨free _ rfl, (not_or.mp taken).2⟩
        rw [if_neg taken, if_neg taken']
  · rfl

section Grown
variable (grows : fs.Grows fs') (free : ∀ l ∈ (fs.plan path name).passed, fs'.blocks l = false)
variable (place : ∀ l, (fs.plan path name).result = .ok l → fs'.entry? l ≠ some .directory)
include grows free place

theorem plan_of_grows : (fs'.plan path name).passed = (fs.plan path name).passed ∧
    ((fs'.plan path name).result = (fs.plan path name).result ∨
      (fs.plan path name).result = .error .alreadyExists ∧
        (fs'.plan path name).result = .error .notDirectory ∧
        ¬ (fs.surveyPath path).Firm fs) := by
  rcases fs.plan_cases path name with ⟨cause, refused, planned⟩ | ⟨accepted, planned⟩
  · have planned' : fs'.plan path name = ⟨[], .error cause⟩ := by rw [plan, refused]
    rw [planned, planned']
    exact ⟨rfl, Or.inl rfl⟩
  · have passed : (fs.plan path name).passed = (fs.surveyPath path).passed := by
      rcases planned with ⟨_, -, planned⟩ | ⟨-, planned⟩
      · rw [planned]
      · rw [planned]
    have same : (fs.surveyPath path).Matches (fs'.surveyPath path) := by
      rw [surveyPath, surveyPath, grows.home]
      exact matches_survey grows (passed ▸ free)
    rcases planned with ⟨cause, stuck, planned⟩ | ⟨clear, planned⟩
    · rcases same.cause with stuck' | ⟨made, file, through⟩
      · have planned' : fs'.plan path name = ⟨(fs'.surveyPath path).passed, .error cause⟩ := by
          simp only [plan, accepted, stuck', stuck]
        rw [planned, planned']
        exact ⟨same.passed, Or.inl rfl⟩
      · have planned' : fs'.plan path name =
            ⟨(fs'.surveyPath path).passed, .error .notDirectory⟩ := by
          simp only [plan, accepted, through]
        obtain rfl : cause = .alreadyExists := Option.some.inj (stuck.symm.trans file)
        rw [planned, planned']
        exact ⟨same.passed, Or.inr ⟨rfl, rfl, fun firm => (firm made).2 file⟩⟩
    · have planned' : fs'.plan path name = ⟨(fs'.surveyPath path).passed,
          (fs'.surveyPath path).filePlace fs' (Route.ofText (Text.below path name)).refusal?
            (PathStep.ofPiece? name)⟩ := by
        simp only [plan, accepted, same.clear_iff.mpr clear]
      rw [planned] at place
      rw [planned, planned', filePlace_of_grows grows same place]
      exact ⟨same.passed, Or.inl rfl⟩

end Grown
end FileSystem
end BraceTemplate
