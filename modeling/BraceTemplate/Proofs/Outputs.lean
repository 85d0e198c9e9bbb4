import BraceTemplate.Proofs.Saving
import BraceTemplate.Site.Delivery

/-!
# Templates and their outputs

A template is called by a base, a dot and the one extension, its output by the base, a
dot and the other; only the base that is a dot itself has no output name. So no two
templates have one output, and no output has the name of a template.
-/
namespace BraceTemplate

theorem templateStem?_eq_some {name stem : Text} : templateStem? name = some stem ↔
    ∃ base, base ≠ [] ∧ stem = base ++ ['.'] ∧ name = base ++ '.' :: sourceExtension := by
  rw [templateStem?]
  simp only [Option.ite_none_right_eq_some, Option.some.injEq]
  constructor
  · rintro ⟨⟨ending, dot, long⟩, rfl⟩
    obtain ⟨front, rfl⟩ := List.isSuffixOf_iff_suffix.mp ending
    rw [List.length_append, Nat.add_sub_cancel, List.take_left' rfl] at *
    obtain ⟨base, rfl⟩ := List.getLast?_eq_some_iff.mp dot
    refine ⟨base, ?_, rfl, by simp⟩
    rintro rfl
    simp at long
  · rintro ⟨base, filled, rfl, rfl⟩
    have split : base ++ '.' :: sourceExtension = (base ++ ['.']) ++ sourceExtension := by simp
    have long := List.length_pos_iff.mpr filled
    rw [split, List.length_append, Nat.add_sub_cancel, List.take_left' rfl]
    refine ⟨⟨List.isSuffixOf_iff_suffix.mpr (List.suffix_append _ _), by simp, ?_⟩, rfl⟩
    rw [List.length_append, List.length_singleton]
    omega

/-- The trail leads to the template with this base in the directory at the end of `dirs`. -/
inductive IsTemplate (dirs : Location) (base : Text) : Location → Prop where
  | intro (name : FileName) (filled : base ≠ [])
      (text : name.text = base ++ '.' :: sourceExtension) : IsTemplate dirs base (dirs ++ [name])

/-- The name of the output for a base. -/
def outputName (base : Text) : Text := targetName (base ++ ['.'])

theorem outputName_eq (base : Text) : outputName base =
    if base = ['.'] then ['.', '.'] else base ++ '.' :: targetExtension := by
  rw [outputName, targetName]
  by_cases dot : base = ['.']
  · rw [if_pos dot, dot]
    rfl
  · have other : base ++ ['.'] ≠ ['.', '.'] := fun same =>
      dot (List.append_inj' (same : base ++ ['.'] = ['.'] ++ ['.']) rfl).1
    rw [if_neg dot, if_neg other, List.append_assoc, List.singleton_append]

theorem outputName_leads (base : Text) : Route.isIdle (outputName base) = false := by
  rw [outputName_eq]
  split
  · rfl
  · cases base with
    | nil => rfl
    | cons c rest => simp [Route.isIdle]

theorem outputName_slashless {base : Text} (h : '/' ∉ base) : '/' ∉ outputName base := by
  rw [outputName_eq]
  split
  · decide
  · rw [List.mem_append, not_or]
    exact ⟨h, by decide⟩

theorem ofPiece?_outputName {base : Text} {last : FileName}
    (h : PathStep.ofPiece? (outputName base) = some (.down last)) :
    outputName base = base ++ '.' :: targetExtension := by
  rw [outputName_eq] at h ⊢
  split at h
  · cases h
  · next other => rw [if_neg other]

/-- No output has the name of a template. -/
theorem targetExtension_ne_source (base base' : Text) :
    base ++ '.' :: targetExtension ≠ base' ++ '.' :: sourceExtension := by
  have length : ('.' :: targetExtension).length = ('.' :: sourceExtension).length := by
    decide +kernel
  have differ : '.' :: targetExtension ≠ '.' :: sourceExtension := by decide +kernel
  exact fun same => differ (List.append_inj_right' same length)

namespace IsTemplate
variable {dirs trail : Location} {base : Text}

theorem slashless (h : IsTemplate dirs base trail) : '/' ∉ base := by
  obtain ⟨name, -, text⟩ := h
  intro slash
  apply name.valid.2.2.2
  rw [text]
  exact List.mem_append_left _ slash

theorem text_eq {front : Location} {name : FileName} (h : IsTemplate dirs base (front ++ [name])) :
    name.text = base ++ '.' :: sourceExtension := by
  generalize same : front ++ [name] = l at h
  obtain ⟨name', -, text⟩ := h
  obtain ⟨-, last⟩ := List.append_inj' same rfl
  rw [List.singleton_inj.mp last, text]

theorem dropLast_eq (h : IsTemplate dirs base trail) : trail.dropLast = dirs := by
  obtain ⟨name, -, -⟩ := h
  exact List.dropLast_concat

theorem ne_nil (h : IsTemplate dirs base trail) : trail ≠ [] := by
  obtain ⟨name, -, -⟩ := h
  exact List.concat_ne_nil name dirs

theorem walk_pathFrom (h : IsTemplate dirs base trail) (path : Text) :
    (Route.ofText (Location.pathFrom path trail)).walk =
      (Route.ofText (Location.pathFrom path trail)).steps := by
  obtain ⟨name, -, -⟩ := h
  rw [Location.pathFrom_concat]
  exact Route.walk_below _ name.valid.1 name.valid.2.2.2

theorem templateStem?_endName (h : IsTemplate dirs base trail) (path : Text) :
    templateStem? (endName path trail) = some (base ++ ['.']) := by
  obtain ⟨name, filled, text⟩ := h
  rw [endName, List.getLast?_concat]
  exact templateStem?_eq_some.mpr ⟨base, filled, rfl, text⟩

theorem targetName_eq (h : IsTemplate dirs base trail) (path : Text) :
    targetName ((templateStem? (endName path trail)).getD []) = outputName base := by
  rw [h.templateStem?_endName, Option.getD_some, outputName]

theorem outputPath_eq (h : IsTemplate dirs base trail) (output : Text) :
    outputPath output trail = Text.below (Location.pathFrom output dirs) (outputName base) := by
  rw [outputPath, h.dropLast_eq, h.targetName_eq]

theorem append_left (h : IsTemplate dirs base trail) (front : Location) :
    IsTemplate (front ++ dirs) base (front ++ trail) := by
  obtain ⟨name, filled, text⟩ := h
  rw [← List.append_assoc]
  exact ⟨name, filled, text⟩

/-- A template is known by the directory and the base. -/
theorem trail_unique {trail' : Location} (h : IsTemplate dirs base trail)
    (h' : IsTemplate dirs base trail') : trail = trail' := by
  obtain ⟨name, -, text⟩ := h
  obtain ⟨name', -, text'⟩ := h'
  obtain ⟨t, _⟩ := name
  obtain ⟨t', _⟩ := name'
  obtain rfl : t = t' := text.trans text'.symm
  rfl

end IsTemplate

namespace FileSystem
variable {fs : FileSystem} {path : Text} {trail : Location}

theorem isFile_eq_true : fs.isFile path = true ↔
    ∃ l bytes, fs.locate path = .ok l ∧ fs.entry? l = some (.file bytes) := by
  rw [isFile]
  cases fs.locate path with
  | error cause => simp
  | ok l =>
    simp only [Option.any_eq_true, Except.ok.injEq]
    constructor
    · rintro ⟨e, found, file⟩
      cases e with
      | file bytes => exact ⟨l, bytes, rfl, found⟩
      | directory => cases file
      | link target => cases file
    · rintro ⟨_, bytes, rfl, found⟩
      exact ⟨_, found, rfl⟩

theorem isDirectory_eq_true : fs.isDirectory path = true ↔
    ∃ l, fs.locate path = .ok l ∧ fs.entry? l = some .directory := by
  rw [isDirectory, isDirectoryRoute, locate]
  cases fs.locateRoute (.ofText path) with
  | error cause => simp
  | ok l => simp

theorem mem_templates : trail ∈ fs.templates path ↔ trail ∈ fs.files path ∧
    fs.isFile (Location.pathFrom path trail) = true ∧
    (templateStem? (endName path trail)).isSome := by
  rw [templates, Std.ExtTreeSet.mem_toList, Std.ExtTreeSet.mem_ofList, List.contains_iff_mem,
    List.mem_filter, Bool.and_eq_true]

theorem nodup_templates (fs : FileSystem) (path : Text) : (fs.templates path).Nodup := by
  refine Std.ExtTreeSet.distinct_toList.imp fun {a b} differ same => ?_
  rw [same] at differ
  exact differ Std.ReflCmp.compare_self

/-- What a directory's templates are. -/
theorem exists_isTemplate (dir : fs.isDirectory path = true) (h : trail ∈ fs.templates path) :
    ∃ dirs base, IsTemplate dirs base trail := by
  obtain ⟨-, file, named⟩ := mem_templates.mp h
  cases trail using List.reverseRecOn with
  | nil =>
    obtain ⟨l, found, directory⟩ := isDirectory_eq_true.mp dir
    obtain ⟨l', bytes, found', file⟩ := isFile_eq_true.mp file
    obtain rfl : l = l' := Except.ok.inj (found.symm.trans found')
    rw [directory] at file
    cases file
  | append_singleton dirs name =>
    rw [endName, List.getLast?_concat] at named
    obtain ⟨stem, named⟩ := Option.isSome_iff_exists.mp named
    obtain ⟨base, filled, -, text⟩ := templateStem?_eq_some.mp named
    exact ⟨dirs, base, name, filled, text⟩

/-- The plan for the output of a template. -/
def outputPlan (fs : FileSystem) (output : Text) (trail : Location) : Plan :=
  fs.plan (Location.pathFrom output trail.dropLast)
    (targetName ((templateStem? (endName output trail)).getD []))

theorem outputPlan_eq {dirs : Location} {base : Text} (h : IsTemplate dirs base trail)
    (fs : FileSystem) (output : Text) :
    fs.outputPlan output trail = fs.plan (Location.pathFrom output dirs) (outputName base) := by
  rw [outputPlan, h.dropLast_eq, h.targetName_eq]

section Template
variable {dirs : Location} {base output : Text} (template : IsTemplate dirs base trail)
include template

theorem outputPlan_eq_ok {l : Location}
    (planned : (fs.outputPlan output trail).result = .ok l) :
    ∃ last : FileName, last.text = base ++ '.' :: targetExtension ∧
      outputPath output trail = Location.pathFrom output (dirs ++ [last]) ∧
      l = fs.place output ++ dirs ++ [last] := by
  rw [outputPlan_eq template] at planned
  obtain ⟨-, -, -, last, reads, -, rfl, -, -⟩ := plan_eq_ok planned
  have text := PathStep.text_of_ofPiece? reads
  refine ⟨last, text.trans (ofPiece?_outputName reads), ?_, by rw [← place, place_pathFrom]⟩
  rw [template.outputPath_eq, Location.pathFrom_concat, text]

/-- Saving an output carries out its plan. -/
theorem save_outputPath (plain : fs.Plain) (output code : Text) :
    ∃ fs', fs.save (outputPath output trail) code =
        (match (fs.outputPlan output trail).result with
          | .ok _ => .ok ()
          | .error cause => .error (.write (outputPath output trail) cause), fs') ∧
      (fs.outputPlan output trail).Saved fs fs' (Text.toUtf8 code) := by
  rw [template.outputPath_eq, outputPlan_eq template]
  exact save_eq (outputName_leads base) (outputName_slashless template.slashless) plain code

theorem locate_outputPath (plain : fs.Plain) {fs' : FileSystem} {bytes : ByteArray}
    (saved : (fs.outputPlan output trail).Saved fs fs' bytes) {l : Location}
    (planned : (fs.outputPlan output trail).result = .ok l) :
    fs'.locate (outputPath output trail) = .ok l := by
  rw [outputPlan_eq template] at saved planned
  rw [template.outputPath_eq]
  exact locate_of_saved (outputName_slashless template.slashless) plain saved planned

theorem not_directory_of_outputPlan {l : Location}
    (planned : (fs.outputPlan output trail).result = .ok l) : fs.entry? l ≠ some .directory := by
  rw [outputPlan_eq template] at planned
  obtain ⟨-, -, -, -, -, -, -, free, -⟩ := plan_eq_ok planned
  exact free

theorem free_of_mem_outputPlan {l : Location} (listed : l ∈ (fs.outputPlan output trail).passed) :
    fs.blocks l = false := by
  rw [outputPlan_eq template] at listed
  exact free_of_mem_plan listed

/-- An output passes the places on the way to the output path and those below it. -/
theorem mem_passed_outputPlan {l : Location} (listed : l ∈ (fs.outputPlan output trail).passed) :
    l ∈ (fs.surveyPath output).passed ∨ ∃ d, d ≠ [] ∧ d <+: dirs ∧ l = fs.place output ++ d := by
  rw [outputPlan_eq template] at listed
  have listed := passed_plan_subset fs _ _ listed
  rw [surveyPath, Location.startFrom_pathFrom, Location.steps_pathFrom] at listed
  exact mem_passed_survey_down listed

theorem not_passed_of_outputPlan {l : Location}
    (planned : (fs.outputPlan output trail).result = .ok l) :
    l ∉ (fs.surveyPath output).passed := by
  rw [outputPlan_eq template] at planned
  obtain ⟨-, -, passed, -, -, -, -, -, absent⟩ := plan_eq_ok planned
  intro listed
  apply absent
  rw [passed, surveyPath, Location.startFrom_pathFrom, Location.steps_pathFrom]
  exact passed_survey_subset fs _ _ _ listed

end Template

/-- No two templates have one output. -/
theorem trail_of_outputPlan {fs' : FileSystem} (home : fs'.home = fs.home) {trail' : Location}
    {dirs dirs' : Location} {base base' output : Text} (h : IsTemplate dirs base trail)
    (h' : IsTemplate dirs' base' trail') {l : Location}
    (planned : (fs.outputPlan output trail).result = .ok l)
    (planned' : (fs'.outputPlan output trail').result = .ok l) : trail = trail' := by
  obtain ⟨last, text, -, rfl⟩ := outputPlan_eq_ok h planned
  obtain ⟨last', text', -, same⟩ := outputPlan_eq_ok h' planned'
  rw [place, place, home] at same
  obtain ⟨front, rfl⟩ := List.append_inj' same rfl |>.imp_right List.singleton_inj.mp
  obtain rfl := List.append_cancel_left front
  obtain rfl : base = base' := List.append_cancel_right (text.symm.trans text')
  exact h.trail_unique h'

end FileSystem
end BraceTemplate
