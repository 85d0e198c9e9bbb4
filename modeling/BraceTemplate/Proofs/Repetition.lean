import BraceTemplate.Proofs.Delivery

/-!
# One template delivered in two states

When a template is delivered again after the file system has grown, it comes to the same
end, with one exception. A file that stands in the way is reported as existing while a
directory before it is missing, and as no directory once that directory is there. Such a
way leads up again after the missing directory, so the exception does not arise if every
step up in the output path is made from a place that is there.
-/
namespace BraceTemplate

/-- What is reported at first, and what may be reported later in its place. -/
inductive FailedFile.Sharpens : FailedFile → FailedFile → Prop where
  | same (failure : FailedFile) : Sharpens failure failure
  | through (source path : Text) :
      Sharpens ⟨source, (StoreError.write path .alreadyExists).message⟩
        ⟨source, (StoreError.write path .notDirectory).message⟩

/-- The same file, or failures that are related. -/
inductive OutcomesRelated (R : FailedFile → FailedFile → Prop) :
    Except FailedFile CompiledFile → Except FailedFile CompiledFile → Prop where
  | ok (file : CompiledFile) : OutcomesRelated R (.ok file) (.ok file)
  | error {failure failure' : FailedFile} (h : R failure failure') :
      OutcomesRelated R (.error failure) (.error failure')

/-- The same error, or reports with the same files in which the failures are related one by
one. -/
inductive ResultsRelated (R : FailedFile → FailedFile → Prop) :
    Except StoreError Report → Except StoreError Report → Prop where
  | error (e : StoreError) : ResultsRelated R (.error e) (.error e)
  | ok {files : List CompiledFile} {failures failures' : List FailedFile}
      (h : List.Forall₂ R failures failures') :
      ResultsRelated R (.ok ⟨files, failures⟩) (.ok ⟨files, failures'⟩)

theorem resultsRelated_ofOutcomes {R : FailedFile → FailedFile → Prop}
    {outcomes outcomes' : List (Except FailedFile CompiledFile)}
    (h : List.Forall₂ (OutcomesRelated R) outcomes outcomes') :
    ResultsRelated R (.ok (.ofOutcomes outcomes)) (.ok (.ofOutcomes outcomes')) := by
  have parts : (Report.ofOutcomes outcomes').files = (Report.ofOutcomes outcomes).files ∧
      List.Forall₂ R (Report.ofOutcomes outcomes).failures
        (Report.ofOutcomes outcomes').failures := by
    induction h with
    | nil => exact ⟨rfl, .nil⟩
    | cons first _ ih =>
      cases first with
      | ok file => exact ⟨congrArg (file :: ·) ih.1, ih.2⟩
      | error related => exact ⟨ih.1, .cons related ih.2⟩
  generalize Report.ofOutcomes outcomes = report at *
  generalize Report.ofOutcomes outcomes' = report' at *
  obtain ⟨files, failures⟩ := report
  obtain ⟨files', failures'⟩ := report'
  obtain ⟨rfl, related⟩ := parts
  exact .ok related

namespace FileSystem
variable {fs fs' : FileSystem} {output : Text}

/-- Each step up in the path is made from a place that is there. -/
def Anchored (fs : FileSystem) (path : Text) : Prop :=
  ∀ way, way ++ [.up] <+: (Route.ofText path).steps →
    ∃ l, fs.look ((Route.ofText path).startFrom fs.home) way = .ok l

theorem anchored_of_no_up (h : .up ∉ (Route.ofText output).steps) (fs : FileSystem) :
    fs.Anchored output := by
  intro way above
  exact absurd (above.subset (List.mem_append_right way (List.mem_singleton_self _))) h

theorem anchored_of_locate (plain : fs.Plain) {l : Location} (h : fs.locate output = .ok l) :
    fs.Anchored output := by
  rintro way ⟨rest, steps⟩
  have found := look_steps_of_locate plain h
  rw [← steps, List.append_assoc, look_append] at found
  cases before : fs.look ((Route.ofText output).startFrom fs.home) way with
  | ok k => exact ⟨k, rfl⟩
  | error cause =>
    rw [before] at found
    cases found

theorem Anchored.grows (anchored : fs.Anchored output) (grows : fs.Grows fs') :
    fs'.Anchored output := by
  intro way h
  obtain ⟨l, found⟩ := anchored way h
  rw [grows.home]
  exact ⟨l, grows.look found⟩

theorem Anchored.firm (anchored : fs.Anchored output) (dirs : Location) :
    (fs.surveyPath (Location.pathFrom output dirs)).Firm fs := by
  rw [surveyPath, Location.startFrom_pathFrom, Location.steps_pathFrom]
  refine firm_survey (firm_survey_of_look (fs.directory_startFrom _) anchored) ?_
  simp

/-- The later plan makes the same directories and comes to the same result, except that a file
in the way may be reported as no directory. -/
structure PlansAgree (fs fs' : FileSystem) (output : Text) (trail : Location) : Prop where
  passed : (fs'.outputPlan output trail).passed = (fs.outputPlan output trail).passed
  result : (fs'.outputPlan output trail).result = (fs.outputPlan output trail).result ∨
    (fs.outputPlan output trail).result = .error .alreadyExists ∧
      (fs'.outputPlan output trail).result = .error .notDirectory ∧ ¬ fs.Anchored output

theorem PlansAgree.result_ok_iff {trail : Location} (agree : fs.PlansAgree fs' output trail)
    {l : Location} : (fs'.outputPlan output trail).result = .ok l ↔
      (fs.outputPlan output trail).result = .ok l := by
  rcases agree.result with same | ⟨before, after, -⟩
  · rw [same]
  · simp [before, after]

theorem plansAgree_of_grows {trail dirs : Location} {base : Text}
    (template : IsTemplate dirs base trail) (grows : fs.Grows fs')
    (free : ∀ l ∈ (fs.outputPlan output trail).passed, fs'.blocks l = false)
    (place : ∀ l, (fs.outputPlan output trail).result = .ok l →
      fs'.entry? l ≠ some .directory) : fs.PlansAgree fs' output trail := by
  rw [outputPlan_eq template] at free place
  obtain ⟨passed, result⟩ := plan_of_grows grows free place
  rw [← outputPlan_eq template, ← outputPlan_eq template] at passed result
  refine ⟨passed, result.imp_right ?_⟩
  rintro ⟨before, after, loose⟩
  exact ⟨before, after, fun anchored => loose (anchored.firm dirs)⟩

end FileSystem

namespace Compiler
variable {c : Compiler} {source output : Text} {trail : Location}
variable {fs fs₁ fs' fs₁' : FileSystem} {result result' : Except FailedFile CompiledFile}

/-- Deliveries of one template with agreeing plans come to the same end. -/
theorem Delivers.related (step : c.Delivers source output trail fs result fs₁)
    (step' : c.Delivers source output trail fs' result' fs₁')
    (same : fs'.readText (Location.pathFrom source trail) =
      fs.readText (Location.pathFrom source trail))
    (agree : ∀ text, fs.readText (Location.pathFrom source trail) = .ok text →
      fs.PlansAgree fs' output trail) :
    OutcomesRelated FailedFile.Sharpens result result' ∧
      (fs.Anchored output → result' = result) := by
  have refl : ∀ r : Except FailedFile CompiledFile, OutcomesRelated FailedFile.Sharpens r r := by
    intro r
    cases r with
    | ok file => exact .ok file
    | error failure => exact .error (.same failure)
  cases step with
  | unread cause read =>
    cases step' with
    | unread cause' read' =>
      cases (read'.symm.trans same).trans read
      exact ⟨refl _, fun _ => rfl⟩
    | read text read' => cases (read'.symm.trans same).trans read
  | read text read _ saved =>
    cases step' with
    | unread cause read' => cases (read'.symm.trans same).trans read
    | read text' read' =>
      cases (read'.symm.trans same).trans read
      rcases (agree text read).result with planned | ⟨before, after, loose⟩
      · rw [planned]
        exact ⟨refl _, fun _ => rfl⟩
      · rw [before, after]
        exact ⟨.error (.through _ _), fun anchored => absurd anchored loose⟩

end Compiler
end BraceTemplate
