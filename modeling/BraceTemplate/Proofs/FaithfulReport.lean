import BraceTemplate.Proofs.Delivery
import Mathlib.Data.List.Nodup

/-!
# What the report of a delivery is worth

The report names each template once and in order, as delivered or as failed. What it says
of a delivered one is judged by the file system as it was before the run, from which the
text comes, and as it is at the end, where the code is found.
-/
namespace BraceTemplate

theorem exists_of_forall₂ {α β : Type} {R : α → β → Prop} {xs : List α} {ys : List β}
    (h : List.Forall₂ R xs ys) {x : α} (listed : x ∈ xs) : ∃ y ∈ ys, R x y := by
  induction h with
  | nil => cases listed
  | cons first _ ih =>
    rcases List.mem_cons.mp listed with rfl | listed
    · exact ⟨_, List.mem_cons_self, first⟩
    · obtain ⟨y, found, right⟩ := ih listed
      exact ⟨y, List.mem_cons_of_mem _ found, right⟩

/-- The template that an outcome is about. -/
def outcomeSource : Except FailedFile CompiledFile → Text
  | .ok file => file.source
  | .error failure => failure.source

namespace Report
variable {outcomes : List (Except FailedFile CompiledFile)}

theorem ofOutcomes_ok (file : CompiledFile) (outcomes : List (Except FailedFile CompiledFile)) :
    ofOutcomes (.ok file :: outcomes) =
      ⟨file :: (ofOutcomes outcomes).files, (ofOutcomes outcomes).failures⟩ := rfl

theorem ofOutcomes_error (failure : FailedFile)
    (outcomes : List (Except FailedFile CompiledFile)) :
    ofOutcomes (.error failure :: outcomes) =
      ⟨(ofOutcomes outcomes).files, failure :: (ofOutcomes outcomes).failures⟩ := rfl

theorem mem_files {file : CompiledFile} :
    file ∈ (ofOutcomes outcomes).files ↔ .ok file ∈ outcomes := by
  induction outcomes with
  | nil => simp [ofOutcomes]
  | cons outcome outcomes ih =>
    cases outcome with
    | ok first => simp [ofOutcomes_ok, ih]
    | error first => simp [ofOutcomes_error, ih]

theorem mem_failures {failure : FailedFile} :
    failure ∈ (ofOutcomes outcomes).failures ↔ .error failure ∈ outcomes := by
  induction outcomes with
  | nil => simp [ofOutcomes]
  | cons outcome outcomes ih =>
    cases outcome with
    | ok first => simp [ofOutcomes_ok, ih]
    | error first => simp [ofOutcomes_error, ih]

theorem files_sublist (outcomes : List (Except FailedFile CompiledFile)) :
    ((ofOutcomes outcomes).files.map CompiledFile.source).Sublist (outcomes.map outcomeSource) := by
  induction outcomes with
  | nil => exact .slnil
  | cons outcome outcomes ih =>
    cases outcome with
    | ok first => exact ih.cons_cons first.source
    | error first => exact ih.cons first.source

theorem failures_sublist (outcomes : List (Except FailedFile CompiledFile)) :
    ((ofOutcomes outcomes).failures.map FailedFile.source).Sublist
      (outcomes.map outcomeSource) := by
  induction outcomes with
  | nil => exact .slnil
  | cons outcome outcomes ih =>
    cases outcome with
    | ok first => exact ih.cons first.source
    | error first => exact ih.cons_cons first.source

theorem sources_perm (outcomes : List (Except FailedFile CompiledFile)) :
    ((ofOutcomes outcomes).files.map CompiledFile.source ++
      (ofOutcomes outcomes).failures.map FailedFile.source).Perm (outcomes.map outcomeSource) := by
  induction outcomes with
  | nil => exact .nil
  | cons outcome outcomes ih =>
    cases outcome with
    | ok first => exact ih.cons first.source
    | error first => exact List.perm_middle.trans (ih.cons first.source)

end Report

/-- The outcome for a template is right about the file systems before and after the run over
`trails`. A template that could not be saved was refused in the state that the earlier ones
had left. -/
inductive Compiler.Accounts (c : Compiler) (source output : Text) (fs fs' : FileSystem)
    (trails : List Location) (trail : Location) : Except FailedFile CompiledFile → Prop where
  | compiled (dirs : Location) (base : Text) (template : IsTemplate dirs base trail)
      (last : FileName) (named : last.text = base ++ '.' :: targetExtension) (text : Text)
      (before : fs.readText (Location.pathFrom source trail) = .ok text)
      (after : fs'.readText (Location.pathFrom output (dirs ++ [last])) =
        .ok (c.compileText text).code) :
      Accounts c source output fs fs' trails trail (.ok ⟨Location.pathFrom source trail,
        Location.pathFrom output (dirs ++ [last]), (c.compileText text).skipped,
        (c.compileText text).unresolved⟩)
  | unread (cause : Cause) (before : fs.readText (Location.pathFrom source trail) = .error cause) :
      Accounts c source output fs fs' trails trail (.error ⟨Location.pathFrom source trail,
        (StoreError.read (Location.pathFrom source trail) cause).message⟩)
  | unsaved (text : Text) (before : fs.readText (Location.pathFrom source trail) = .ok text)
      (earlier : List Location) (order : earlier ++ [trail] <+: trails) (error : StoreError)
      (refused : ((c.deliverFiles source output earlier fs).2.save (outputPath output trail)
        (c.compileText text).code).1 = .error error) :
      Accounts c source output fs fs' trails trail
        (.error ⟨Location.pathFrom source trail, error.message⟩)

namespace Compiler
variable {c : Compiler} {source output : Text} {fs₀ fs fs' : FileSystem} {trail : Location}
variable {run trails earlier : List Location} {result : Except FailedFile CompiledFile}

theorem Accounts.source_eq (h : c.Accounts source output fs fs' run trail result) :
    outcomeSource result = Location.pathFrom source trail := by
  cases h with
  | compiled => rfl
  | unread => rfl
  | unsaved => rfl

theorem Accounts.eq_of_unread (h : c.Accounts source output fs fs' run trail result) {cause : Cause}
    (unread : fs.readText (Location.pathFrom source trail) = .error cause) :
    result = .error ⟨Location.pathFrom source trail,
      (StoreError.read (Location.pathFrom source trail) cause).message⟩ := by
  cases h with
  | compiled _ _ _ _ _ text before => cases before.symm.trans unread
  | unread cause' before =>
    cases before.symm.trans unread
    rfl
  | unsaved text before => cases before.symm.trans unread

/-- What is reported of a delivery holds after the rest of the run. -/
theorem Delivers.accounts {now after : FileSystem}
    (step : c.Delivers source output trail now result after)
    (moved : (c.deliverFiles source output earlier fs).2 = now)
    (here : now.Worklist source (trail :: trails)) (rest : after.Worklist source trails)
    (same : now.readText (Location.pathFrom source trail) =
      fs.readText (Location.pathFrom source trail)) :
    c.Accounts source output fs (c.deliverFiles source output trails after).2
      (earlier ++ trail :: trails) trail result := by
  obtain ⟨dirs, base, template⟩ := here.named trail List.mem_cons_self
  cases step with
  | unread cause read => exact .unread cause (same.symm.trans read)
  | read text read _ saved =>
    have before := same.symm.trans read
    cases planned : (now.outputPlan output trail).result with
    | error cause =>
      obtain ⟨_, refused, -⟩ :=
        FileSystem.save_outputPath template here.plain output (c.compileText text).code
      rw [planned, ← moved] at refused
      exact .unsaved text before earlier ⟨trails, by simp⟩ _ (congrArg Prod.fst refused)
    | ok l =>
      obtain ⟨last, named, path, -⟩ := FileSystem.outputPlan_eq_ok template planned
      have read := readText_of_delivered here rest c saved planned
      rw [path] at read
      rw [outcome, path]
      exact .compiled dirs base template last named text before read

theorem accounts_deliverFiles (work : fs.Worklist source (earlier ++ trails)) (c : Compiler)
    (output : Text) :
    List.Forall₂ (c.Accounts source output fs
        (c.deliverFiles source output (earlier ++ trails) fs).2 (earlier ++ trails)) trails
      (c.deliverFiles source output trails (c.deliverFiles source output earlier fs).2).1 := by
  induction trails generalizing earlier with
  | nil => exact .nil
  | cons trail trails ih =>
    have start := advances_deliverFiles work.left c output
    have here := work.right.advances start
    have same := work.right.readText start List.mem_cons_self
    obtain ⟨result, after, done, step, -, rest⟩ := delivers_head here c output
    have first := step.accounts rfl here rest same
    have shift : earlier ++ [trail] ++ trails = earlier ++ trail :: trails := by simp
    have later := ih (shift.symm ▸ work)
    have moved : (c.deliverFiles source output (earlier ++ [trail]) fs).2 = after := by
      rw [deliverFiles_append, deliverFiles_cons, done]
      rfl
    have final : (c.deliverFiles source output (earlier ++ trail :: trails) fs).2 =
        (c.deliverFiles source output trails after).2 := by
      rw [deliverFiles_append, deliverFiles_cons, done]
    rw [moved, shift] at later
    rw [deliverFiles_cons, done]
    exact .cons (final ▸ first) later

theorem accounts_whole (work : fs.Worklist source trails) (c : Compiler) (output : Text) :
    List.Forall₂ (c.Accounts source output fs (c.deliverFiles source output trails fs).2 trails)
      trails (c.deliverFiles source output trails fs).1 := by
  have whole : fs.Worklist source ([] ++ trails) := work
  exact accounts_deliverFiles whole c output

/-- A template that cannot be read leaves no trace in the file system. -/
theorem deliverFiles_filter (work : fs₀.Worklist source trails) (start : fs₀.Advances fs)
    (c : Compiler) (output : Text) :
    (c.deliverFiles source output
        (trails.filter fun trail => (fs₀.readText (Location.pathFrom source trail)).isOk) fs).2 =
      (c.deliverFiles source output trails fs).2 := by
  induction trails generalizing fs with
  | nil => rfl
  | cons trail trails ih =>
    obtain ⟨result, fs', done, step, advance, -⟩ := delivers_head (work.advances start) c output
    have later := ih work.tail (start.trans advance)
    have same := work.readText start List.mem_cons_self
    rw [deliverFiles_cons c source output trail trails, done]
    cases step with
    | unread cause read =>
      rw [List.filter_cons_of_neg (by simp [← same, read, Except.isOk, Except.toBool])]
      exact later
    | read text read =>
      rw [List.filter_cons_of_pos (by simp [← same, read, Except.isOk, Except.toBool]),
        deliverFiles_cons, done]
      exact later

/-- Delivered templates have outputs of their own. -/
theorem Accounts.trail_eq {trail' : Location} {file file' : CompiledFile}
    (h : c.Accounts source output fs fs' run trail (.ok file))
    (h' : c.Accounts source output fs fs' run trail' (.ok file'))
    (same : file.output = file'.output) : trail = trail' := by
  cases h with
  | compiled dirs base template last named =>
  cases h' with
  | compiled dirs' base' template' last' named' =>
    obtain ⟨rfl, rfl⟩ := List.append_inj' (Location.pathFrom_injective output same) rfl
      |>.imp_right List.singleton_inj.mp
    obtain rfl := List.append_cancel_right (named.symm.trans named')
    exact template.trail_unique template'

theorem map_outcomeSource {outcomes : List (Except FailedFile CompiledFile)}
    (h : List.Forall₂ (c.Accounts source output fs fs' run) trails outcomes) :
    outcomes.map outcomeSource = trails.map (Location.pathFrom source) := by
  induction h with
  | nil => rfl
  | cons first _ ih => rw [List.map_cons, List.map_cons, first.source_eq, ih]

theorem nodup_outputs {outcomes : List (Except FailedFile CompiledFile)}
    (h : List.Forall₂ (c.Accounts source output fs fs' run) trails outcomes) (once : trails.Nodup) :
    ((Report.ofOutcomes outcomes).files.map CompiledFile.output).Nodup := by
  induction h with
  | nil => exact .nil
  | @cons trail result trails outcomes first later ih =>
    have rest := ih once.of_cons
    cases result with
    | error failure => exact rest
    | ok file =>
      rw [Report.ofOutcomes_ok, List.map_cons, List.nodup_cons]
      refine ⟨?_, rest⟩
      intro again
      obtain ⟨file', listed, same⟩ := List.mem_map.mp again
      obtain ⟨trail', other, right⟩ := exists_of_forall₂ later.flip (Report.mem_files.mp listed)
      rw [first.trail_eq right same.symm] at once
      exact (List.nodup_cons.mp once).1 other

end Compiler

/-- The report is right about a run from the one file system to the other: it names each
template once and in order, and each output is found at the end with the code for the text that
the template had before; a template fails only if it cannot be read, or if saving is refused in
the state that the earlier ones have left; the templates are as before, and those that are no
text have failed and have left no trace. -/
structure Report.Faithful (report : Report) (c : Compiler) (source output : Text)
    (fs fs' : FileSystem) : Prop where
  once : (fs.templatePaths source).Nodup
  all : (report.files.map CompiledFile.source ++ report.failures.map FailedFile.source).Perm
    (fs.templatePaths source)
  files_ordered : (report.files.map CompiledFile.source).Sublist (fs.templatePaths source)
  failures_ordered : (report.failures.map FailedFile.source).Sublist (fs.templatePaths source)
  outputs_differ : (report.files.map CompiledFile.output).Nodup
  mirrored : ∀ file ∈ report.files, ∃ (dirs : Location) (base : Text), base ≠ [] ∧ '/' ∉ base ∧
    file.source = Text.below (Location.pathFrom source dirs) (base ++ '.' :: sourceExtension) ∧
    file.output = Text.below (Location.pathFrom output dirs) (base ++ '.' :: targetExtension)
  compiled : ∀ file ∈ report.files, ∃ text, fs.readText file.source = .ok text ∧
    fs'.readText file.output = .ok (c.compileText text).code ∧
    file.skipped = (c.compileText text).skipped ∧ file.unresolved = (c.compileText text).unresolved
  failed : ∀ failure ∈ report.failures,
    (∃ cause, fs.readText failure.source = .error cause ∧
      failure.message = (StoreError.read failure.source cause).message) ∨
    ∃ earlier trail text error, earlier ++ [trail] <+: fs.templates source ∧
      failure.source = Location.pathFrom source trail ∧ fs.readText failure.source = .ok text ∧
      ((c.deliverFiles source output earlier fs).2.save (outputPath output trail)
        (c.compileText text).code).1 = .error error ∧ failure.message = error.message
  kept : ∀ path ∈ fs.templatePaths source, ∃ bytes, fs.readBytes path = .ok bytes ∧
    fs'.readBytes path = .ok bytes
  unreadable : ∀ path ∈ fs.templatePaths source, ∀ bytes, fs.readBytes path = .ok bytes →
    Text.ofUtf8? bytes = none → ⟨path, (StoreError.read path .notText).message⟩ ∈ report.failures
  traceless : fs' = (c.deliverFiles source output ((fs.templates source).filter fun trail =>
    (fs.readText (Location.pathFrom source trail)).isOk) fs).2

namespace Compiler
variable {source : Text} {fs : FileSystem} {outcomes : List (Except FailedFile CompiledFile)}

theorem Accounts.mirrored {c : Compiler} {output : Text} {fs' : FileSystem} {trail : Location}
    {run : List Location} {file : CompiledFile}
    (h : c.Accounts source output fs fs' run trail (.ok file)) :
    ∃ dirs base, base ≠ [] ∧ '/' ∉ base ∧
      file.source = Text.below (Location.pathFrom source dirs) (base ++ '.' :: sourceExtension) ∧
      file.output =
        Text.below (Location.pathFrom output dirs) (base ++ '.' :: targetExtension) := by
  cases h with
  | compiled dirs base template last named =>
    have slashless := template.slashless
    obtain ⟨name, filled, text⟩ := template
    refine ⟨dirs, base, filled, slashless, ?_, ?_⟩
    · exact text ▸ Location.pathFrom_concat source dirs name
    · exact named ▸ Location.pathFrom_concat output dirs last

theorem faithful_ofOutcomes (work : fs.Worklist source (fs.templates source)) (c : Compiler)
    (output : Text) :
    (Report.ofOutcomes (c.deliverFiles source output (fs.templates source) fs).1).Faithful c source
      output fs (c.deliverFiles source output (fs.templates source) fs).2 := by
  have right := accounts_whole work c output
  have advance := advances_deliverFiles work c output
  have filtered := deliverFiles_filter work (.refl work.plain) c output
  generalize c.deliverFiles source output (fs.templates source) fs = run at *
  have sources : run.1.map outcomeSource = fs.templatePaths source := map_outcomeSource right
  refine ⟨?_, ?_, ?_, ?_, nodup_outputs right work.nodup, ?_, ?_, ?_, ?_, ?_, filtered.symm⟩
  · exact List.Nodup.map (Location.pathFrom_injective source) work.nodup
  · exact sources ▸ Report.sources_perm run.1
  · exact sources ▸ Report.files_sublist run.1
  · exact sources ▸ Report.failures_sublist run.1
  · intro file listed
    obtain ⟨trail, -, right⟩ := exists_of_forall₂ right.flip (Report.mem_files.mp listed)
    exact right.mirrored
  · intro file listed
    obtain ⟨trail, -, right⟩ := exists_of_forall₂ right.flip (Report.mem_files.mp listed)
    cases right with
    | compiled _ _ _ _ _ text before after => exact ⟨text, before, after, rfl, rfl⟩
  · intro failure listed
    obtain ⟨trail, -, right⟩ := exists_of_forall₂ right.flip (Report.mem_failures.mp listed)
    cases right with
    | unread cause before => exact Or.inl ⟨cause, before, rfl⟩
    | unsaved text before earlier order error refused =>
      exact Or.inr ⟨earlier, trail, text, error, order, rfl, before, refused, rfl⟩
  · intro path listed
    obtain ⟨trail, there, rfl⟩ := List.mem_map.mp listed
    obtain ⟨dirs, base, template⟩ := work.named trail there
    exact advance.readBytes work.plain template (work.there trail there)
  · intro path listed bytes read noText
    obtain ⟨trail, there, rfl⟩ := List.mem_map.mp listed
    have unread : fs.readText (Location.pathFrom source trail) = .error .notText := by
      rw [FileSystem.readText, read]
      simp [bind, Except.bind, noText]
    obtain ⟨result, found, right⟩ := exists_of_forall₂ right there
    rw [right.eq_of_unread unread] at found
    exact Report.mem_failures.mpr found

end Compiler

/-- Delivery of a directory without links reports every template, and rightly. -/
theorem deliver_faithful (c : Compiler) (source output : Text) {fs : FileSystem}
    (plain : fs.Plain) (dir : fs.isDirectory source = true) :
    ∃ report fs', c.deliver source output fs = (.ok report, fs') ∧
      report.Faithful c source output fs fs' := by
  refine ⟨_, _, ?_, Compiler.faithful_ofOutcomes (FileSystem.worklist_templates plain dir) c output⟩
  rw [Compiler.deliver, if_pos dir]

/-- Templates at two levels, one that is no text, and one whose output is a directory already. -/
def mixedTree : FileSystem := .planted [
  ("s".toList, none), ("s/a.tpl".toList, some (Text.toUtf8 "\x7b$a|m\x7d".toList)),
  ("s/b.tpl".toList, some ⟨#[255]⟩), ("s/d".toList, none),
  ("s/d/c.tpl".toList, some (Text.toUtf8 "C".toList)), ("s/e.php".toList, none),
  ("s/e.tpl".toList, some (Text.toUtf8 "E".toList))]

/-- The tree is delivered into itself. -/
theorem deliver_faithful_mixedTree : mixedTree.Plain ∧ mixedTree.isDirectory "s".toList = true ∧
    mixedTree.templatePaths "s".toList =
      ["s/a.tpl".toList, "s/b.tpl".toList, "s/d/c.tpl".toList, "s/e.tpl".toList] ∧
    ∃ report fs', (Compiler.ofShared .empty).deliver "s".toList "s".toList mixedTree =
        (.ok report, fs') ∧ report.files.map CompiledFile.output =
          ["s/a.php".toList, "s/d/c.php".toList] ∧
      report.Faithful (Compiler.ofShared .empty) "s".toList "s".toList mixedTree fs' := by
  have plain : mixedTree.Plain := FileSystem.plain_planted _
  have dir : mixedTree.isDirectory "s".toList = true := by decide +kernel
  obtain ⟨report, fs', done, faithful⟩ :=
    deliver_faithful (Compiler.ofShared .empty) "s".toList "s".toList plain dir
  have outputs : ((Compiler.ofShared .empty).deliver "s".toList "s".toList mixedTree).1.toOption.map
      (fun report => report.files.map CompiledFile.output) =
        some ["s/a.php".toList, "s/d/c.php".toList] := by decide +kernel
  rw [done] at outputs
  exact ⟨plain, dir, by decide +kernel, report, fs', done, Option.some.inj outputs, faithful⟩

end BraceTemplate
