import BraceTemplate.Files.Walk
import BraceTemplate.Proofs.Repetition

/-!
# A delivery made twice

A run neither adds nor removes a template, even if the output lies inside the source, and
what it has done for a template is in place when the same template comes up again. So a
second run finds the same work, changes nothing, and reports the same up to the manner in
which a file in the way is named.
-/
namespace BraceTemplate

namespace FileSystem
variable {fs fs' : FileSystem} {path : Text} {trail : Location}

/-- Every file below a directory is found. -/
theorem mem_filesBelow (path : Text) {below : Location} (filled : below ≠ []) {here : Location}
    {bytes : ByteArray} (file : fs.entry? (here ++ below) = some (.file bytes))
    (trail : Location) (inside : List Location) :
    trail ++ below ∈ fs.filesBelow path trail here inside := by
  induction below generalizing here trail inside with
  | nil => exact absurd rfl filled
  | cons name rest ih =>
    rw [filesBelow, List.mem_flatMap]
    cases rest with
    | nil =>
      refine ⟨name, mem_children.mpr (by rw [file]; rfl), ?_⟩
      split
      · exact List.mem_singleton_self _
      all_goals simp_all
    | cons next more =>
      have inner : fs.entry? (here ++ [name] ++ next :: more) = some (.file bytes) := by
        rwa [List.append_assoc, List.singleton_append]
      have dir := directory_of_entry?_append (List.cons_ne_nil _ _) inner
      refine ⟨name, mem_children.mpr (by rw [dir]; rfl), ?_⟩
      have found := ih (List.cons_ne_nil _ _) inner (trail ++ [name]) (here :: inside)
      rw [List.append_assoc, List.singleton_append] at found
      split
      all_goals simp_all

theorem mem_templates_iff (plain : fs.Plain) (dir : fs.isDirectory path = true) :
    trail ∈ fs.templates path ↔ fs.isFile (Location.pathFrom path trail) = true ∧
      ∃ dirs base, IsTemplate dirs base trail := by
  constructor
  · intro listed
    exact ⟨(mem_templates.mp listed).2.1, exists_isTemplate dir listed⟩
  · rintro ⟨file, dirs, base, template⟩
    obtain ⟨start, found, there⟩ := isDirectory_eq_true.mp dir
    obtain ⟨l, bytes, located, entry⟩ := isFile_eq_true.mp file
    rw [locate_eq_place plain located, place_pathFrom, ← locate_eq_place plain found] at entry
    have listed : trail ∈ fs.files path := by
      simp only [files, found, there]
      exact mem_filesBelow path template.ne_nil entry [] []
    exact mem_templates.mpr ⟨listed, file, by rw [template.templateStem?_endName]; rfl⟩

/-- Names that could be looked up later can be looked up now if their entry is there. -/
theorem look_of_later {here dir l : Location} {steps : List PathStep}
    (found : fs.look here steps = .ok dir)
    (later : fs'.look here (steps ++ trail.map .down) = .ok l)
    (there : (fs.entry? (dir ++ trail)).isSome) :
    fs.look here (steps ++ trail.map .down) = .ok (dir ++ trail) := by
  induction trail using List.reverseRecOn generalizing l with
  | nil => simpa using found
  | append_singleton trail name ih =>
    rw [List.map_append, List.map_singleton, ← List.append_assoc] at later ⊢
    rw [← List.append_assoc] at there ⊢
    obtain ⟨e, entry⟩ := Option.isSome_iff_exists.mp there
    have inside := directory_of_entry?_concat entry
    obtain ⟨k, before, last⟩ := look_concat_eq_ok later
    rw [look_concat, ih before (by rw [inside]; rfl)]
    exact step?_down inside (short_of_step? last) there

/-- No template is added. -/
theorem Advances.isFile_iff (advance : fs.Advances fs') (plain : fs.Plain)
    (dir : fs.isDirectory path = true) {dirs : Location} {base : Text}
    (template : IsTemplate dirs base trail) :
    fs'.isFile (Location.pathFrom path trail) = true ↔
      fs.isFile (Location.pathFrom path trail) = true := by
  refine ⟨fun file => ?_, advance.isFile plain template⟩
  obtain ⟨start, found, -⟩ := isDirectory_eq_true.mp dir
  obtain ⟨l, bytes, located, entry⟩ := isFile_eq_true.mp file
  have home := advance.grows.home
  have same : l = start ++ trail := by
    rw [locate_eq_place advance.plain located, place_pathFrom, place, home,
      locate_eq_place plain found, place]
  rw [same] at entry located
  have before := (advance.sources _ base _ (template.append_left start) bytes).mp entry
  refine isFile_eq_true.mpr ⟨start ++ trail, bytes, ?_, before⟩
  obtain ⟨accepted, looked⟩ := (locateRoute_eq_ok advance.plain).mp located
  refine (locateRoute_eq_ok plain).mpr ⟨accepted, ?_⟩
  rw [template.walk_pathFrom, Location.startFrom_pathFrom, Location.steps_pathFrom] at looked ⊢
  rw [home] at looked
  exact look_of_later (look_steps_of_locate plain found) looked (by rw [before]; rfl)

theorem Advances.isDirectory (advance : fs.Advances fs') (plain : fs.Plain)
    (dir : fs.isDirectory path = true) : fs'.isDirectory path = true := by
  obtain ⟨l, found, there⟩ := isDirectory_eq_true.mp dir
  exact isDirectory_eq_true.mpr ⟨l, advance.grows.locate plain advance.plain found,
    advance.grows.directory l there⟩

theorem Advances.templates (advance : fs.Advances fs') (plain : fs.Plain)
    (dir : fs.isDirectory path = true) : fs'.templates path = fs.templates path := by
  have dir' := advance.isDirectory plain dir
  have same : ∀ trail, trail ∈ fs'.templates path ↔ trail ∈ fs.templates path := by
    intro trail
    rw [mem_templates_iff plain dir, mem_templates_iff advance.plain dir']
    constructor
    · rintro ⟨file, dirs, base, template⟩
      exact ⟨(advance.isFile_iff plain dir template).mp file, dirs, base, template⟩
    · rintro ⟨file, dirs, base, template⟩
      exact ⟨(advance.isFile_iff plain dir template).mpr file, dirs, base, template⟩
  simp only [FileSystem.templates, Std.ExtTreeSet.mem_toList] at same ⊢
  rw [Std.ExtTreeSet.ext_mem same]

end FileSystem

namespace Compiler
variable {c : Compiler} {source output : Text} {fs before after final : FileSystem}
variable {trail : Location} {trails : List Location} {result : Except FailedFile CompiledFile}

/-- The template's work is done in the final state: delivered again, it changes nothing and gives
the same outcome as it gave in a run from `fs`, or one that sharpens it. -/
def Settled (c : Compiler) (source output : Text) (fs final : FileSystem) (trail : Location)
    (result : Except FailedFile CompiledFile) : Prop :=
  ∃ result', c.deliverFile source output trail final = (result', final) ∧
    OutcomesRelated FailedFile.Sharpens result result' ∧
    (fs.Anchored output → result' = result)

/-- Whatever a delivery planned is in place afterwards, and a second one finds it there. -/
theorem Delivers.settled (step : c.Delivers source output trail before result after)
    {dirs : Location} {base : Text} (template : IsTemplate dirs base trail)
    (advance : after.Advances final) (stay : before.Advances final)
    (same : final.readText (Location.pathFrom source trail) =
      before.readText (Location.pathFrom source trail))
    (written : ∀ l bytes, (before.outputPlan output trail).result = .ok l →
      after.entry? l = some (.file bytes) → final.entry? l = some (.file bytes)) :
    c.Settled source output before final trail result := by
  have again := c.delivers_deliverFile source output template stay.plain
  generalize done : c.deliverFile source output trail final = second at again
  obtain ⟨result', final'⟩ := second
  have made : ∀ text, before.readText (Location.pathFrom source trail) = .ok text →
      (∀ l ∈ (before.outputPlan output trail).passed, final.entry? l = some .directory) ∧
      ∀ l, (before.outputPlan output trail).result = .ok l →
        final.entry? l = some (.file (c.bytes text)) := by
    intro text read
    have saved := step.saved_of_read read
    exact ⟨fun l listed => advance.grows.directory l (saved.made l listed),
      fun l planned => written l _ planned (saved.written l planned)⟩
  have agree : ∀ text, before.readText (Location.pathFrom source trail) = .ok text →
      before.PlansAgree final output trail := by
    intro text read
    obtain ⟨dirs, file⟩ := made text read
    refine FileSystem.plansAgree_of_grows template stay.grows ?_ ?_
    · intro l listed
      exact FileSystem.blocks_eq_false.mpr (Or.inr (dirs l listed))
    · intro l planned dir
      cases (file l planned).symm.trans dir
  obtain ⟨related, equal⟩ := step.related again same agree
  have unchanged : final' = final := by
    cases again with
    | unread => rfl
    | read text read _ saved =>
      rw [same] at read
      obtain ⟨dirs, file⟩ := made text read
      refine saved.eq_of_settled ?_ ?_
      · rw [(agree text read).passed]
        exact dirs
      · intro l planned
        exact file l ((agree text read).result_ok_iff.mp planned)
  rw [unchanged] at done
  exact ⟨result', done, related, equal⟩

theorem settled_deliverFiles (work : fs.Worklist source trails) (c : Compiler) (output : Text) :
    List.Forall₂ (c.Settled source output fs (c.deliverFiles source output trails fs).2) trails
      (c.deliverFiles source output trails fs).1 := by
  induction trails generalizing fs with
  | nil => exact .nil
  | cons trail trails ih =>
    have whole := advances_deliverFiles work c output
    obtain ⟨dirs, base, template⟩ := work.named trail List.mem_cons_self
    obtain ⟨result, fs', done, step, advance, rest⟩ := delivers_head work c output
    rw [deliverFiles_cons, done] at whole ⊢
    have later := advances_deliverFiles rest c output
    refine .cons ?_ ((ih rest).imp ?_)
    · refine step.settled template later whole (work.readText whole List.mem_cons_self) ?_
      intro l bytes planned file
      exact entry?_deliverFiles_of_written rest c template (List.nodup_cons.mp work.nodup).1
        advance.grows.home.symm planned file
    · rintro trail' result' ⟨again, done, related, equal⟩
      exact ⟨again, done, related, fun anchored => equal (anchored.grows advance.grows)⟩

theorem deliverFiles_of_settled {outcomes : List (Except FailedFile CompiledFile)}
    (h : List.Forall₂ (c.Settled source output fs final) trails outcomes) :
    ∃ outcomes', c.deliverFiles source output trails final = (outcomes', final) ∧
      List.Forall₂ (OutcomesRelated FailedFile.Sharpens) outcomes outcomes' ∧
      (fs.Anchored output → outcomes' = outcomes) := by
  induction h with
  | nil => exact ⟨[], rfl, .nil, fun _ => rfl⟩
  | cons first _ ih =>
    obtain ⟨result', done, related, equal⟩ := first
    obtain ⟨outcomes', done', related', equal'⟩ := ih
    refine ⟨result' :: outcomes', ?_, .cons related related', fun anchored => ?_⟩
    · rw [deliverFiles_cons, done, done']
    · rw [equal anchored, equal' anchored]

end Compiler

/-- A second delivery changes nothing. It gives the same result up to failures that sharpen the
first ones, and exactly the same if the output path is anchored. -/
theorem deliver_again (c : Compiler) (source output : Text) {fs : FileSystem}
    (plain : fs.Plain) :
    ∃ again, c.deliver source output (c.deliver source output fs).2 =
        (again, (c.deliver source output fs).2) ∧
      ResultsRelated FailedFile.Sharpens (c.deliver source output fs).1 again ∧
      (fs.Anchored output → again = (c.deliver source output fs).1) := by
  by_cases dir : fs.isDirectory source = true
  · have work := FileSystem.worklist_templates plain dir
    have advance := Compiler.advances_deliverFiles work c output
    obtain ⟨outcomes, done, related, equal⟩ :=
      Compiler.deliverFiles_of_settled (Compiler.settled_deliverFiles work c output)
    have first : c.deliver source output fs =
        (.ok (.ofOutcomes (c.deliverFiles source output (fs.templates source) fs).1),
          (c.deliverFiles source output (fs.templates source) fs).2) := by
      rw [Compiler.deliver, if_pos dir]
    rw [first]
    refine ⟨.ok (.ofOutcomes outcomes), ?_, resultsRelated_ofOutcomes related, ?_⟩
    · rw [Compiler.deliver, if_pos (advance.isDirectory plain dir),
        advance.templates plain dir, done]
    · intro anchored
      rw [equal anchored]
  · have refused : c.deliver source output fs = (.error (.noDirectory source), fs) := by
      rw [Compiler.deliver, if_neg dir]
    rw [refused]
    exact ⟨_, refused, .error _, fun _ => rfl⟩

/-- A template, and a file that is to stand in its way. -/
def detourTree : FileSystem := .planted [
  ("s".toList, none), ("s/a.tpl".toList, some (Text.toUtf8 "A".toList)),
  ("f".toList, some (Text.toUtf8 "F".toList))]

/-- Two deliveries with a step up from a missing directory, and two with one from a directory. -/
theorem deliver_again_detourTree : detourTree.Plain ∧
    (∃ again, (Compiler.ofShared .empty).deliver "s".toList "x/../f/y".toList
        ((Compiler.ofShared .empty).deliver "s".toList "x/../f/y".toList detourTree).2 =
          (again, ((Compiler.ofShared .empty).deliver "s".toList "x/../f/y".toList detourTree).2) ∧
      ResultsRelated FailedFile.Sharpens
        ((Compiler.ofShared .empty).deliver "s".toList "x/../f/y".toList detourTree).1 again) ∧
    detourTree.Anchored "s/../s".toList ∧
    (Compiler.ofShared .empty).deliver "s".toList "s/../s".toList
        ((Compiler.ofShared .empty).deliver "s".toList "s/../s".toList detourTree).2 =
      (Compiler.ofShared .empty).deliver "s".toList "s/../s".toList detourTree := by
  have plain : detourTree.Plain := FileSystem.plain_planted _
  have found : detourTree.locate "s/../s".toList =
      .ok [FileSystem.homeName, ⟨"s".toList, by decide⟩] := by decide +kernel
  have anchored := FileSystem.anchored_of_locate plain found
  obtain ⟨again, done, related, -⟩ :=
    deliver_again (Compiler.ofShared .empty) "s".toList "x/../f/y".toList plain
  obtain ⟨again', done', -, equal⟩ :=
    deliver_again (Compiler.ofShared .empty) "s".toList "s/../s".toList plain
  refine ⟨plain, ⟨again, done, related⟩, anchored, ?_⟩
  rw [done', equal anchored]

/-- The first delivery makes the missing directory, so the second one finds that the path leads
through a file. -/
theorem second_report_differs : detourTree.Plain ∧
    ((Compiler.ofShared .empty).deliver "s".toList "x/../f/y".toList detourTree).1 =
      .ok ⟨[], [⟨"s/a.tpl".toList,
        "failed to write x/../f/y/a.php: File exists (os error 17)".toList⟩]⟩ ∧
    ((Compiler.ofShared .empty).deliver "s".toList "x/../f/y".toList
        ((Compiler.ofShared .empty).deliver "s".toList "x/../f/y".toList detourTree).2).1 =
      .ok ⟨[], [⟨"s/a.tpl".toList,
        "failed to write x/../f/y/a.php: Not a directory (os error 20)".toList⟩]⟩ := by
  refine ⟨FileSystem.plain_planted _, ?_, ?_⟩
  · decide +kernel
  · decide +kernel

end BraceTemplate
