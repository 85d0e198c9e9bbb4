import BraceTemplate.Proofs.Outputs
import Mathlib.Data.List.Forall2

/-!
# Delivering a directory of templates

Each template that is delivered changes what the later ones find: the output may lie
inside the source, and one output may stand in the way of another. Yet no template is
touched, what could be found is still found, and a file that has been written stays,
since no two templates have one output.
-/
namespace BraceTemplate

namespace FileSystem
variable {fs fs' fs'' : FileSystem} {path output : Text} {trail dirs : Location} {base : Text}

/-- What a run of deliveries can do: the file system grows, and the files that have names of
templates are the same. -/
structure Advances (fs fs' : FileSystem) : Prop where
  grows : fs.Grows fs'
  plain : fs'.Plain
  sources : ∀ dirs base l, IsTemplate dirs base l → ∀ bytes,
    fs'.entry? l = some (.file bytes) ↔ fs.entry? l = some (.file bytes)

namespace Advances

theorem refl (plain : fs.Plain) : fs.Advances fs := ⟨.refl fs, plain, fun _ _ _ _ _ => Iff.rfl⟩

theorem trans (h : fs.Advances fs') (h' : fs'.Advances fs'') : fs.Advances fs'' where
  grows := h.grows.trans h'.grows
  plain := h'.plain
  sources := fun dirs base l named bytes =>
    (h'.sources dirs base l named bytes).trans (h.sources dirs base l named bytes)

end Advances

/-- A saved output is no template and takes the place of none. -/
theorem advances_of_saved (template : IsTemplate dirs base trail) (plain : fs.Plain)
    {bytes : ByteArray} (saved : (fs.outputPlan output trail).Saved fs fs' bytes) :
    fs.Advances fs' := by
  have saved' := saved
  rw [outputPlan_eq template] at saved'
  refine ⟨saved'.grows, saved'.plain plain, ?_⟩
  intro dirs' base' l named contents
  by_cases listed : l ∈ (fs.outputPlan output trail).passed
  · have after := saved.made l listed
    have before := blocks_eq_false.mp (free_of_mem_outputPlan template listed)
    constructor
    · intro file
      rw [after] at file
      cases file
    · intro file
      simp [file] at before
  · rw [saved.kept l listed]
    intro written
    obtain ⟨last, text, -, rfl⟩ := outputPlan_eq_ok template written
    exact targetExtension_ne_source base base' (text.symm.trans named.text_eq)

theorem readBytes_of_locate {l : Location} {bytes : ByteArray} (found : fs.locate path = .ok l)
    (file : fs.entry? l = some (.file bytes)) : fs.readBytes path = .ok bytes := by
  rw [readBytes, found]
  simp [bind, Except.bind, file]

theorem readText_of_locate {l : Location} {text : Text} (found : fs.locate path = .ok l)
    (file : fs.entry? l = some (.file (Text.toUtf8 text))) : fs.readText path = .ok text := by
  rw [readText, readBytes_of_locate found file]
  simp [bind, Except.bind, Text.ofUtf8?_toUtf8]

section Template
variable (advance : fs.Advances fs') (plain : fs.Plain) (template : IsTemplate dirs base trail)
variable (file : fs.isFile (Location.pathFrom path trail) = true)
include advance plain template file

/-- A template is found with the same content after any deliveries. -/
theorem Advances.found : ∃ l bytes,
    (fs.locate (Location.pathFrom path trail) = .ok l ∧ fs.entry? l = some (.file bytes)) ∧
    fs'.locate (Location.pathFrom path trail) = .ok l ∧ fs'.entry? l = some (.file bytes) := by
  obtain ⟨l, bytes, found, file⟩ := isFile_eq_true.mp file
  have named : IsTemplate (fs.place path ++ dirs) base l := by
    rw [locate_eq_place plain found, place_pathFrom]
    exact template.append_left _
  exact ⟨l, bytes, ⟨found, file⟩, advance.grows.locate plain advance.plain found,
    (advance.sources _ _ l named bytes).mpr file⟩

theorem Advances.readBytes : ∃ bytes, fs.readBytes (Location.pathFrom path trail) = .ok bytes ∧
    fs'.readBytes (Location.pathFrom path trail) = .ok bytes := by
  obtain ⟨l, bytes, ⟨found, file⟩, found', file'⟩ := advance.found plain template file
  exact ⟨bytes, readBytes_of_locate found file, readBytes_of_locate found' file'⟩

theorem Advances.readText :
    fs'.readText (Location.pathFrom path trail) = fs.readText (Location.pathFrom path trail) := by
  obtain ⟨bytes, before, after⟩ := advance.readBytes plain template file
  rw [FileSystem.readText, FileSystem.readText, before, after]

theorem Advances.isFile : fs'.isFile (Location.pathFrom path trail) = true := by
  obtain ⟨l, bytes, -, found, file⟩ := advance.found plain template file
  exact isFile_eq_true.mpr ⟨l, bytes, found, file⟩

end Template

/-- Trails of templates that are there, each once. -/
structure Worklist (fs : FileSystem) (source : Text) (trails : List Location) : Prop where
  plain : fs.Plain
  nodup : trails.Nodup
  named : ∀ trail ∈ trails, ∃ dirs base, IsTemplate dirs base trail
  there : ∀ trail ∈ trails, fs.isFile (Location.pathFrom source trail) = true

theorem worklist_templates (plain : fs.Plain) (dir : fs.isDirectory path = true) :
    fs.Worklist path (fs.templates path) where
  plain := plain
  nodup := fs.nodup_templates path
  named := fun _ => exists_isTemplate dir
  there := fun _ listed => (mem_templates.mp listed).2.1

namespace Worklist
variable {source : Text} {trails : List Location}

theorem perm {trails' : List Location} (work : fs.Worklist source trails)
    (h : trails.Perm trails') : fs.Worklist source trails' where
  plain := work.plain
  nodup := h.nodup_iff.mp work.nodup
  named := fun t listed => work.named t (h.mem_iff.mpr listed)
  there := fun t listed => work.there t (h.mem_iff.mpr listed)

theorem left {later : List Location} (work : fs.Worklist source (trails ++ later)) :
    fs.Worklist source trails where
  plain := work.plain
  nodup := (List.nodup_append.mp work.nodup).1
  named := fun t listed => work.named t (List.mem_append_left later listed)
  there := fun t listed => work.there t (List.mem_append_left later listed)

theorem right {earlier : List Location} (work : fs.Worklist source (earlier ++ trails)) :
    fs.Worklist source trails :=
  (work.perm List.perm_append_comm).left

theorem tail (work : fs.Worklist source (trail :: trails)) : fs.Worklist source trails :=
  (show fs.Worklist source ([trail] ++ trails) from work).right

theorem advances (work : fs.Worklist source trails) (advance : fs.Advances fs') :
    fs'.Worklist source trails where
  plain := advance.plain
  nodup := work.nodup
  named := work.named
  there := fun t listed => by
    obtain ⟨dirs, base, template⟩ := work.named t listed
    exact advance.isFile work.plain template (work.there t listed)

theorem readText (work : fs.Worklist source trails) (advance : fs.Advances fs')
    (listed : trail ∈ trails) : fs'.readText (Location.pathFrom source trail) =
      fs.readText (Location.pathFrom source trail) := by
  obtain ⟨dirs, base, template⟩ := work.named trail listed
  exact advance.readText work.plain template (work.there trail listed)

end Worklist
end FileSystem

namespace Compiler
variable {c : Compiler} {source output : Text} {fs fs' : FileSystem}

/-- The octets written for a template with this text. -/
def bytes (c : Compiler) (text : Text) : ByteArray := Text.toUtf8 (c.compileText text).code

/-- What is reported of a template whose text could be read, by what came of saving. -/
def outcome (c : Compiler) (source output : Text) (trail : Location) (text : Text) :
    Except Cause Location → Except FailedFile CompiledFile
  | .ok _ => .ok ⟨Location.pathFrom source trail, outputPath output trail,
      (c.compileText text).skipped, (c.compileText text).unresolved⟩
  | .error cause => .error ⟨Location.pathFrom source trail,
      (StoreError.write (outputPath output trail) cause).message⟩

/-- All that the delivery of one template can do. -/
inductive Delivers (c : Compiler) (source output : Text) (trail : Location) (fs : FileSystem) :
    Except FailedFile CompiledFile → FileSystem → Prop where
  | unread (cause : Cause) (read : fs.readText (Location.pathFrom source trail) = .error cause) :
      Delivers c source output trail fs (.error ⟨Location.pathFrom source trail,
        (StoreError.read (Location.pathFrom source trail) cause).message⟩) fs
  | read (text : Text) (read : fs.readText (Location.pathFrom source trail) = .ok text)
      (fs' : FileSystem) (saved : (fs.outputPlan output trail).Saved fs fs' (c.bytes text)) :
      Delivers c source output trail fs
        (c.outcome source output trail text (fs.outputPlan output trail).result) fs'

theorem delivers_deliverFile (c : Compiler) (source output : Text) {trail dirs : Location}
    {base : Text} (template : IsTemplate dirs base trail) (plain : fs.Plain) :
    c.Delivers source output trail fs (c.deliverFile source output trail fs).1
      (c.deliverFile source output trail fs).2 := by
  rw [deliverFile]
  cases read : fs.readText (Location.pathFrom source trail) with
  | error cause => exact .unread cause read
  | ok text =>
    obtain ⟨fs', done, saved⟩ :=
      FileSystem.save_outputPath template plain output (c.compileText text).code
    have delivered := Delivers.read text read fs' saved
    simp only [done]
    cases planned : (fs.outputPlan output trail).result with
    | error cause =>
      rw [planned] at delivered
      exact delivered
    | ok l =>
      rw [planned] at delivered
      exact delivered

namespace Delivers
variable {trail dirs : Location} {base : Text} {result : Except FailedFile CompiledFile}
variable (step : c.Delivers source output trail fs result fs')
include step

theorem saved_of_read {text : Text}
    (read : fs.readText (Location.pathFrom source trail) = .ok text) :
    (fs.outputPlan output trail).Saved fs fs' (c.bytes text) := by
  cases step with
  | unread cause unread => cases unread.symm.trans read
  | read text' read' _ saved =>
    cases read'.symm.trans read
    exact saved

theorem advances (template : IsTemplate dirs base trail) (plain : fs.Plain) : fs.Advances fs' := by
  cases step with
  | unread => exact .refl plain
  | read text _ _ saved => exact FileSystem.advances_of_saved template plain saved

/-- A file stays as it is unless its place is that of the output. -/
theorem entry?_of_file (template : IsTemplate dirs base trail) {l : Location} {bytes : ByteArray}
    (other : (fs.outputPlan output trail).result ≠ .ok l)
    (file : fs.entry? l = some (.file bytes)) : fs'.entry? l = some (.file bytes) := by
  cases step with
  | unread => exact file
  | read text _ _ saved =>
    rw [saved.kept l _ other, file]
    intro listed
    have free := FileSystem.free_of_mem_outputPlan template listed
    rw [FileSystem.blocks_of_file file] at free
    cases free

end Delivers

theorem deliverFiles_cons (c : Compiler) (source output : Text) (trail : Location)
    (trails : List Location) (fs : FileSystem) :
    c.deliverFiles source output (trail :: trails) fs =
      ((c.deliverFile source output trail fs).1 ::
        (c.deliverFiles source output trails (c.deliverFile source output trail fs).2).1,
      (c.deliverFiles source output trails (c.deliverFile source output trail fs).2).2) := rfl

theorem deliverFiles_append (c : Compiler) (source output : Text) (earlier later : List Location)
    (fs : FileSystem) :
    c.deliverFiles source output (earlier ++ later) fs =
      ((c.deliverFiles source output earlier fs).1 ++
        (c.deliverFiles source output later (c.deliverFiles source output earlier fs).2).1,
      (c.deliverFiles source output later (c.deliverFiles source output earlier fs).2).2) := by
  induction earlier generalizing fs with
  | nil => rfl
  | cons trail earlier ih =>
    rw [List.cons_append, deliverFiles_cons, deliverFiles_cons, ih]
    rfl

/-- The first step of a run, with what it leaves for the others. -/
theorem delivers_head {trail : Location} {trails : List Location}
    (work : fs.Worklist source (trail :: trails)) (c : Compiler) (output : Text) :
    ∃ result fs', c.deliverFile source output trail fs = (result, fs') ∧
      c.Delivers source output trail fs result fs' ∧ fs.Advances fs' ∧
      fs'.Worklist source trails := by
  obtain ⟨dirs, base, template⟩ := work.named trail List.mem_cons_self
  have step := c.delivers_deliverFile source output template work.plain
  have advance := step.advances template work.plain
  exact ⟨_, _, rfl, step, advance, work.tail.advances advance⟩

variable {trails : List Location}

theorem advances_deliverFiles (work : fs.Worklist source trails) (c : Compiler) (output : Text) :
    fs.Advances (c.deliverFiles source output trails fs).2 := by
  induction trails generalizing fs with
  | nil => exact .refl work.plain
  | cons trail trails ih =>
    obtain ⟨result, fs', done, -, advance, rest⟩ := delivers_head work c output
    rw [deliverFiles_cons, done]
    exact advance.trans (ih rest)

/-- A written output stays to the end of the run. -/
theorem entry?_deliverFiles_of_written (work : fs.Worklist source trails) (c : Compiler)
    {trail dirs : Location} {base : Text} (template : IsTemplate dirs base trail)
    (other : trail ∉ trails) {before : FileSystem} (home : before.home = fs.home) {l : Location}
    (planned : (before.outputPlan output trail).result = .ok l) {bytes : ByteArray}
    (file : fs.entry? l = some (.file bytes)) :
    FileSystem.entry? (c.deliverFiles source output trails fs).2 l = some (.file bytes) := by
  induction trails generalizing fs with
  | nil => exact file
  | cons trail' trails ih =>
    obtain ⟨result, fs', done, step, advance, rest⟩ := delivers_head work c output
    obtain ⟨dirs', base', template'⟩ := work.named trail' List.mem_cons_self
    rw [List.mem_cons, not_or] at other
    rw [deliverFiles_cons, done]
    have elsewhere : (fs.outputPlan output trail').result ≠ .ok l := fun planned' =>
      other.1 (FileSystem.trail_of_outputPlan home.symm template template' planned planned')
    exact ih rest other.2 (home.trans advance.grows.home.symm)
      (step.entry?_of_file template' elsewhere file)

/-- What was saved for a template is read at the end of the run. -/
theorem readText_of_delivered {trail : Location} (work : fs.Worklist source (trail :: trails))
    (rest : fs'.Worklist source trails) (c : Compiler) {text : Text}
    (saved : (fs.outputPlan output trail).Saved fs fs' (c.bytes text)) {l : Location}
    (planned : (fs.outputPlan output trail).result = .ok l) :
    (c.deliverFiles source output trails fs').2.readText (outputPath output trail) =
      .ok (c.compileText text).code := by
  obtain ⟨dirs, base, template⟩ := work.named trail List.mem_cons_self
  have new : trail ∉ trails := (List.nodup_cons.mp work.nodup).1
  have advance := advances_deliverFiles rest c output
  have file := entry?_deliverFiles_of_written rest c template new saved.home.symm planned
    (saved.written l planned)
  have found := FileSystem.locate_outputPath template work.plain saved planned
  exact FileSystem.readText_of_locate (advance.grows.locate rest.plain advance.plain found) file

end Compiler
end BraceTemplate
