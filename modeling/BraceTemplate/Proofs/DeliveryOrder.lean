import BraceTemplate.Proofs.Repetition
import Mathlib.Data.List.Perm.Basic

/-!
# The order of a delivery

The templates of a directory may be delivered in any order. Two of them clash if one,
delivered alone, leaves a file where the other leaves a directory: then the one that comes
first wins. Where no two clash, every template finds the plan that it would have found at
the start, so the file system at the end is the same for all orders, and so is the report
up to the manner in which a file in the way is named.
-/
namespace BraceTemplate

/-- The outcome for a template in a run in this order. -/
def outcomeOf? (order : List Location) (outcomes : List (Except FailedFile CompiledFile))
    (trail : Location) : Option (Except FailedFile CompiledFile) :=
  ((order.zip outcomes).find? fun found => found.1 = trail).map Prod.snd

namespace Compiler

/-- Delivers the templates in the given order, and reports in the order of the templates. -/
def deliverInOrder (c : Compiler) (source output : Text) (order : List Location)
    (fs : FileSystem) : Except StoreError Report × FileSystem :=
  if fs.isDirectory source then
    let (outcomes, fs') := c.deliverFiles source output order fs
    (.ok (.ofOutcomes ((fs.templates source).filterMap (outcomeOf? order outcomes))), fs')
  else (.error (.noDirectory source), fs)

/-- Delivered alone, the one template leaves a file where the other leaves a directory. -/
def Clash (c : Compiler) (source output : Text) (fs : FileSystem) (trail trail' : Location) :
    Prop :=
  ∃ l bytes, FileSystem.entry? (c.deliverFile source output trail fs).2 l = some (.file bytes) ∧
    FileSystem.entry? (c.deliverFile source output trail' fs).2 l = some .directory

/-- No two templates clash. -/
def Apart (c : Compiler) (source output : Text) (fs : FileSystem) (trails : List Location) : Prop :=
  ∀ trail ∈ trails, ∀ trail' ∈ trails, ¬ c.Clash source output fs trail trail'

variable {c : Compiler} {source output : Text} {fs now now' : FileSystem}
variable {trail trail' dirs dirs' : Location} {base base' : Text} {trails : List Location}

/-- The file that a delivery leaves was there or is the output. -/
theorem Delivers.file_cases {result : Except FailedFile CompiledFile}
    (step : c.Delivers source output trail fs result now) {l : Location} {bytes : ByteArray}
    (file : now.entry? l = some (.file bytes)) : fs.entry? l = some (.file bytes) ∨
      (∃ text, fs.readText (Location.pathFrom source trail) = .ok text) ∧
        (fs.outputPlan output trail).result = .ok l := by
  cases step with
  | unread => exact Or.inl file
  | read text read _ saved =>
    by_cases listed : l ∈ (fs.outputPlan output trail).passed
    · cases (saved.made l listed).symm.trans file
    · by_cases planned : (fs.outputPlan output trail).result = .ok l
      · exact Or.inr ⟨⟨text, read⟩, planned⟩
      · exact Or.inl ((saved.kept l listed planned).symm.trans file)

/-- The directory that a delivery leaves was there or is on the way to the output. -/
theorem Delivers.directory_cases {result : Except FailedFile CompiledFile}
    (step : c.Delivers source output trail fs result now) {l : Location}
    (dir : now.entry? l = some .directory) : fs.entry? l = some .directory ∨
      (∃ text, fs.readText (Location.pathFrom source trail) = .ok text) ∧
        l ∈ (fs.outputPlan output trail).passed := by
  cases step with
  | unread => exact Or.inl dir
  | read text read _ saved =>
    by_cases listed : l ∈ (fs.outputPlan output trail).passed
    · exact Or.inr ⟨⟨text, read⟩, listed⟩
    · by_cases planned : (fs.outputPlan output trail).result = .ok l
      · cases (saved.written l planned).symm.trans dir
      · exact Or.inl ((saved.kept l listed planned).symm.trans dir)

section Clash
variable (plain : fs.Plain) (template : IsTemplate dirs base trail)
variable (template' : IsTemplate dirs' base' trail')
include plain template template'

/-- Templates clash if one is to be written where the other makes a directory. -/
theorem clash_iff : c.Clash source output fs trail trail' ↔
    ∃ l, ((∃ text, fs.readText (Location.pathFrom source trail) = .ok text) ∧
        (fs.outputPlan output trail).result = .ok l) ∧
      (∃ text, fs.readText (Location.pathFrom source trail') = .ok text) ∧
        l ∈ (fs.outputPlan output trail').passed := by
  have step := c.delivers_deliverFile source output template plain
  have step' := c.delivers_deliverFile source output template' plain
  constructor
  · rintro ⟨l, bytes, file, dir⟩
    rcases step.file_cases file with file | written
    · have block := (step'.advances template' plain).grows.blocks l
        (FileSystem.blocks_of_file file)
      exact absurd dir (FileSystem.blocks_eq_true.mp block).2
    · rcases step'.directory_cases dir with dir | made
      · exact absurd dir (FileSystem.not_directory_of_outputPlan template written.2)
      · exact ⟨l, written, made⟩
  · rintro ⟨l, ⟨⟨text, read⟩, planned⟩, ⟨text', read'⟩, listed⟩
    exact ⟨l, c.bytes text, (step.saved_of_read read).written l planned,
      (step'.saved_of_read read').made l listed⟩

/-- Only a template beside a directory that has the name of its output can clash, and only with
a template in that directory. -/
theorem Clash.beside (clash : c.Clash source output fs trail trail') :
    ∃ (last : FileName) (rest : Location), last.text = base ++ '.' :: targetExtension ∧
      trail' = dirs ++ last :: rest := by
  obtain ⟨l, ⟨-, planned⟩, -, listed⟩ := (clash_iff plain template template').mp clash
  obtain ⟨last, text, -, rfl⟩ := FileSystem.outputPlan_eq_ok template planned
  refine ⟨last, ?_⟩
  rcases FileSystem.mem_passed_outputPlan template' listed with early | ⟨d, -, h, same⟩
  · exact absurd early (FileSystem.not_passed_of_outputPlan template planned)
  · rw [List.append_assoc] at same
    obtain ⟨rest, rfl⟩ := List.append_cancel_left same ▸ h
    obtain ⟨name, -, -⟩ := template'
    exact ⟨rest ++ [name], text, by simp⟩

end Clash

/-- Delivered at the start, the template would put something at the place or pass it. -/
def Touches (source output : Text) (fs : FileSystem) (trail l : Location) : Prop :=
  (∃ text, fs.readText (Location.pathFrom source trail) = .ok text) ∧
    (l ∈ (fs.outputPlan output trail).passed ∨ (fs.outputPlan output trail).result = .ok l)

/-- The state after these templates, in whatever order: what they planned at the start is done,
and nothing else. -/
structure Achieved (c : Compiler) (source output : Text) (fs : FileSystem) (done : List Location)
    (now : FileSystem) : Prop where
  advance : fs.Advances now
  made : ∀ trail ∈ done, ∀ text, fs.readText (Location.pathFrom source trail) = .ok text →
    ∀ l ∈ (fs.outputPlan output trail).passed, now.entry? l = some .directory
  written : ∀ trail ∈ done, ∀ text, fs.readText (Location.pathFrom source trail) = .ok text →
    ∀ l, (fs.outputPlan output trail).result = .ok l → now.entry? l = some (.file (c.bytes text))
  kept : ∀ l, (∀ trail ∈ done, ¬ Touches source output fs trail l) → now.entry? l = fs.entry? l

namespace Achieved
variable {done done' : List Location}

theorem start (plain : fs.Plain) : c.Achieved source output fs [] fs :=
  ⟨.refl plain, nofun, nofun, fun _ _ => rfl⟩

/-- The state does not depend on the order. -/
theorem unique (state : c.Achieved source output fs done now)
    (state' : c.Achieved source output fs done' now') (same : ∀ t, t ∈ done ↔ t ∈ done') :
    now = now' := by
  refine FileSystem.ext_entry? ?_ fun l => ?_
  · rw [state.advance.grows.home, state'.advance.grows.home]
  · by_cases touched : ∃ trail ∈ done, Touches source output fs trail l
    · obtain ⟨trail, listed, ⟨text, read⟩, passed | planned⟩ := touched
      · rw [state.made trail listed text read l passed,
          state'.made trail ((same trail).mp listed) text read l passed]
      · rw [state.written trail listed text read l planned,
          state'.written trail ((same trail).mp listed) text read l planned]
    · have free : ∀ trail ∈ done, ¬ Touches source output fs trail l :=
        fun trail listed h => touched ⟨trail, listed, h⟩
      rw [state.kept l free, state'.kept l fun trail listed => free trail ((same trail).mpr listed)]

section Step
variable (state : c.Achieved source output fs done now) (template : IsTemplate dirs base trail)
variable (named : ∀ t ∈ done, ∃ dirs base, IsTemplate dirs base t)
variable (plain : fs.Plain)
variable (apart : ∀ t ∈ done,
  ¬ c.Clash source output fs trail t ∧ ¬ c.Clash source output fs t trail)
include state template named plain apart

/-- A further template finds the plan that it would have found at the start: an earlier output on
its way, or a directory in place of its file, would be a clash. -/
theorem plansAgree (read : ∃ text, fs.readText (Location.pathFrom source trail) = .ok text) :
    fs.PlansAgree now output trail := by
  refine FileSystem.plansAgree_of_grows template state.advance.grows ?_ ?_
  · intro l passed
    by_cases touched : ∃ t ∈ done, Touches source output fs t l
    · obtain ⟨t, listed, ⟨text, read'⟩, passed' | planned⟩ := touched
      · exact FileSystem.blocks_eq_false.mpr (Or.inr (state.made t listed text read' l passed'))
      · obtain ⟨dirs', base', template'⟩ := named t listed
        refine absurd ?_ (apart t listed).2
        exact (clash_iff plain template' template).mpr ⟨l, ⟨⟨text, read'⟩, planned⟩, read, passed⟩
    · have same := state.kept l fun t listed h => touched ⟨t, listed, h⟩
      rw [FileSystem.blocks, same]
      exact FileSystem.free_of_mem_outputPlan template passed
  · intro l planned
    by_cases touched : ∃ t ∈ done, Touches source output fs t l
    · obtain ⟨t, listed, ⟨text, read'⟩, passed | planned'⟩ := touched
      · obtain ⟨dirs', base', template'⟩ := named t listed
        refine absurd ?_ (apart t listed).1
        exact (clash_iff plain template template').mpr ⟨l, ⟨read, planned⟩, ⟨text, read'⟩, passed⟩
      · intro dir
        cases (state.written t listed text read' l planned').symm.trans dir
    · rw [state.kept l fun t listed h => touched ⟨t, listed, h⟩]
      exact FileSystem.not_directory_of_outputPlan template planned

/-- The new template carries out its plan of the start, and the earlier ones keep what they have. -/
theorem step {after : FileSystem} {result : Except FailedFile CompiledFile}
    (new : trail ∉ done) (step : c.Delivers source output trail now result after)
    (same : now.readText (Location.pathFrom source trail) =
      fs.readText (Location.pathFrom source trail)) :
    c.Achieved source output fs (trail :: done) after := by
  have further := step.advances template state.advance.plain
  have stays : ∀ t ∈ done, ∀ l, (fs.outputPlan output t).result = .ok l →
      (now.outputPlan output trail).result ≠ .ok l := by
    intro t listed l planned planned'
    obtain ⟨dirs', base', template'⟩ := named t listed
    have equal := FileSystem.trail_of_outputPlan state.advance.grows.home template' template
      planned planned'
    exact new (equal ▸ listed)
  refine ⟨state.advance.trans further, ?_, ?_, ?_⟩
  · intro t listed text read l passed
    rcases List.mem_cons.mp listed with rfl | listed
    · have agree := state.plansAgree template named plain apart ⟨text, read⟩
      exact (step.saved_of_read (same.trans read)).made l (agree.passed ▸ passed)
    · exact further.grows.directory l (state.made t listed text read l passed)
  · intro t listed text read l planned
    rcases List.mem_cons.mp listed with rfl | listed
    · have agree := state.plansAgree template named plain apart ⟨text, read⟩
      exact (step.saved_of_read (same.trans read)).written l (agree.result_ok_iff.mpr planned)
    · exact step.entry?_of_file template (stays t listed l planned)
        (state.written t listed text read l planned)
  · intro l free
    have before := state.kept l fun t listed => free t (List.mem_cons_of_mem trail listed)
    rw [← before]
    cases step with
    | unread => rfl
    | read text read _ saved =>
      rw [same] at read
      have agree := state.plansAgree template named plain apart ⟨text, read⟩
      have untouched := free trail List.mem_cons_self
      refine saved.kept l ?_ ?_
      · intro passed
        exact untouched ⟨⟨text, read⟩, Or.inl (agree.passed ▸ passed)⟩
      · intro planned
        exact untouched ⟨⟨text, read⟩, Or.inr (agree.result_ok_iff.mp planned)⟩

end Step
end Achieved

/-- The outcome is the one that the template has alone at the start, or sharpens it. -/
def AsAlone (c : Compiler) (source output : Text) (fs : FileSystem) (trail : Location)
    (result : Except FailedFile CompiledFile) : Prop :=
  OutcomesRelated FailedFile.Sharpens (c.deliverFile source output trail fs).1 result ∧
    (fs.Anchored output → result = (c.deliverFile source output trail fs).1)

/-- A run in any order achieves all plans: each template moves from what is left to what is done. -/
theorem achieved_deliverFiles (work : fs.Worklist source trails)
    (apart : c.Apart source output fs trails) {order done : List Location}
    (within : ∀ t ∈ done ++ order, t ∈ trails) (once : (done ++ order).Nodup)
    (state : c.Achieved source output fs done now) :
    c.Achieved source output fs (order.reverse ++ done)
        (c.deliverFiles source output order now).2 ∧
      List.Forall₂ (c.AsAlone source output fs) order
        (c.deliverFiles source output order now).1 := by
  induction order generalizing done now with
  | nil => exact ⟨state, .nil⟩
  | cons trail order ih =>
    have listed : trail ∈ trails := within trail (by simp)
    have earlier : ∀ t ∈ done, t ∈ trails := fun t h => within t (by simp [h])
    obtain ⟨dirs, base, template⟩ := work.named trail listed
    have same := work.readText state.advance listed
    have clear : ∀ t ∈ done, ¬ c.Clash source output fs trail t ∧
        ¬ c.Clash source output fs t trail := fun t h =>
      ⟨apart trail listed t (earlier t h), apart t (earlier t h) trail listed⟩
    have named : ∀ t ∈ done, ∃ dirs base, IsTemplate dirs base t := fun t h =>
      work.named t (earlier t h)
    have step := c.delivers_deliverFile source output template state.advance.plain
    have moved : (done ++ trail :: order).Perm (trail :: done ++ order) := List.perm_middle
    have new : trail ∉ done := fun h =>
      (List.nodup_cons.mp (moved.nodup_iff.mp once)).1 (List.mem_append_left order h)
    have next := state.step template named work.plain clear new step same
    obtain ⟨final, outcomes⟩ := ih (fun t h => within t (moved.mem_iff.mpr h))
      (moved.nodup_iff.mp once) next
    rw [deliverFiles_cons, List.reverse_cons, List.append_assoc, List.singleton_append]
    refine ⟨final, .cons ?_ outcomes⟩
    exact (c.delivers_deliverFile source output template work.plain).related step same
      fun text read => state.plansAgree template named work.plain clear ⟨text, read⟩

/-- An order of templates that are apart leads to one state, and each outcome is as alone. -/
theorem achieved_of_perm (work : fs.Worklist source trails)
    (apart : c.Apart source output fs trails) {order : List Location} (perm : order.Perm trails) :
    c.Achieved source output fs order.reverse (c.deliverFiles source output order fs).2 ∧
      List.Forall₂ (c.AsAlone source output fs) order
        (c.deliverFiles source output order fs).1 := by
  have once : ([] ++ order).Nodup := perm.nodup_iff.mpr work.nodup
  have run := achieved_deliverFiles work apart (fun t h => perm.mem_iff.mp h) once
    (Achieved.start work.plain)
  rwa [List.append_nil] at run

theorem length_deliverFiles (c : Compiler) (source output : Text) (trails : List Location)
    (fs : FileSystem) : (c.deliverFiles source output trails fs).1.length = trails.length := by
  induction trails generalizing fs with
  | nil => rfl
  | cons trail trails ih => rw [deliverFiles_cons, List.length_cons, ih, List.length_cons]

end Compiler

section Lookup
variable {outcomes : List (Except FailedFile CompiledFile)} {order : List Location}
variable {P : Location → Except FailedFile CompiledFile → Prop}

theorem outcomeOf?_cons (first : Location) (order : List Location)
    (result : Except FailedFile CompiledFile)
    (outcomes : List (Except FailedFile CompiledFile)) (trail : Location) :
    outcomeOf? (first :: order) (result :: outcomes) trail =
      if first = trail then some result else outcomeOf? order outcomes trail := by
  rw [outcomeOf?, List.zip_cons_cons, List.find?_cons]
  by_cases same : first = trail
  · simp [same]
  · simp [same, outcomeOf?]

theorem exists_outcomeOf? (h : List.Forall₂ P order outcomes) {trail : Location}
    (listed : trail ∈ order) :
    ∃ result, outcomeOf? order outcomes trail = some result ∧ P trail result := by
  induction h with
  | nil => cases listed
  | @cons first result order outcomes right _ ih =>
    rw [outcomeOf?_cons]
    by_cases same : first = trail
    · subst same
      exact ⟨result, if_pos rfl, right⟩
    · obtain ⟨result', found, right'⟩ := ih ((List.mem_cons.mp listed).resolve_left (Ne.symm same))
      exact ⟨result', by rw [if_neg same, found], right'⟩

theorem forall₂_outcomeOf? (h : List.Forall₂ P order outcomes) {trails : List Location}
    (listed : ∀ trail ∈ trails, trail ∈ order) :
    List.Forall₂ P trails (trails.filterMap (outcomeOf? order outcomes)) := by
  induction trails with
  | nil => exact .nil
  | cons trail trails ih =>
    obtain ⟨result, found, right⟩ := exists_outcomeOf? h (listed trail List.mem_cons_self)
    rw [List.filterMap_cons_some found]
    exact .cons right (ih fun t later => listed t (List.mem_cons_of_mem trail later))

/-- In the order of the run, the outcomes are those of the run. -/
theorem filterMap_outcomeOf? (once : order.Nodup) (length : outcomes.length = order.length) :
    order.filterMap (outcomeOf? order outcomes) = outcomes := by
  induction order generalizing outcomes with
  | nil => exact (List.length_eq_zero_iff.mp length).symm
  | cons first order ih =>
    cases outcomes with
    | nil => cases length
    | cons result outcomes =>
      obtain ⟨new, once⟩ := List.nodup_cons.mp once
      have head : outcomeOf? (first :: order) (result :: outcomes) first = some result := by
        rw [outcomeOf?_cons, if_pos rfl]
      have later : order.filterMap (outcomeOf? (first :: order) (result :: outcomes)) =
          order.filterMap (outcomeOf? order outcomes) := by
        refine List.filterMap_congr fun trail listed => ?_
        have other : first ≠ trail := fun same => new (same ▸ listed)
        rw [outcomeOf?_cons, if_neg other]
      rw [List.filterMap_cons_some head, later, ih once (Nat.succ.inj length)]

end Lookup

/-- Either failure sharpens the other. -/
def FailedFile.Alike (failure failure' : FailedFile) : Prop :=
  Sharpens failure failure' ∨ Sharpens failure' failure

theorem StoreError.path_of_message {path path' : Text} {cause : Cause}
    (h : (StoreError.write path cause).message = (StoreError.write path' cause).message) :
    path = path' := by
  change "failed to write ".toList ++ path ++ ": ".toList ++ cause.message =
    "failed to write ".toList ++ path' ++ ": ".toList ++ cause.message at h
  exact List.append_cancel_left (List.append_cancel_right (List.append_cancel_right h))

/-- Two failures that sharpen one message have the same path in theirs. -/
theorem FailedFile.alike_of_sharpens {first failure failure' : FailedFile}
    (h : Sharpens first failure) (h' : Sharpens first failure') : Alike failure failure' := by
  cases h with
  | same => exact Or.inl h'
  | through source path =>
    generalize same : FailedFile.mk source (StoreError.write path .alreadyExists).message = g at h'
    cases h' with
    | same =>
      subst same
      exact Or.inr (.through source path)
    | through source' path' =>
      obtain ⟨rfl, message⟩ := FailedFile.mk.inj same
      obtain rfl := StoreError.path_of_message message
      exact Or.inl (.same _)

namespace Compiler
variable {c : Compiler} {source output : Text} {fs : FileSystem} {trails : List Location}
variable {outcomes outcomes' : List (Except FailedFile CompiledFile)}

theorem alike_of_asAlone (h : List.Forall₂ (c.AsAlone source output fs) trails outcomes)
    (h' : List.Forall₂ (c.AsAlone source output fs) trails outcomes') :
    List.Forall₂ (OutcomesRelated FailedFile.Alike) outcomes outcomes' := by
  induction h generalizing outcomes' with
  | nil =>
    cases h'
    exact .nil
  | cons first _ ih =>
    cases h' with
    | cons first' later' =>
      refine .cons ?_ (ih later')
      obtain ⟨related, -⟩ := first
      obtain ⟨related', -⟩ := first'
      generalize Prod.fst (c.deliverFile source output _ fs) = alone at related related'
      cases related with
      | ok file =>
        cases related'
        exact .ok file
      | error sharpens =>
        cases related' with
        | error sharpens' => exact .error (FailedFile.alike_of_sharpens sharpens sharpens')

theorem outcomes_of_anchored (anchored : fs.Anchored output)
    (h : List.Forall₂ (c.AsAlone source output fs) trails outcomes) :
    outcomes = trails.map fun trail => (c.deliverFile source output trail fs).1 := by
  induction h with
  | nil => rfl
  | cons first _ ih => rw [List.map_cons, first.2 anchored, ih]

/-- Delivery is the run in the order of the templates. -/
theorem deliverInOrder_templates (c : Compiler) (source output : Text) (fs : FileSystem) :
    c.deliverInOrder source output (fs.templates source) fs = c.deliver source output fs := by
  rw [deliverInOrder, deliver]
  split
  · simp only [filterMap_outcomeOf? (fs.nodup_templates source)
      (c.length_deliverFiles source output (fs.templates source) fs)]
  · rfl

theorem deliverInOrder_of_perm (plain : fs.Plain)
    (apart : c.Apart source output fs (fs.templates source)) {order order' : List Location}
    (perm : order.Perm (fs.templates source)) (perm' : order'.Perm (fs.templates source)) :
    (c.deliverInOrder source output order fs).2 = (c.deliverInOrder source output order' fs).2 ∧
      ResultsRelated FailedFile.Alike (c.deliverInOrder source output order fs).1
        (c.deliverInOrder source output order' fs).1 ∧
      (fs.Anchored output → c.deliverInOrder source output order fs =
        c.deliverInOrder source output order' fs) := by
  rw [deliverInOrder, deliverInOrder]
  split
  · next dir =>
    have work := FileSystem.worklist_templates plain dir
    obtain ⟨state, outcomes⟩ := achieved_of_perm work apart perm
    obtain ⟨state', outcomes'⟩ := achieved_of_perm work apart perm'
    have members : ∀ t, t ∈ order.reverse ↔ t ∈ order'.reverse := by
      intro t
      rw [List.mem_reverse, List.mem_reverse, perm.mem_iff, perm'.mem_iff]
    have final := state.unique state' members
    have listed := forall₂_outcomeOf? outcomes fun t h => perm.mem_iff.mpr h
    have listed' := forall₂_outcomeOf? outcomes' fun t h => perm'.mem_iff.mpr h
    refine ⟨final, resultsRelated_ofOutcomes (alike_of_asAlone listed listed'), ?_⟩
    intro anchored
    simp only [outcomes_of_anchored anchored listed, outcomes_of_anchored anchored listed', final]
  · exact ⟨rfl, .error _, fun _ => rfl⟩

/-- Of two templates that clash, the one that comes first wins. -/
theorem Clash.orders_differ (plain : fs.Plain) (dir : fs.isDirectory source = true)
    {trail trail' : Location} (listed : trail ∈ fs.templates source)
    (listed' : trail' ∈ fs.templates source) (clash : c.Clash source output fs trail trail') :
    (c.deliverInOrder source output (trail :: (fs.templates source).erase trail) fs).2 ≠
      (c.deliverInOrder source output (trail' :: (fs.templates source).erase trail') fs).2 := by
  have work := FileSystem.worklist_templates plain dir
  have later : ∀ t ∈ fs.templates source,
      FileSystem.Grows (c.deliverFile source output t fs).2
        (c.deliverInOrder source output (t :: (fs.templates source).erase t) fs).2 := by
    intro t listed
    have perm := List.perm_cons_erase listed
    obtain ⟨result, fs', done, -, -, rest⟩ := delivers_head (work.perm perm) c output
    rw [deliverInOrder, if_pos dir, deliverFiles_cons, done]
    exact (advances_deliverFiles rest c output).grows
  obtain ⟨l, bytes, file, directory⟩ := clash
  have block := (later trail listed).blocks l (FileSystem.blocks_of_file file)
  have there := (later trail' listed').directory l directory
  intro same
  rw [same] at block
  exact (FileSystem.blocks_eq_true.mp block).2 there

/-- Templates are apart if no directory on the way to one has the name of an output. -/
theorem apart_of_names (plain : fs.Plain) (dir : fs.isDirectory source = true)
    (names : ∀ trail ∈ fs.templates source, ∀ name ∈ trail,
      ¬ ('.' :: targetExtension) <:+ name.text) (c : Compiler) (output : Text) :
    c.Apart source output fs (fs.templates source) := by
  intro trail listed trail' listed' clash
  obtain ⟨dirs, base, template⟩ := FileSystem.exists_isTemplate dir listed
  obtain ⟨dirs', base', template'⟩ := FileSystem.exists_isTemplate dir listed'
  obtain ⟨last, rest, text, same⟩ := clash.beside plain template template'
  apply names trail' listed' last
  · simp [same]
  · rw [text]
    exact List.suffix_append base _

end Compiler

/-- Unless two templates clash, every order leads to the same file system, and to the same report
up to failures that are alike; the report is exactly the same if the output path is anchored. If
two templates clash, the order decides what the file system is at the end; the one of them then
stands beside a directory with the name of its output, and the other in that directory. -/
theorem delivery_order (c : Compiler) (source output : Text) {fs : FileSystem}
    (plain : fs.Plain) :
    (c.Apart source output fs (fs.templates source) →
      ∀ order : List Location, order.Perm (fs.templates source) →
        (c.deliverInOrder source output order fs).2 = (c.deliver source output fs).2 ∧
        ResultsRelated FailedFile.Alike (c.deliverInOrder source output order fs).1
          (c.deliver source output fs).1 ∧
        (fs.Anchored output →
          c.deliverInOrder source output order fs = c.deliver source output fs)) ∧
    (fs.isDirectory source = true → ∀ trail ∈ fs.templates source,
      ∀ trail' ∈ fs.templates source, c.Clash source output fs trail trail' →
        (∃ order : List Location, order.Perm (fs.templates source) ∧
          (c.deliverInOrder source output order fs).2 ≠ (c.deliver source output fs).2) ∧
        ∃ (dirs : Location) (base : Text) (last : FileName) (rest : Location),
          IsTemplate dirs base trail ∧ last.text = base ++ '.' :: targetExtension ∧
          trail' = dirs ++ last :: rest) := by
  constructor
  · intro apart order perm
    rw [← c.deliverInOrder_templates]
    exact Compiler.deliverInOrder_of_perm plain apart perm (List.Perm.refl _)
  · intro dir trail listed trail' listed' clash
    constructor
    · have differ := clash.orders_differ plain dir listed listed'
      by_cases same : (c.deliverInOrder source output
          (trail :: (fs.templates source).erase trail) fs).2 = (c.deliver source output fs).2
      · exact ⟨_, (List.perm_cons_erase listed').symm, fun h => differ (same.trans h.symm)⟩
      · exact ⟨_, (List.perm_cons_erase listed).symm, same⟩
    · obtain ⟨dirs, base, template⟩ := FileSystem.exists_isTemplate dir listed
      obtain ⟨dirs', base', template'⟩ := FileSystem.exists_isTemplate dir listed'
      obtain ⟨last, rest, text, same⟩ := clash.beside plain template template'
      exact ⟨dirs, base, last, rest, template, text, same⟩

/-- Templates at two levels, and one whose output is a directory already. -/
def nestedTree : FileSystem := .planted [
  ("s".toList, none), ("s/a.tpl".toList, some (Text.toUtf8 "A".toList)),
  ("s/c.php".toList, none), ("s/c.tpl".toList, some (Text.toUtf8 "C".toList)),
  ("s/d".toList, none), ("s/d/b.tpl".toList, some (Text.toUtf8 "B".toList))]

/-- A template beside a directory with the name of its output, which holds another one. -/
def clashingTree : FileSystem := .planted [
  ("s".toList, none), ("s/a.tpl".toList, some (Text.toUtf8 "A".toList)),
  ("s/a.php".toList, none), ("s/a.php/b.tpl".toList, some (Text.toUtf8 "B".toList))]

/-- Two templates, and a file that is to stand in their way. -/
def blockedTree : FileSystem := .planted [
  ("s".toList, none), ("s/a.tpl".toList, some (Text.toUtf8 "A".toList)),
  ("s/b.tpl".toList, some (Text.toUtf8 "B".toList)), ("f".toList, some (Text.toUtf8 "F".toList))]

/-- A tree delivered into itself in the reverse order, and one where two templates clash. -/
theorem delivery_order_reverse :
    (nestedTree.Plain ∧
      (Compiler.ofShared .empty).Apart "s".toList "s".toList nestedTree
        (nestedTree.templates "s".toList) ∧
      (nestedTree.templates "s".toList).length = 3 ∧ nestedTree.Anchored "s".toList ∧
      (Compiler.ofShared .empty).deliverInOrder "s".toList "s".toList
          (nestedTree.templates "s".toList).reverse nestedTree =
        (Compiler.ofShared .empty).deliver "s".toList "s".toList nestedTree) ∧
    (clashingTree.Plain ∧ (Compiler.ofShared .empty).Clash "s".toList "o".toList clashingTree
        [⟨"a.tpl".toList, by decide⟩] [⟨"a.php".toList, by decide⟩, ⟨"b.tpl".toList, by decide⟩] ∧
      ∃ order : List Location, order.Perm (clashingTree.templates "s".toList) ∧
        ((Compiler.ofShared .empty).deliverInOrder "s".toList "o".toList order clashingTree).2 ≠
          ((Compiler.ofShared .empty).deliver "s".toList "o".toList clashingTree).2) := by
  have plain : nestedTree.Plain := FileSystem.plain_planted _
  have apart := Compiler.apart_of_names plain (show nestedTree.isDirectory "s".toList = true by
    decide +kernel) (by decide +kernel) (Compiler.ofShared .empty) "s".toList
  have anchored : nestedTree.Anchored "s".toList :=
    FileSystem.anchored_of_no_up (by decide +kernel) nestedTree
  have plain' : clashingTree.Plain := FileSystem.plain_planted _
  have beside : IsTemplate [] "a".toList [⟨"a.tpl".toList, by decide⟩] :=
    .intro _ (by decide) (by decide)
  have inside : IsTemplate [⟨"a.php".toList, by decide⟩] "b".toList
      [⟨"a.php".toList, by decide⟩, ⟨"b.tpl".toList, by decide⟩] :=
    .intro ⟨"b.tpl".toList, by decide⟩ (by decide) (by decide)
  have clash : (Compiler.ofShared .empty).Clash "s".toList "o".toList clashingTree
      [⟨"a.tpl".toList, by decide⟩] [⟨"a.php".toList, by decide⟩, ⟨"b.tpl".toList, by decide⟩] := by
    refine (Compiler.clash_iff plain' beside inside).mpr
      ⟨[FileSystem.homeName, ⟨"o".toList, by decide⟩, ⟨"a.php".toList, by decide⟩],
        ⟨⟨"A".toList, ?_⟩, ?_⟩, ⟨"B".toList, ?_⟩, ?_⟩
    all_goals decide +kernel
  obtain ⟨same, -⟩ := delivery_order (Compiler.ofShared .empty) "s".toList "s".toList plain
  obtain ⟨-, differ⟩ := delivery_order (Compiler.ofShared .empty) "s".toList "o".toList plain'
  obtain ⟨-, -, equal⟩ := same apart _ (List.reverse_perm _)
  exact ⟨⟨plain, apart, by decide +kernel, anchored, equal anchored⟩, plain', clash,
    (differ (by decide +kernel) _ (by decide +kernel) _ (by decide +kernel) clash).1⟩

/-- The order decides which of two clashing templates is delivered. It also decides which of two
templates makes the missing directory that the output path leads up from, and so for which of
them the file in the way is said to exist. -/
theorem order_decides_report :
    (clashingTree.Plain ∧
      ((Compiler.ofShared .empty).deliver "s".toList "o".toList clashingTree).1 =
        .ok ⟨[⟨"s/a.php/b.tpl".toList, "o/a.php/b.php".toList, 0, ∅⟩], [⟨"s/a.tpl".toList,
          "failed to write o/a.php: Is a directory (os error 21)".toList⟩]⟩ ∧
      ((Compiler.ofShared .empty).deliverInOrder "s".toList "o".toList
        (clashingTree.templates "s".toList).reverse clashingTree).1 =
        .ok ⟨[⟨"s/a.tpl".toList, "o/a.php".toList, 0, ∅⟩], [⟨"s/a.php/b.tpl".toList,
          "failed to write o/a.php/b.php: File exists (os error 17)".toList⟩]⟩) ∧
    (blockedTree.Plain ∧
      ((Compiler.ofShared .empty).deliver "s".toList "x/../f/y".toList blockedTree).1 =
        .ok ⟨[], [
          ⟨"s/a.tpl".toList, "failed to write x/../f/y/a.php: File exists (os error 17)".toList⟩,
          ⟨"s/b.tpl".toList,
            "failed to write x/../f/y/b.php: Not a directory (os error 20)".toList⟩]⟩ ∧
      ((Compiler.ofShared .empty).deliverInOrder "s".toList "x/../f/y".toList
        (blockedTree.templates "s".toList).reverse blockedTree).1 =
        .ok ⟨[], [
          ⟨"s/a.tpl".toList,
            "failed to write x/../f/y/a.php: Not a directory (os error 20)".toList⟩,
          ⟨"s/b.tpl".toList,
            "failed to write x/../f/y/b.php: File exists (os error 17)".toList⟩]⟩) := by
  refine ⟨⟨FileSystem.plain_planted _, ?_, ?_⟩, FileSystem.plain_planted _, ?_, ?_⟩
  · decide +kernel
  · decide +kernel
  · decide +kernel
  · decide +kernel

end BraceTemplate
