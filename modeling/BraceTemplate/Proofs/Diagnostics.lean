import BraceTemplate.Proofs.Rendering

/-!
# What the diagnostics count

Skipped directives are counted by the readers alone, whatever the configuration. The
tally of unresolved names is the count of the slots in all references: each stands for
the name written in it, or for the default if there is one, and only names that are not
registered are kept.
-/
namespace BraceTemplate

/-- There is something between the braces and no reader accepts it. -/
def Directive.isRefused (body : Text) : Bool :=
  !body.isEmpty && readers.all fun read => (read body).isNone

/-- The modifier slots of all references, empty ones included. -/
def Template.slots (t : Template) : List Slot :=
  (t.directives.filterMap Spelling.ofText?).flatMap Spelling.slots

namespace Compiler
variable {c : Compiler}

/-- The name that a slot stands for: an empty one stands for the default. -/
def slotName? (c : Compiler) (slot : Slot) : Option Text :=
  if slot.name.isEmpty then c.defaultSlot.map (·.drop 1) else some slot.name

theorem render_eq_skipped_iff_isRefused (named : c.DefaultNamed) (body : Text) :
    c.render body = .skipped ↔ Directive.isRefused body = true := by
  rw [render_eq_skipped_iff named]
  simp [Directive.isRefused]

/-- The chain that is applied has the names that the slots stand for; without a default the empty
ones stand for nothing and are left out of it. -/
theorem map_name_chain (named : c.DefaultNamed) (s : Spelling) :
    (c.fillSpelling s).reference.chain.map Slot.name = s.slots.filterMap c.slotName? := by
  cases h : c.defaultSlot with
  | none =>
    rw [fillSpelling_of_none h, Spelling.reference]
    induction s.slots with
    | nil => rfl
    | cons slot slots ih =>
      by_cases empty : slot.name = []
      · simpa [slotName?, empty, h] using ih
      · simpa [slotName?, empty] using ih
  | some filler =>
    obtain ⟨name, hname, rfl⟩ := named filler h
    have nonempty : name ≠ [] := (isName_iff.mp hname).1
    rw [fillSpelling_of_some h, Spelling.reference, Spelling.fill]
    induction s.slots with
    | nil => rfl
    | cons slot slots ih =>
      by_cases empty : slot.name = []
      · simpa [slotName?, Slot.fill, empty, h, nonempty] using ih
      · simpa [slotName?, Slot.fill, empty] using ih

theorem missing_render (named : c.DefaultNamed) (body : Text) :
    (c.render body).missing = (((Spelling.ofText? body).toList.flatMap Spelling.slots).filterMap
      c.slotName?).filter fun name => (c.registry.find? name).isNone := by
  cases h : Spelling.ofText? body with
  | none =>
    obtain ⟨r, same, missing, -⟩ := render_of_not_reference h
    rw [same c, missing]
    rfl
  | some s =>
    obtain ⟨ok, rfl⟩ := Spelling.ofText?_eq_some.mp h
    rw [render_text named ok, renderReference, Rendering.missing, Reference.applied,
      Registry.missing_applyChain, map_name_chain named]
    simp

theorem skipped_compileText (named : c.DefaultNamed) (s : Text) :
    (c.compileText s).skipped = (Template.parse s).directives.countP Directive.isRefused := by
  rw [compileText, skipped_compile]
  apply List.countP_congr
  intro body _
  simp [render_eq_skipped_iff_isRefused named body]

theorem unresolved_compileText (named : c.DefaultNamed) (s : Text) :
    (c.compileText s).unresolved = Tally.ofNames (((Template.parse s).slots.filterMap
      c.slotName?).filter fun name => (c.registry.find? name).isNone) := by
  rw [compileText, unresolved_compile, Template.slots]
  congr 1
  induction (Template.parse s).directives with
  | nil => rfl
  | cons body rest ih =>
    rw [List.flatMap_cons, ih, missing_render named, List.filterMap_cons]
    cases Spelling.ofText? body with
    | none => rfl
    | some spelling => simp

theorem getElem?_unresolved_compileText (named : c.DefaultNamed) (s name : Text) (n : Nat) :
    (c.compileText s).unresolved[name]? = some n ↔ 0 < n ∧ c.registry.find? name = none ∧
      n = ((Template.parse s).slots.filterMap c.slotName?).count name := by
  rw [unresolved_compileText named, Tally.getElem?_ofNames_eq_some_iff]
  by_cases unknown : c.registry.find? name = none
  · rw [List.count_filter (by simp [unknown])]
    simp [unknown]
  · have dropped : (((Template.parse s).slots.filterMap c.slotName?).filter
        fun name => (c.registry.find? name).isNone).count name = 0 := by
      rw [List.count_eq_zero]
      simp [unknown]
    simp only [dropped, unknown, false_and, and_false, iff_false]
    omega

theorem isClean_compileText_iff (named : c.DefaultNamed) (s : Text) :
    (c.compileText s).isClean = true ↔
      (c.compileText s).skipped = 0 ∧ (c.compileText s).unresolved.total = 0 := by
  rw [unresolved_compileText named, Tally.total_ofNames_eq_zero_iff,
    ← Tally.isEmpty_ofNames_iff, ← unresolved_compileText named]
  simp [Output.isClean]

end Compiler

/-- The counters say how many directives no reader accepts, and for each name that is not
registered how many slots stand for it; a clean output has both at zero. -/
theorem diagnostics_exact {c : Compiler} (reached : c.Reachable) (s : Text) :
    (c.compileText s).skipped = (Template.parse s).directives.countP Directive.isRefused ∧
    (∀ c' : Compiler, c'.Reachable → (c'.compileText s).skipped = (c.compileText s).skipped) ∧
    (∀ (name : Text) (n : Nat), (c.compileText s).unresolved[name]? = some n ↔
      0 < n ∧ c.registry.find? name = none ∧
        n = ((Template.parse s).slots.filterMap c.slotName?).count name) ∧
    ((c.compileText s).isClean = true ↔
      (c.compileText s).skipped = 0 ∧ (c.compileText s).unresolved.total = 0) := by
  have named := reached.defaultNamed
  refine ⟨Compiler.skipped_compileText named s, ?_, ?_, Compiler.isClean_compileText_iff named s⟩
  · intro c' reached'
    rw [Compiler.skipped_compileText reached'.defaultNamed, Compiler.skipped_compileText named]
  · intro name n
    exact Compiler.getElem?_unresolved_compileText named s name n

/-- One directive that cannot be read, and two slots that stand for the default: one is empty
and one names it. -/
theorem diagnostics_exact_default :
    ((Compiler.ofShared .empty).perform (.setDefault "h".toList)).Reachable ∧
    (((Compiler.ofShared .empty).perform (.setDefault "h".toList)).compileText
      "\x7b$a|\x7d\x7b?\x7d\x7b$b|x|h\x7d".toList).skipped = 1 ∧
    (((Compiler.ofShared .empty).perform (.setDefault "h".toList)).compileText
      "\x7b$a|\x7d\x7b?\x7d\x7b$b|x|h\x7d".toList).unresolved["h".toList]? = some 2 := by
  have reached : ((Compiler.ofShared .empty).perform (.setDefault "h".toList)).Reachable :=
    (Compiler.Reachable.ofShared .empty).perform trivial
  obtain ⟨skips, -, misses, -⟩ :=
    diagnostics_exact reached "\x7b$a|\x7d\x7b?\x7d\x7b$b|x|h\x7d".toList
  refine ⟨reached, skips.trans (by decide +kernel), ?_⟩
  exact (misses _ _).mpr ⟨by decide, rfl, by decide +kernel⟩

end BraceTemplate
