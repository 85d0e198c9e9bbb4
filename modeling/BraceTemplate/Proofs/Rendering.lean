import BraceTemplate.Proofs.Classification
import BraceTemplate.Proofs.Compiling
import BraceTemplate.Proofs.Configuration

/-!
# Rendering one directive

Only references look at the configuration. A default that is a name turns the text of a
reference into the text of a reference, so filling never loses a directive: what is
skipped is what no reader accepts.
-/
namespace BraceTemplate

theorem Registry.missing_applyChain (r : Registry) (expression : Text) (chain : List Slot) :
    (r.applyChain expression chain).missing =
      (chain.map Slot.name).filter fun name => (r.find? name).isNone := by
  induction chain generalizing expression with
  | nil => rfl
  | cons slot rest ih =>
    rw [applyChain]
    cases h : r.find? slot.name with
    | none => simp [h, ih]
    | some m => simp [h, ih]

namespace Compiler
variable {c : Compiler}

/-- The spelling with the default modifier in its empty slots. -/
def fillSpelling (c : Compiler) (s : Spelling) : Spelling :=
  match c.defaultSlot with
  | none => s
  | some slot => s.fill (slot.drop 1)

theorem fillSpelling_of_none (h : c.defaultSlot = none) (s : Spelling) :
    c.fillSpelling s = s := by
  rw [fillSpelling, h]

theorem fillSpelling_of_some {name : Text} (h : c.defaultSlot = some ('|' :: name))
    (s : Spelling) : c.fillSpelling s = s.fill name := by
  rw [fillSpelling, h]
  rfl

theorem wellFormed_fillSpelling (named : c.DefaultNamed) {s : Spelling} (ok : s.WellFormed) :
    (c.fillSpelling s).WellFormed := by
  cases h : c.defaultSlot with
  | none => rwa [fillSpelling_of_none h]
  | some slot =>
    obtain ⟨name, hname, rfl⟩ := named slot h
    rw [fillSpelling_of_some h]
    exact ok.fill hname

theorem filledBody_text (named : c.DefaultNamed) {s : Spelling} (ok : s.WellFormed) :
    c.filledBody s.text = (c.fillSpelling s).text := by
  rw [filledBody]
  cases h : c.defaultSlot with
  | none => rw [fillSpelling_of_none h]; rfl
  | some slot =>
    obtain ⟨name, -, rfl⟩ := named slot h
    rw [fillSpelling_of_some h, ← Spelling.fillSlots_text ok, Option.bind_some,
      Text.getD_fillSlots?]

/-- What the default makes of a reference is a reference. -/
theorem ofText?_filledBody (named : c.DefaultNamed) {s : Spelling} (ok : s.WellFormed) :
    Reference.ofText? (c.filledBody s.text) = some (c.fillSpelling s).reference := by
  rw [filledBody_text named ok, Reference.ofText?,
    Spelling.ofText?_text (wellFormed_fillSpelling named ok)]
  rfl

theorem render_text (named : c.DefaultNamed) {s : Spelling} (ok : s.WellFormed) :
    c.render s.text =
      c.renderReference (c.fillSpelling s).text (c.fillSpelling s).reference := by
  have readBack := ofText?_filledBody named ok
  rw [filledBody_text named ok] at readBack
  simp [render, s.isEmpty_text, Spelling.ofBody_text ok, filledBody_text named ok, readBack]

/-- A directive that is no reference is rendered the same by every compiler, and uses no
modifier. -/
theorem render_of_not_reference {body : Text} (h : Spelling.ofText? body = none) :
    ∃ r : Rendering, (∀ c : Compiler, c.render body = r) ∧ r.missing = [] ∧
      (r = .skipped ↔ body ≠ [] ∧ Directive.ofBody body = .unrecognized) := by
  by_cases empty : body = []
  · exact ⟨.rendered [] [], fun c => by simp [render, empty], rfl, by simp [empty]⟩
  have nonempty : body.isEmpty = false := by simpa using empty
  cases found : Directive.ofBody body with
  | reference target => exact absurd found (Directive.ofBody_ne_reference h target)
  | comment => exact ⟨.rendered [] [], fun c => by simp [render, nonempty, found], rfl, by simp⟩
  | verbatim raw =>
    exact ⟨.rendered raw [], fun c => by simp [render, nonempty, found], rfl, by simp⟩
  | fixed word =>
    exact ⟨.rendered word.output [], fun c => by simp [render, nonempty, found], rfl, by simp⟩
  | block opener operand =>
    exact ⟨.rendered (opener.statement operand) [],
      fun c => by simp [render, nonempty, found], rfl, by simp⟩
  | unrecognized =>
    exact ⟨.skipped, fun c => by simp [render, nonempty, found], rfl, by simp [empty]⟩

theorem render_eq_skipped_iff (named : c.DefaultNamed) {body : Text} :
    c.render body = .skipped ↔ body ≠ [] ∧ ∀ read ∈ Directive.readers, read body = none := by
  rw [← Directive.ofBody_eq_unrecognized_iff]
  cases h : Spelling.ofText? body with
  | some s =>
    obtain ⟨ok, rfl⟩ := Spelling.ofText?_eq_some.mp h
    simp [render_text named ok, renderReference, Spelling.ofBody_text ok]
  | none =>
    obtain ⟨r, same, -, skips⟩ := render_of_not_reference h
    rw [same c, skips]

end Compiler
end BraceTemplate
