import BraceTemplate.Directive.Basic
import BraceTemplate.Modifier.Layer

/-! The modifiers of a chain are applied from the first to the last; one whose name
is unknown leaves the expression as it is and is noted. -/
namespace BraceTemplate

/-- An expression with a chain applied to it, and the names that were not found. -/
structure Applied where
  expression : Text
  missing : List Text
  deriving DecidableEq, Repr

def Registry.applyChain (r : Registry) : Text → List Slot → Applied
  | e, [] => ⟨e, []⟩
  | e, slot :: rest =>
    match r.find? slot.name with
    | some m => r.applyChain (m.apply slot.subKey e) rest
    | none =>
      let later := r.applyChain e rest
      ⟨later.expression, slot.name :: later.missing⟩

end BraceTemplate
