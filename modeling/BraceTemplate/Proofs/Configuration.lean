import BraceTemplate.Settings.Basic
import BraceTemplate.Proofs.Filling

/-!
# Compilers that can be reached

A compiler is made over a shared layer, or from settings, and then configured step by
step. A step that is refused leaves it as it is. What holds when it is made and after
every step holds of every compiler that there is; here, that a default is always a name
behind a pipe.
-/
namespace BraceTemplate

/-- The layers that can be built, one entry or one object at a time. -/
inductive Layer.Built : Layer → Prop where
  | empty : Built .empty
  | insert {t : Layer} (built : Built t) (name : Text) (m : Modifier) : Built (t.insert name m)
  | extend {t : Layer} (built : Built t) (members : List (Text × Json)) :
      Built (t.extend members).1

theorem Layer.built_ofList (entries : List (Text × Modifier)) : (Layer.ofList entries).Built := by
  suffices grows : ∀ t : Layer, t.Built →
      (entries.foldl (fun t entry => t.insert entry.1 entry.2) t).Built from grows _ .empty
  induction entries with
  | nil => exact fun _ built => built
  | cons entry rest ih => exact fun t built => ih _ (built.insert entry.1 entry.2)

/-- One step of configuration. -/
inductive Command where
  | setDefault (candidate : Text)
  | setDebug (debug : Bool)
  | setShared (shared : Layer)
  | register (name : Text) (m : Modifier)
  | registerAll (members : List (Text × Json))

/-- A shared layer that is put in place has been built. -/
def Command.Built : Command → Prop
  | setShared shared => shared.Built
  | _ => True

namespace Compiler

def perform (c : Compiler) : Command → Compiler
  | .setDefault candidate => (c.withDefault? candidate).getD c
  | .setDebug debug => c.withDebug debug
  | .setShared shared => c.withShared shared
  | .register name m => (c.register? name m).getD c
  | .registerAll members => (c.registerAll members).1

inductive Reachable : Compiler → Prop where
  | ofShared {shared : Layer} (built : shared.Built) : Reachable (ofShared shared)
  | ofSettings (s : Settings) {shared : Layer} (built : shared.Built) :
      Reachable (ofSettings s shared)
  | perform {c : Compiler} (reached : Reachable c) {command : Command} (built : command.Built) :
      Reachable (c.perform command)

end Compiler

/-- The steps that settings stand for. -/
def Settings.commands (s : Settings) : List Command :=
  .setDebug s.debug :: (s.defaultModifier.toList.map .setDefault ++ [.registerAll s.modifiers])

namespace Compiler

theorem ofSettings_eq_foldl (s : Settings) (shared : Layer) :
    ofSettings s shared = s.commands.foldl perform (ofShared shared) := by
  obtain ⟨defaultModifier, debug, sharedModifiers, modifiers⟩ := s
  cases defaultModifier with
  | none => rfl
  | some candidate => rfl

/-- The default modifier, where there is one, is a name behind a pipe. -/
def DefaultNamed (c : Compiler) : Prop :=
  ∀ slot, c.defaultSlot = some slot → ∃ name, isName name = true ∧ slot = '|' :: name

theorem defaultNamed_ofShared (shared : Layer) : (ofShared shared).DefaultNamed := by
  intro slot h
  cases h

theorem DefaultNamed.perform {c : Compiler} (named : c.DefaultNamed) (command : Command) :
    (c.perform command).DefaultNamed := by
  cases command with
  | setDefault candidate =>
    rw [Compiler.perform, withDefault?]
    cases h : Text.defaultOf? candidate with
    | none => exact named
    | some slot =>
      rintro _ ⟨⟩
      exact Text.of_defaultOf? h
  | setDebug debug => exact named
  | setShared shared => exact named
  | register name m =>
    rw [Compiler.perform, register?]
    cases c.registry.own.insert? name m with
    | none => exact named
    | some own => exact named
  | registerAll members => exact named

theorem DefaultNamed.foldl {c : Compiler} (named : c.DefaultNamed) (commands : List Command) :
    (commands.foldl Compiler.perform c).DefaultNamed := by
  induction commands generalizing c with
  | nil => exact named
  | cons command rest ih => exact ih (named.perform command)

theorem Reachable.defaultNamed {c : Compiler} (reached : c.Reachable) : c.DefaultNamed := by
  induction reached with
  | ofShared _ => exact defaultNamed_ofShared _
  | ofSettings s _ =>
    rw [ofSettings_eq_foldl]
    exact (defaultNamed_ofShared _).foldl s.commands
  | perform _ _ ih => exact ih.perform _

end Compiler
end BraceTemplate
