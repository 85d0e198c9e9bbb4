import BraceTemplate.Proofs.Configuration
import BraceTemplate.Proofs.Layers

/-!
# A compiler and its history

The history of a compiler is how it was made and what was done to it since, accepted or
not. Three things are read off it: the modifiers that were offered to the compiler, the
shared layer put in place last, and the candidates for the default. They decide every
lookup and the default; what was refused leaves no trace.
-/
namespace BraceTemplate

namespace Text

/-- A candidate that is a name, with a pipe before it or without, and the default it makes. -/
inductive AcceptedAs : Text → Text → Prop where
  | bare {name : Text} (named : isName name = true) : AcceptedAs name ('|' :: name)
  | piped {name : Text} (named : isName name = true) : AcceptedAs ('|' :: name) ('|' :: name)

theorem defaultOf?_eq_some_iff {candidate slot : Text} :
    defaultOf? candidate = some slot ↔ AcceptedAs candidate slot := by
  constructor
  · intro h
    unfold defaultOf? at h
    obtain ⟨named, same⟩ := Option.ite_none_right_eq_some.mp h
    cases same
    split at named
    · exact .piped named
    · exact .bare named
  · intro h
    cases h with
    | bare named =>
      unfold defaultOf?
      split
      · next rest =>
        have free : '|' ∉ '|' :: rest := not_mem_of_all (isName_iff.mp named).2 (by decide)
        exact absurd List.mem_cons_self free
      · rw [if_pos named]
    | piped named => exact if_pos named

theorem AcceptedAs.named {candidate slot : Text} (h : AcceptedAs candidate slot) :
    ∃ name, slot = '|' :: name ∧ isName name = true := by
  cases h with
  | bare named => exact ⟨_, rfl, named⟩
  | piped named => exact ⟨_, rfl, named⟩

end Text

theorem Layer.Built.identifier {t : Layer} (built : t.Built) {name : Text} {m : Modifier}
    (h : t.get? name = some m) : isIdentifier name = true := by
  induction built generalizing m with
  | empty =>
    rw [get?_empty] at h
    cases h
  | @insert t _ key n ih =>
    rcases (t.get?_take_eq_some_iff name (.modifier key n) m).mp h with registers | ⟨-, old⟩
    · exact registers.identifier
    · exact ih old
  | @extend t _ members ih =>
    rw [extend_eq_foldl_take] at h
    rcases (t.get?_foldl_take_eq_some_iff _ name m).mp h with last | ⟨-, old⟩
    · obtain ⟨-, offer, -, -, registers, -⟩ := last
      exact registers.identifier
    · exact ih old

namespace Command

/-- What the step offers to the compiler's own layer, in order. -/
def offers : Command → List Offer
  | register name m => [.modifier name m]
  | registerAll members => members.map Offer.ofMember
  | _ => []

/-- The layer that the step puts in place of the shared one. -/
def installed? : Command → Option Layer
  | setShared shared => some shared
  | _ => none

/-- What the step proposes as a default. -/
def candidate? : Command → Option Text
  | setDefault candidate => some candidate
  | _ => none

def debug? : Command → Option Bool
  | setDebug debug => some debug
  | _ => none

end Command

namespace Compiler

/-- All that a step does. -/
theorem perform_eq (c : Compiler) (command : Command) : c.perform command =
    { registry :=
        { shared := command.installed?.getD c.registry.shared
          own := command.offers.foldl Layer.take c.registry.own }
      defaultSlot := (command.candidate?.bind Text.defaultOf?).or c.defaultSlot
      debug := command.debug?.getD c.debug } := by
  cases command with
  | setDefault candidate =>
    rw [perform, withDefault?, Command.candidate?, Option.bind_some]
    cases Text.defaultOf? candidate with
    | none => rfl
    | some slot => rfl
  | setDebug debug => rfl
  | setShared shared => rfl
  | register name m =>
    change (c.register? name m).getD c = c.withOwn (c.registry.own.insert name m)
    rw [register?, Layer.insert]
    cases c.registry.own.insert? name m with
    | none => rfl
    | some own => rfl
  | registerAll members =>
    change c.withOwn (c.registry.own.extend members).1 = _
    rw [Layer.extend_eq_foldl_take]
    rfl

theorem perform_setDefault_of_refused (c : Compiler) {candidate : Text}
    (refused : ∀ slot, ¬ Text.AcceptedAs candidate slot) :
    c.perform (.setDefault candidate) = c := by
  have none : Text.defaultOf? candidate = none := by
    rw [Option.eq_none_iff_forall_ne_some]
    exact fun slot h => refused slot (Text.defaultOf?_eq_some_iff.mp h)
  rw [perform, withDefault?, none]
  rfl

theorem getLastD_filterMap_cons {α β : Type} (f : α → Option β) (a : α) (as : List α) (b : β) :
    ((a :: as).filterMap f).getLastD b = (as.filterMap f).getLastD ((f a).getD b) := by
  rw [List.filterMap_cons]
  cases f a with
  | none => rfl
  | some c => exact List.getLastD_cons

/-- All that a run of steps does: what was offered is entered in order, and of everything else
the last counts. -/
theorem foldl_perform_eq (c : Compiler) (commands : List Command) : commands.foldl perform c =
    { registry :=
        { shared := (commands.filterMap Command.installed?).getLastD c.registry.shared
          own := (commands.flatMap Command.offers).foldl Layer.take c.registry.own }
      defaultSlot := (commands.filterMap Command.candidate?).foldl
        (fun slot candidate => (Text.defaultOf? candidate).or slot) c.defaultSlot
      debug := (commands.filterMap Command.debug?).getLastD c.debug } := by
  induction commands generalizing c with
  | nil => rfl
  | cons command commands ih =>
    rw [List.foldl_cons, ih, perform_eq, getLastD_filterMap_cons, getLastD_filterMap_cons,
      List.flatMap_cons, List.foldl_append, List.filterMap_cons]
    cases command.candidate? with
    | none => rfl
    | some candidate => rfl

end Compiler

/-- How a compiler was made and what was done to it since. -/
inductive History where
  | new
  | ofShared (shared : Layer) (built : shared.Built)
  | ofSettings (s : Settings) (shared : Layer) (built : shared.Built)
  | clone (original : History)
  | perform (h : History) (command : Command) (built : command.Built)

namespace History

def compiler : History → Compiler
  | new => .ofShared .empty
  | ofShared shared _ => .ofShared shared
  | ofSettings s shared _ => .ofSettings s shared
  | clone original => original.compiler
  | perform h command _ => h.compiler.perform command

/-- The shared layer that the compiler was made with. -/
def firstShared : History → Layer
  | new => .empty
  | ofShared shared _ => shared
  | ofSettings _ shared _ => shared
  | clone original => original.firstShared
  | perform h _ _ => h.firstShared

/-- All steps, those of the settings and of the original of a copy included. -/
def commands : History → List Command
  | new => []
  | ofShared _ _ => []
  | ofSettings s _ _ => s.commands
  | clone original => original.commands
  | perform h command _ => h.commands ++ [command]

/-- Every modifier that was offered to the compiler itself, in order. -/
def offers (h : History) : List Offer := h.commands.flatMap Command.offers

/-- The shared layer that was put in place last. -/
def shared (h : History) : Layer :=
  (h.commands.filterMap Command.installed?).getLastD h.firstShared

/-- Everything that was proposed as a default, in order. -/
def candidates (h : History) : List Text := h.commands.filterMap Command.candidate?

theorem compiler_eq_foldl (h : History) :
    h.compiler = h.commands.foldl Compiler.perform (.ofShared h.firstShared) := by
  induction h with
  | new => rfl
  | ofShared shared built => rfl
  | ofSettings s shared built => exact Compiler.ofSettings_eq_foldl s shared
  | clone original ih => exact ih
  | perform h command built ih =>
    rw [compiler, commands, List.foldl_append, firstShared, ← ih]
    rfl

/-- Histories lead to the compilers that can be reached, and to no others. -/
theorem exists_compiler_eq_iff {c : Compiler} : (∃ h : History, h.compiler = c) ↔ c.Reachable := by
  constructor
  · rintro ⟨h, rfl⟩
    induction h with
    | new => exact .ofShared .empty
    | ofShared shared built => exact .ofShared built
    | ofSettings s shared built => exact .ofSettings s built
    | clone original ih => exact ih
    | perform h command built ih => exact ih.perform built
  · intro reached
    induction reached with
    | @ofShared shared built => exact ⟨.ofShared shared built, rfl⟩
    | @ofSettings s shared built => exact ⟨.ofSettings s shared built, rfl⟩
    | @perform c _ command built ih =>
      obtain ⟨h, rfl⟩ := ih
      exact ⟨h.perform command built, rfl⟩

theorem built_shared (h : History) : h.shared.Built := by
  induction h with
  | new => exact .empty
  | ofShared shared built => exact built
  | ofSettings s shared built =>
    obtain ⟨defaultModifier, debug, sharedModifiers, modifiers⟩ := s
    cases defaultModifier with
    | none => exact built
    | some candidate => exact built
  | clone original ih => exact ih
  | perform h command built ih =>
    have last : (h.perform command built).shared = command.installed?.getD h.shared := by
      rw [shared, commands, List.filterMap_append]
      cases installed : command.installed? with
      | none => simp [installed, shared, firstShared]
      | some layer => simp [installed]
    rw [last]
    cases command with
    | setShared layer => exact built
    | _ => exact ih

theorem shared_compiler (h : History) : h.compiler.registry.shared = h.shared := by
  rw [compiler_eq_foldl, Compiler.foldl_perform_eq]
  rfl

theorem own_get?_eq_some_iff (h : History) (name : Text) (m : Modifier) :
    h.compiler.registry.own.get? name = some m ↔
      LastGives (fun offer m => offer.Registers name m) h.offers m := by
  rw [compiler_eq_foldl, Compiler.foldl_perform_eq]
  change (h.offers.foldl Layer.take .empty).get? name = some m ↔ _
  rw [Layer.get?_foldl_take_eq_some_iff, Layer.get?_empty]
  simp

theorem own_get?_eq_none_iff (h : History) (name : Text) :
    h.compiler.registry.own.get? name = none ↔
      ∀ offer ∈ h.offers, ∀ m, ¬ offer.Registers name m := by
  rw [Option.eq_none_iff_forall_ne_some]
  constructor
  · intro absent offer listed m registers
    obtain ⟨n, last⟩ : ∃ n, LastGives (fun offer m => offer.Registers name m) h.offers n :=
      exists_lastGives ⟨offer, listed, m, registers⟩
    exact absent n ((h.own_get?_eq_some_iff name n).mpr last)
  · intro refused m found
    obtain ⟨before, offer, after, same, registers, -⟩ := (h.own_get?_eq_some_iff name m).mp found
    exact refused offer (by simp [same]) m registers

theorem find?_eq_some_iff (h : History) (name : Text) (m : Modifier) :
    h.compiler.registry.find? name = some m ↔
      LastGives (fun offer m => offer.Registers name m) h.offers m ∨
        (∀ offer ∈ h.offers, ∀ other, ¬ offer.Registers name other) ∧
          h.shared.get? name = some m := by
  rw [Registry.find?, Option.orElse_eq_orElse, Option.orElse_eq_or, Option.or_eq_some_iff,
    own_get?_eq_some_iff, own_get?_eq_none_iff, shared_compiler]

theorem defaultSlot_eq_some_iff (h : History) (slot : Text) :
    h.compiler.defaultSlot = some slot ↔ LastGives Text.AcceptedAs h.candidates slot := by
  have one : ∀ (before : Option Text) (candidate slot : Text),
      (Text.defaultOf? candidate).or before = some slot ↔ Text.AcceptedAs candidate slot ∨
        (∀ other, ¬ Text.AcceptedAs candidate other) ∧ before = some slot := by
    intro before candidate slot
    simp only [Option.or_eq_some_iff, Option.eq_none_iff_forall_ne_some, ne_eq,
      Text.defaultOf?_eq_some_iff]
  rw [compiler_eq_foldl, Compiler.foldl_perform_eq]
  change h.candidates.foldl _ none = some slot ↔ _
  exact (foldl_eq_some_iff id one none).trans (by simp)

theorem identifier_of_find? (h : History) {name : Text} {m : Modifier}
    (found : h.compiler.registry.find? name = some m) : isIdentifier name = true := by
  rcases (h.find?_eq_some_iff name m).mp found with last | ⟨-, shared⟩
  · obtain ⟨-, offer, -, -, registers, -⟩ := last
    exact registers.identifier
  · exact h.built_shared.identifier shared

end History

/-- A name stands for the last modifier that was accepted under it by the compiler itself, or
else for what the shared layer in place has; the default is the last candidate that was
accepted; only identifiers are ever entered, and only names are ever the default. -/
theorem compiler_refines_history (h : History) :
    (∀ (name : Text) (m : Modifier), h.compiler.registry.find? name = some m ↔
      LastGives (fun offer m => offer.Registers name m) h.offers m ∨
        (∀ offer ∈ h.offers, ∀ other, ¬ offer.Registers name other) ∧
          h.shared.get? name = some m) ∧
    (∀ slot : Text, h.compiler.defaultSlot = some slot ↔
      LastGives Text.AcceptedAs h.candidates slot) ∧
    (∀ candidate : Text, (∀ slot, ¬ Text.AcceptedAs candidate slot) →
      h.compiler.perform (.setDefault candidate) = h.compiler) ∧
    (∀ (name : Text) (m : Modifier), h.compiler.registry.own.get? name = some m ∨
      h.compiler.registry.shared.get? name = some m → isIdentifier name = true) ∧
    (∀ slot : Text, h.compiler.defaultSlot = some slot →
      ∃ name, slot = '|' :: name ∧ name ≠ [] ∧ ∀ c ∈ name, isNameChar c = true) ∧
    (∀ name : Text, isIdentifier name = false → h.compiler.registry.find? name = none) := by
  refine ⟨h.find?_eq_some_iff, h.defaultSlot_eq_some_iff, ?_, ?_, ?_, ?_⟩
  · intro candidate refused
    exact h.compiler.perform_setDefault_of_refused refused
  · rintro name m (own | shared)
    · obtain ⟨-, offer, -, -, registers, -⟩ := (h.own_get?_eq_some_iff name m).mp own
      exact registers.identifier
    · rw [h.shared_compiler] at shared
      exact h.built_shared.identifier shared
  · intro slot default
    obtain ⟨-, candidate, -, -, accepted, -⟩ := (h.defaultSlot_eq_some_iff slot).mp default
    obtain ⟨name, rfl, named⟩ := accepted.named
    obtain ⟨nonempty, inside⟩ := isName_iff.mp named
    exact ⟨name, rfl, nonempty, List.all_eq_true.mp inside⟩
  · intro name refused
    cases found : h.compiler.registry.find? name with
    | none => rfl
    | some m =>
      rw [h.identifier_of_find? found] at refused
      cases refused

/-- A name that is no identifier and a value that describes no modifier do not hide what is
shared. -/
example : (((History.ofShared (Layer.empty.insert "e".toList (.call "f".toList))
    (.insert .empty _ _)).perform (.register "1e".toList (.call "g".toList)) trivial).perform
      (.registerAll [("e".toList, .null)]) trivial).compiler.registry.find? "e".toList =
        some (.call "f".toList) := by
  decide +kernel

end BraceTemplate
