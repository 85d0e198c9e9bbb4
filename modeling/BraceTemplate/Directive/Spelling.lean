import BraceTemplate.Directive.Basic
import BraceTemplate.Text.Name

/-! References as they are written: a root, accesses, modifier slots and at most one
final newline. A slot may be empty, and an empty slot names no modifier. Every run
of name characters is read as far as it goes. -/
namespace BraceTemplate

/-- All items at the front of a text, and what follows them. Each takes some of the text. -/
def readMany {α : Type} (read? : Text → Option (α × Text))
    (shorter : ∀ {t rest : Text} {a : α}, read? t = some (a, rest) → rest.length < t.length)
    (t : Text) : List α × Text :=
  match _ : read? t with
  | none => ([], t)
  | some (a, rest) => (a :: (readMany read? shorter rest).1, (readMany read? shorter rest).2)
termination_by t.length
decreasing_by
  all_goals exact shorter (by assumption)

namespace Root

def text : Root → Text
  | var name => '$' :: name
  | constant owner name => '&' :: (owner ++ ':' :: name)
  | property owner name => '&' :: (owner ++ '.' :: name)

/-- The root at the front of a text, and what follows it. -/
def read? : Text → Option (Root × Text)
  | '$' :: t =>
    if nameRun t = [] then none else some (var (nameRun t), afterName t)
  | '&' :: t =>
    if nameRun t = [] then none else
      match afterName t with
      | ':' :: u =>
        if nameRun u = [] then none else some (constant (nameRun t) (nameRun u), afterName u)
      | '.' :: u =>
        if nameRun u = [] then none else some (property (nameRun t) (nameRun u), afterName u)
      | _ => none
  | _ => none

end Root

namespace Access

def text : Access → Text
  | key name => '.' :: name
  | member name => '-' :: '>' :: name

/-- The access at the front of a text, and what follows it. -/
def read? : Text → Option (Access × Text)
  | '.' :: t => if nameRun t = [] then none else some (key (nameRun t), afterName t)
  | '-' :: '>' :: t => if nameRun t = [] then none else some (member (nameRun t), afterName t)
  | _ => none

theorem length_of_read? {t rest : Text} {a : Access} (h : read? t = some (a, rest)) :
    rest.length < t.length := by
  unfold read? at h
  split at h
  · split at h
    · cases h
    · next u _ =>
      obtain ⟨-, rfl⟩ := Prod.mk.inj (Option.some.inj h)
      have := length_afterName_le u
      simp only [List.length_cons]
      omega
  · split at h
    · cases h
    · next u _ =>
      obtain ⟨-, rfl⟩ := Prod.mk.inj (Option.some.inj h)
      have := length_afterName_le u
      simp only [List.length_cons]
      omega
  · cases h

def readAll (t : Text) : List Access × Text := readMany read? length_of_read? t

end Access

namespace Slot

def text (slot : Slot) : Text :=
  '|' :: (slot.name ++ match slot.subKey with
    | none => []
    | some key => '.' :: key)

/-- The slot at the front of a text, and what follows it. -/
def read? : Text → Option (Slot × Text)
  | '|' :: t =>
    match afterName t with
    | '.' :: u => some (⟨nameRun t, some (nameRun u)⟩, afterName u)
    | rest => some (⟨nameRun t, none⟩, rest)
  | _ => none

theorem length_of_read? {t rest : Text} {slot : Slot}
    (h : read? t = some (slot, rest)) : rest.length < t.length := by
  unfold read? at h
  split at h
  · next t =>
    have ht := length_afterName_le t
    split at h
    · next u hu =>
      obtain ⟨-, rfl⟩ := Prod.mk.inj (Option.some.inj h)
      have := length_afterName_le u
      simp only [hu, List.length_cons] at ht ⊢
      omega
    · obtain ⟨-, rfl⟩ := Prod.mk.inj (Option.some.inj h)
      simp only [List.length_cons]
      omega
  · cases h

def readAll (t : Text) : List Slot × Text := readMany read? length_of_read? t

end Slot

/-- A reference with its slots, empty ones included, and its final newline. -/
structure Spelling where
  root : Root
  accesses : List Access
  slots : List Slot
  newline : Bool
  deriving DecidableEq, Repr

namespace Spelling

def text (s : Spelling) : Text :=
  s.root.text ++ (s.accesses.flatMap Access.text ++ (s.slots.flatMap Slot.text ++
    if s.newline then ['\n'] else []))

def ofText? (body : Text) : Option Spelling :=
  match Root.read? body with
  | none => none
  | some (root, t) =>
    let (accesses, t) := Access.readAll t
    let (slots, t) := Slot.readAll t
    match t with
    | [] => some ⟨root, accesses, slots, false⟩
    | ['\n'] => some ⟨root, accesses, slots, true⟩
    | _ => none

/-- Only the slots that name a modifier count. -/
def reference (s : Spelling) : Reference :=
  ⟨s.root, s.accesses, s.slots.filter fun slot => !slot.name.isEmpty⟩

end Spelling

def Reference.ofText? (body : Text) : Option Reference :=
  (Spelling.ofText? body).map Spelling.reference

end BraceTemplate
