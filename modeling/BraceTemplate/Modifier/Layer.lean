import BraceTemplate.Modifier.Basic
import BraceTemplate.Text.Name
import Std.Data.ExtTreeMap

/-! Modifiers by name, in two layers in which a compiler looks. Only identifiers are
ever entered; a later entry takes the place of an earlier one. -/
namespace BraceTemplate

structure Layer where
  entries : Std.ExtTreeMap Text Modifier
  deriving DecidableEq

namespace Layer

def empty : Layer := ⟨∅⟩

def get? (t : Layer) (name : Text) : Option Modifier := t.entries[name]?

def size (t : Layer) : Nat := t.entries.size

def isEmpty (t : Layer) : Bool := t.entries.isEmpty

/-- A name that is no identifier is refused. -/
def insert? (t : Layer) (name : Text) (m : Modifier) : Option Layer :=
  if isIdentifier name then some ⟨t.entries.insert name m⟩ else none

/-- Leaves the layer as it is when the name is refused. -/
def insert (t : Layer) (name : Text) (m : Modifier) : Layer :=
  (t.insert? name m).getD t

def ofList (entries : List (Text × Modifier)) : Layer :=
  entries.foldl (fun t entry => t.insert entry.1 entry.2) empty

/-- The modifier that a member of a JSON object defines for its key. -/
def entryOfMember? (member : Text × Json) : Option (Text × Modifier) :=
  if isIdentifier member.1 then (Modifier.ofJson? member.2).map (member.1, ·) else none

/-- Enters every member that defines a modifier, and counts them. -/
def extend (t : Layer) (members : List (Text × Json)) : Layer × Nat :=
  let accepted := members.filterMap entryOfMember?
  (accepted.foldl (fun t entry => t.insert entry.1 entry.2) t, accepted.length)

end Layer

/-- What belongs to one compiler hides what is shared. -/
structure Registry where
  shared : Layer
  own : Layer
  deriving DecidableEq

namespace Registry

def find? (r : Registry) (name : Text) : Option Modifier :=
  r.own.get? name <|> r.shared.get? name

end Registry
end BraceTemplate
