import BraceTemplate.Compiler
import BraceTemplate.Json.Writer

/-! The settings from which a compiler is made. Modifiers are kept as the JSON
values that were given, whether they define a modifier or not. -/
namespace BraceTemplate

structure Settings where
  defaultModifier : Option Text
  debug : Bool
  sharedModifiers : List (Text × Json)
  modifiers : List (Text × Json)

namespace Settings

inductive Field where
  | defaultModifier
  | debug
  | sharedModifiers
  | modifiers
  deriving DecidableEq, Repr

namespace Field

/-- The fields in the order in which a list gives them. -/
def all : List Field := [defaultModifier, debug, sharedModifiers, modifiers]

def key : Field → Text
  | defaultModifier => "defaultModifier".toList
  | debug => "debug".toList
  | sharedModifiers => "sharedModifiers".toList
  | modifiers => "modifiers".toList

def ofKey? (key : Text) : Option Field := all.find? fun field => field.key = key

/-- Whether the field holds an object. -/
def isMap : Field → Bool
  | defaultModifier | debug => false
  | sharedModifiers | modifiers => true

end Field

def default : Settings := ⟨none, false, [], []⟩

def toJson (s : Settings) : Json :=
  .object [
    (Field.defaultModifier.key, s.defaultModifier.elim .null .text),
    (Field.debug.key, .bool s.debug),
    (Field.sharedModifiers.key, .object s.sharedModifiers),
    (Field.modifiers.key, .object s.modifiers)]

def write (s : Settings) : Text := s.toJson.write

/-- The table of the shared modifiers that are well formed. -/
def sharedLayer (s : Settings) : Layer :=
  (Layer.empty.extend s.sharedModifiers).1

end Settings

/-- A compiler over a given shared table; a default that is no name is left out. -/
def Compiler.ofSettings (s : Settings) (shared : Layer) : Compiler :=
  let c := (Compiler.ofShared shared).withDebug s.debug
  let c := (s.defaultModifier.bind c.withDefault?).getD c
  (c.registerAll s.modifiers).1

end BraceTemplate
