import BraceTemplate.Text.Cut

/-! What the body of a directive can say. -/
namespace BraceTemplate

/-- What a reference starts from: a variable, or a constant or property of a class. -/
inductive Root where
  | var (name : Text)
  | constant (owner name : Text)
  | property (owner name : Text)
  deriving DecidableEq, Repr

/-- One step from a value into it. -/
inductive Access where
  | key (name : Text)
  | member (name : Text)
  deriving DecidableEq, Repr

/-- The use of a modifier by name, with the part of it that is meant. A slot may be written with
an empty name. -/
structure Slot where
  name : Text
  subKey : Option Text
  deriving DecidableEq, Repr

/-- A value to print: where it is found and the modifiers it passes through, in order. -/
structure Reference where
  root : Root
  accesses : List Access
  chain : List Slot
  deriving DecidableEq, Repr

/-- Directives that stand for themselves. -/
inductive FixedWord where
  | leftBrace
  | rightBrace
  | endIf
  | endLoop
  | otherwise
  deriving DecidableEq, Repr

namespace FixedWord

/-- The words and their meaning. -/
def spellings : List (Text × FixedWord) :=
  [("ld".toList, leftBrace), ("ldelim".toList, leftBrace),
    ("rd".toList, rightBrace), ("rdelim".toList, rightBrace),
    ("/if".toList, endIf), ("/foreach".toList, endLoop), ("/each".toList, endLoop),
    ("else".toList, otherwise)]

def ofText? (t : Text) : Option FixedWord := spellings.lookup t

/-- The brace that the word stands for. -/
def brace? : FixedWord → Option Char
  | leftBrace => some '{'
  | rightBrace => some '}'
  | _ => none

/-- The statement that the word stands for. -/
def code? : FixedWord → Option Text
  | endIf => some "endif;".toList
  | endLoop => some "endforeach;".toList
  | otherwise => some "else:".toList
  | _ => none

end FixedWord

/-- Statements that open a block over a condition or a collection. -/
inductive Opener where
  | cond
  | elseCond
  | loop
  deriving DecidableEq, Repr

namespace Opener

def keyword : Opener → Text
  | cond => "if".toList
  | elseCond => "elseif".toList
  | loop => "foreach".toList

/-- The keywords of a template; no keyword begins another. -/
def spellings : List (Text × Opener) :=
  [("if".toList, cond), ("elseif".toList, elseCond), ("foreach".toList, loop),
    ("each".toList, loop)]

end Opener

inductive Directive where
  | comment
  | verbatim (raw : Text)
  | fixed (word : FixedWord)
  | reference (target : Reference)
  | block (opener : Opener) (operand : Text)
  | unrecognized
  deriving DecidableEq, Repr

end BraceTemplate
