import BraceTemplate.Json.Basic

/-! A modifier turns an expression into another: it calls a function on it or
writes something around it. -/
namespace BraceTemplate

inductive Modifier where
  | call (function : Text)
  | wrap (before after : Text)
  deriving DecidableEq, Repr

namespace Modifier

/-- A string names a function; a list that starts with two strings is a wrapping. -/
def ofJson? : Json → Option Modifier
  | .text function => some (call function)
  | .array (.text before :: .text after :: _) => some (wrap before after)
  | _ => none

/-- What is written before the expression; a sub-key picks an entry of the called function. -/
def opening : Modifier → Option Text → Text
  | call function, none => function ++ "( ".toList
  | call function, some key => function ++ "['".toList ++ key ++ "']( ".toList
  | wrap before _, _ => before

/-- What is written after the expression. -/
def closing : Modifier → Text
  | call _ => " )".toList
  | wrap _ after => after

def apply (m : Modifier) (subKey : Option Text) (expression : Text) : Text :=
  m.opening subKey ++ expression ++ m.closing

end Modifier
end BraceTemplate
