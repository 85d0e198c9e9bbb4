import BraceTemplate.Modifier.Chain

/-! The PHP text that directives become. -/
namespace BraceTemplate

/-- A piece of code between the marks that set it off from text. -/
def phpCode (code : Text) : Text := "<?php ".toList ++ code ++ " ?>".toList

def Root.expression : Root → Text
  | var name => '$' :: name
  | constant owner name => owner ++ "::".toList ++ name
  | property owner name => owner ++ "::$".toList ++ name

def Access.expression : Access → Text
  | key name => "['".toList ++ name ++ "']".toList
  | member name => "->".toList ++ name

/-- The value of a reference before any modifier. -/
def Reference.expression (r : Reference) : Text :=
  r.root.expression ++ r.accesses.flatMap Access.expression

/-- Prints an expression; the note, if there is one, follows as a comment. -/
def printStatement (expression : Text) (note : Option Text) : Text :=
  phpCode ("echo ".toList ++ expression ++ ";".toList ++ match note with
    | none => []
    | some source => " /* ".toList ++ source ++ " */".toList)

def Opener.statement (opener : Opener) (operand : Text) : Text :=
  phpCode (opener.keyword ++ "( ".toList ++ operand ++ " ):".toList)

def FixedWord.output (word : FixedWord) : Text :=
  match word.code? with
  | some code => phpCode code
  | none => word.brace?.toList

/-- The value of a reference after its modifiers. -/
def Reference.applied (r : Reference) (registry : Registry) : Applied :=
  registry.applyChain r.expression r.chain

end BraceTemplate
