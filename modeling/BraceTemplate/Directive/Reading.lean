import BraceTemplate.Directive.Spelling
import BraceTemplate.Text.Blank

/-! Each form of directive has a reader of its own; a body is read by the first
that accepts it. -/
namespace BraceTemplate

namespace Text

/-- The text without its final newline, if it has one. -/
def dropNewline (t : Text) : Text :=
  if t.getLast? = some '\n' then t.dropLast else t

/-- Begins and ends with a star, which may be one and the same; a newline may follow. -/
def isComment (body : Text) : Bool :=
  body.head? = some '*' && (dropNewline body).getLast? = some '*'

/-- The text between the two tags of a verbatim passage. -/
def verbatim? (body : Text) : Option Text :=
  let opening := "literal\x7d".toList
  let closing := "\x7b/literal".toList
  if opening.isPrefixOf body && closing.isSuffixOf (body.drop opening.length) then
    some ((body.drop opening.length).take (body.length - opening.length - closing.length))
  else none

end Text

namespace Opener

/-- A keyword, at least one blank, and the operand, which starts at the first other character. -/
def readWith? (body : Text) (spelling : Text × Opener) : Option (Opener × Text) :=
  if spelling.1.isPrefixOf body then
    match body.drop spelling.1.length with
    | [] => none
    | c :: rest => if isBlank c then some (spelling.2, rest.dropWhile isBlank) else none
  else none

def read? (body : Text) : Option (Opener × Text) :=
  spellings.findSome? (readWith? body)

end Opener

namespace Directive

def comment? (body : Text) : Option Directive :=
  if Text.isComment body then some comment else none

def verbatim? (body : Text) : Option Directive :=
  (Text.verbatim? body).map verbatim

def fixed? (body : Text) : Option Directive :=
  (FixedWord.ofText? body).map fixed

def reference? (body : Text) : Option Directive :=
  (Reference.ofText? body).map reference

def block? (body : Text) : Option Directive :=
  (Opener.read? body).map fun found => block found.1 found.2

/-- The readers, in the order in which they are tried. -/
def readers : List (Text → Option Directive) :=
  [comment?, verbatim?, fixed?, reference?, block?]

def ofBody (body : Text) : Directive :=
  (readers.findSome? fun read => read body).getD unrecognized

end Directive
end BraceTemplate
