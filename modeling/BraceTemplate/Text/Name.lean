import BraceTemplate.Text.Cut

/-! Names are made of ASCII letters, digits and the underscore. A modifier may be
called by any non-empty name; a name under which it is registered must not start
with a digit. -/
namespace BraceTemplate

def isNameChar (c : Char) : Bool :=
  c.isAlphanum || c == '_'

def isName (t : Text) : Bool :=
  !t.isEmpty && t.all isNameChar

def isIdentifier (t : Text) : Bool :=
  isName t && !(t.head?.any Char.isDigit)

/-- The longest run of name characters at the front. -/
def nameRun (t : Text) : Text := t.takeWhile isNameChar

/-- What follows the longest run of name characters at the front. -/
def afterName (t : Text) : Text := t.dropWhile isNameChar

@[simp] theorem nameRun_append_afterName (t : Text) : nameRun t ++ afterName t = t :=
  List.takeWhile_append_dropWhile

theorem length_afterName_le (t : Text) : (afterName t).length ≤ t.length :=
  (List.dropWhile_sublist isNameChar).length_le

end BraceTemplate
