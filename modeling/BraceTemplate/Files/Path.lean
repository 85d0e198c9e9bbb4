import BraceTemplate.Text.Cut
import Std.Data.ExtTreeMap

/-! Path texts and the steps they spell. Pieces between slashes are names, except
that an empty piece says nothing, one dot stays and two dots go up. Some texts are
no paths at all: the empty one, one with a NUL in it, and one that is too long. -/
namespace BraceTemplate

def IsFileName (t : Text) : Prop := t ≠ [] ∧ t ≠ ['.'] ∧ t ≠ ['.', '.'] ∧ '/' ∉ t

instance (t : Text) : Decidable (IsFileName t) := inferInstanceAs (Decidable (_ ∧ _))

/-- Why an operation on files failed. -/
inductive Cause where
  | notFound
  | alreadyExists
  | notDirectory
  | isDirectory
  | nameTooLong
  | tooManyLinks
  | nulInPath
  | notText
  deriving DecidableEq, Repr

def Cause.message : Cause → Text
  | notFound => "No such file or directory (os error 2)".toList
  | alreadyExists => "File exists (os error 17)".toList
  | notDirectory => "Not a directory (os error 20)".toList
  | isDirectory => "Is a directory (os error 21)".toList
  | nameTooLong => "File name too long (os error 36)".toList
  | tooManyLinks => "Too many levels of symbolic links (os error 40)".toList
  | nulInPath => "file name contained an unexpected NUL byte".toList
  | notText => "stream did not contain valid UTF-8".toList

/-- How many octets a text takes. -/
def Text.octets (t : Text) : Nat := t.foldr (fun c n => c.utf8Size + n) 0

/-- The name of an entry in its directory. -/
structure FileName where
  text : Text
  valid : IsFileName text
  deriving DecidableEq

namespace FileName

instance : Ord FileName := ⟨fun a b => compare a.text b.text⟩

instance : Std.TransOrd FileName where
  eq_swap := fun {a b} => @Std.OrientedCmp.eq_swap Text compare _ a.text b.text
  isLE_trans := fun {a b c} => @Std.TransCmp.isLE_trans Text compare _ a.text b.text c.text

instance : Std.LawfulEqOrd FileName where
  compare_self := fun {a} => @Std.ReflCmp.compare_self Text compare _ a.text
  eq_of_compare := by
    rintro ⟨a, _⟩ ⟨b, _⟩ h
    obtain rfl : a = b := Std.LawfulEqCmp.eq_of_compare h
    rfl

/-- A name longer than this is refused wherever it is looked up. -/
def octetLimit : Nat := 255

def isTooLong (name : FileName) : Bool := octetLimit < Text.octets name.text

end FileName

/-- The names from the root down to an entry. -/
abbrev Location := List FileName

inductive PathStep where
  | stay
  | up
  | down (name : FileName)
  deriving DecidableEq

namespace PathStep

def ofPiece? (piece : Text) : Option PathStep :=
  if piece = ['.'] then some stay
  else if piece = ['.', '.'] then some up
  else if h : IsFileName piece then some (down ⟨piece, h⟩)
  else none

end PathStep

namespace Text

/-- The pieces between slashes, at least one. -/
def pieces : Text → List Text
  | [] => [[]]
  | c :: rest =>
    if c = '/' then [] :: pieces rest
    else match pieces rest with
      | [] => [[c]]
      | piece :: more => (c :: piece) :: more

/-- A path text with a name below it; a slash is set between them unless one is there. -/
def below (path name : Text) : Text :=
  if path = [] ∨ path.getLast? = some '/' then path ++ name else path ++ '/' :: name

/-- The last piece of a path text. -/
def lastPiece (path : Text) : Text := (pieces path).getLastD []

end Text

/-- A path by its pieces. -/
structure Route where
  pieces : List Text
  deriving DecidableEq

namespace Route

def ofText (path : Text) : Route := ⟨Text.pieces path⟩

/-- The text starts with a slash. -/
def isAbsolute (r : Route) : Bool := r.pieces.head? = some [] && 1 < r.pieces.length

/-- The text ends in a slash, so that only a directory can be meant. -/
def endsInSlash (r : Route) : Bool := r.pieces.getLast? = some [] && 1 < r.pieces.length

def steps (r : Route) : List PathStep := r.pieces.filterMap PathStep.ofPiece?

/-- All steps; a slash at the end is one more step that stays. -/
def walk (r : Route) : List PathStep := r.steps ++ if r.endsInSlash then [.stay] else []

/-- The text has fewer octets than this. -/
def octetLimit : Nat := 4096

/-- How many octets the text takes, slashes included. -/
def octets (r : Route) : Nat :=
  r.pieces.foldr (fun piece n => piece.octets + n) 0 + (r.pieces.length - 1)

/-- Why the text is no path. -/
def refusal? (r : Route) : Option Cause :=
  if r.pieces.any fun piece => '\x00' ∈ piece then some .nulInPath
  else if r.octets = 0 then some .notFound
  else if octetLimit ≤ r.octets then some .nameTooLong
  else none

/-- A piece that leads nowhere. -/
def isIdle (piece : Text) : Bool := piece = [] || piece = ['.']

/-- The pieces of what contains the last name, in reverse. -/
def aboveReversed (r : Route) : List Text := (r.pieces.reverse.dropWhile isIdle).tail

end Route

/-- The path text of an entry that is reached by names from a given path. -/
def Location.pathFrom (base : Text) (trail : Location) : Text :=
  trail.foldl (fun path name => Text.below path name.text) base

end BraceTemplate
