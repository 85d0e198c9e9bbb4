import BraceTemplate.Text.Cut
import Std.Data.ExtTreeMap

/-! How often each name occurred. A name can be listed with the count zero. -/
namespace BraceTemplate

abbrev Tally := Std.ExtTreeMap Text Nat

namespace Tally

def add (t : Tally) (name : Text) (n : Nat) : Tally :=
  t.alter name fun before => some (before.getD 0 + n)

def ofNames (names : List Text) : Tally :=
  names.foldl (fun t name => add t name 1) ∅

/-- Every name of either tally, with both counts added. -/
def merge (s t : Tally) : Tally :=
  t.foldl add s

def total (t : Tally) : Nat := t.toList.foldr (fun entry n => entry.2 + n) 0

end Tally
end BraceTemplate
