import BraceTemplate.Json.Double
import BraceTemplate.Text.Cut

/-! JSON values. An object lists its members; a value that was read has them
sorted by key, each key once. -/
namespace BraceTemplate

/-- Whole numbers of 64 bits are kept apart from all others. -/
inductive Number where
  | int (value : Int)
  | double (negative : Bool) (magnitude : Double)
  deriving DecidableEq, Repr

inductive Json where
  | null
  | bool (value : Bool)
  | number (value : Number)
  | text (value : Text)
  | array (items : List Json)
  | object (members : List (Text × Json))
  deriving Repr, Inhabited

namespace Json

/-- Puts a member where its key belongs; it takes the place of one with the same key. -/
def putMember (key : Text) (value : Json) : List (Text × Json) → List (Text × Json)
  | [] => [(key, value)]
  | member :: rest =>
    match compare key member.1 with
    | .lt => (key, value) :: member :: rest
    | .eq => (key, value) :: rest
    | .gt => member :: putMember key value rest

end Json
end BraceTemplate
