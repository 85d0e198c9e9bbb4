import BraceTemplate.Json.Numeral

/-! JSON values as text without blanks. -/
namespace BraceTemplate.Json

mutual

def write : Json → Text
  | null => "null".toList
  | bool true => "true".toList
  | bool false => "false".toList
  | number value => value.text
  | text value => quote value
  | array items => '[' :: (writeItems items ++ [']'])
  | object members => '{' :: (writeMembers members ++ ['}'])

def writeItems : List Json → Text
  | [] => []
  | [item] => write item
  | item :: next :: rest => write item ++ ',' :: writeItems (next :: rest)

def writeMembers : List (Text × Json) → Text
  | [] => []
  | [(key, value)] => quote key ++ ':' :: write value
  | (key, value) :: next :: rest =>
    quote key ++ ':' :: (write value ++ ',' :: writeMembers (next :: rest))

end

end BraceTemplate.Json
