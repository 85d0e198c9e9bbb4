import BraceTemplate.Text.Name

/-! The default modifier takes the place of every empty slot: a pipe that no name
character follows. -/
namespace BraceTemplate.Text

/-- A default is a name; a pipe before it is optional where it is given and always kept. -/
def defaultOf? (candidate : Text) : Option Text :=
  let name := match candidate with
    | '|' :: rest => rest
    | t => t
  if isName name then some ('|' :: name) else none

/-- A pipe stands at the front and no name character follows it. -/
def startsEmptySlot : Text → Bool
  | '|' :: rest => !(rest.head?.any isNameChar)
  | _ => false

def hasEmptySlot : Text → Bool
  | [] => false
  | c :: rest => startsEmptySlot (c :: rest) || hasEmptySlot rest

def fillSlots (filler : Text) : Text → Text
  | [] => []
  | c :: rest =>
    if startsEmptySlot (c :: rest) then filler ++ fillSlots filler rest
    else c :: fillSlots filler rest

/-- The body with the filler in every empty slot; nothing if there is no such slot. -/
def fillSlots? (filler body : Text) : Option Text :=
  if hasEmptySlot body then some (fillSlots filler body) else none

end BraceTemplate.Text
