import BraceTemplate.Settings.Basic

/-! Settings are read from JSON text one character at a time, so that the first
fault in the text is the one reported. They are an object with the fields in any
order or a list with the fields in their own order. A field with an unknown key is
skipped: its value must be JSON, but how deep it is, how large its numbers are and
whether its surrogates come in pairs does not matter. -/
namespace BraceTemplate.Settings

/-- The fields that have been read so far. -/
structure Draft where
  defaultModifier : Option (Option Text)
  debug : Option Bool
  sharedModifiers : Option (List (Text × Json))
  modifiers : Option (List (Text × Json))

namespace Draft

def empty : Draft := ⟨none, none, none, none⟩

def has (d : Draft) : Field → Bool
  | .defaultModifier => d.defaultModifier.isSome
  | .debug => d.debug.isSome
  | .sharedModifiers => d.sharedModifiers.isSome
  | .modifiers => d.modifiers.isSome

/-- Only the default modifier can be null. -/
def put (d : Draft) : Field → Json → Except Fault Draft
  | .defaultModifier, .null => .ok { d with defaultModifier := some none }
  | .defaultModifier, .text name => .ok { d with defaultModifier := some (some name) }
  | .debug, .bool flag => .ok { d with debug := some flag }
  | .sharedModifiers, .object members => .ok { d with sharedModifiers := some members }
  | .modifiers, .object members => .ok { d with modifiers := some members }
  | _, _ => .error .mismatched

/-- A field that was not given has its default. -/
def settings (d : Draft) : Settings where
  defaultModifier := d.defaultModifier.getD Settings.default.defaultModifier
  debug := d.debug.getD Settings.default.debug
  sharedModifiers := d.sharedModifiers.getD Settings.default.sharedModifiers
  modifiers := d.modifiers.getD Settings.default.modifiers

end Draft

/-- A bracket that is open, with what has been read inside it. -/
inductive Frame where
  /-- The settings as an object; a field without a known key is skipped. -/
  | record (draft : Draft) (field : Option Field)
  /-- The settings as a list, with the fields still to come. -/
  | row (draft : Draft) (coming : List Field)
  /-- The items stand in reverse. -/
  | array (items : List Json)
  | object (members : List (Text × Json)) (key : Text)
  | skippedArray
  | skippedObject

/-- What may stand where a value is due. -/
inductive Demand where
  | settings
  | field (f : Field)
  | anything
  | nothing

/-- What is due at this point of the text. -/
inductive Phase where
  /-- A value, or the end of a list that has just begun. -/
  | value (mayClose : Bool)
  /-- The rest of a word. -/
  | word (meaning : Json) (next : Char) (later : Text)
  | number (n : Json.Numeral)
  | string (q : Json.Quoted)
  /-- A key, or the end of an object that has just begun. -/
  | key (mayClose : Bool)
  | keyString (q : Json.Quoted)
  | colon
  /-- A comma or a closing bracket. -/
  | after

inductive State where
  /-- The innermost open bracket comes first. -/
  | reading (stack : List Frame) (phase : Phase)
  | finished (result : Settings)

/-- Brackets may be nested this deep. -/
def depthLimit : Nat := 127

def isSpace (c : Char) : Bool := c = ' ' || c = '\t' || c = '\n' || c = '\r'

def demand : List Frame → Demand
  | [] => .settings
  | .record _ (some f) :: _ => .field f
  | .record _ none :: _ => .nothing
  | .row _ (f :: _) :: _ => .field f
  | .row _ [] :: _ => .nothing
  | .array _ :: _ => .anything
  | .object _ _ :: _ => .anything
  | .skippedArray :: _ => .nothing
  | .skippedObject :: _ => .nothing

def isSkipping (stack : List Frame) : Bool :=
  match demand stack with
  | .nothing => true
  | _ => false

namespace State

def start : State := .reading [] (.value false)

/-- A value is complete and goes where it is due. -/
def deliver (v : Json) : List Frame → Except Fault State
  | [] => .error .mismatched
  | .record d (some f) :: stack => do
    return .reading (.record (← d.put f v) (some f) :: stack) .after
  | .row d (f :: coming) :: stack => do
    return .reading (.row (← d.put f v) coming :: stack) .after
  | .array items :: stack => .ok (.reading (.array (v :: items) :: stack) .after)
  | .object members key :: stack =>
    .ok (.reading (.object (Json.putMember key v members) key :: stack) .after)
  | stack => .ok (.reading stack .after)

/-- The innermost bracket is closed. -/
def close : List Frame → Except Fault State
  | [] => .error .malformed
  | .record d _ :: _ => .ok (.finished d.settings)
  | .row d _ :: _ => .ok (.finished d.settings)
  | .array items :: stack => deliver (.array items.reverse) stack
  | .object members _ :: stack => deliver (.object members) stack
  | .skippedArray :: stack => .ok (.reading stack .after)
  | .skippedObject :: stack => .ok (.reading stack .after)

/-- Opens one more bracket, unless there are too many. -/
def nest (frame : Frame) (phase : Phase) (stack : List Frame) : Except Fault State :=
  if stack.length < depthLimit then .ok (.reading (frame :: stack) phase)
  else .error .malformed

def openArray (stack : List Frame) : Except Fault State :=
  match demand stack with
  | .settings => nest (.row .empty Field.all) (.value true) stack
  | .field _ => .error .mismatched
  | .anything => nest (.array []) (.value true) stack
  | .nothing => .ok (.reading (.skippedArray :: stack) (.value true))

def openObject (stack : List Frame) : Except Fault State :=
  match demand stack with
  | .settings => nest (.record .empty none) (.key true) stack
  | .field f => if f.isMap then nest (.object [] []) (.key true) stack else .error .mismatched
  | .anything => nest (.object [] []) (.key true) stack
  | .nothing => .ok (.reading (.skippedObject :: stack) (.key true))

/-- The first character of a value. -/
def beginValue (stack : List Frame) (c : Char) : Except Fault State :=
  if c = '[' then openArray stack
  else if c = '{' then openObject stack
  else if c = '"' then .ok (.reading stack (.string .start))
  else if c = 'n' then .ok (.reading stack (.word .null 'u' ['l', 'l']))
  else if c = 't' then .ok (.reading stack (.word (.bool true) 'r' ['u', 'e']))
  else if c = 'f' then .ok (.reading stack (.word (.bool false) 'a' ['l', 's', 'e']))
  else match Json.Numeral.start c with
    | some n => .ok (.reading stack (.number n))
    | none => .error .malformed

/-- A number is complete. The range of a skipped number does not matter. -/
def deliverNumber (n : Json.Numeral) (stack : List Frame) : Except Fault State :=
  if isSkipping stack then .ok (.reading stack .after)
  else match n.value? with
    | some v => deliver (.number v) stack
    | none => .error .malformed

/-- A key is complete. A known key must not have come before. -/
def deliverKey (key : Text) : List Frame → Except Fault State
  | .record d _ :: stack =>
    match Field.ofKey? key with
    | some f =>
      if d.has f then .error .mismatched
      else .ok (.reading (.record d (some f) :: stack) .colon)
    | none => .ok (.reading (.record d none :: stack) .colon)
  | .object members _ :: stack => .ok (.reading (.object members key :: stack) .colon)
  | stack => .ok (.reading stack .colon)

/-- A comma starts the next item or field; nothing may follow the last field of a list. -/
def nextItem : List Frame → Except Fault State
  | .row d (f :: coming) :: stack => .ok (.reading (.row d (f :: coming) :: stack) (.value false))
  | .array items :: stack => .ok (.reading (.array items :: stack) (.value false))
  | .skippedArray :: stack => .ok (.reading (.skippedArray :: stack) (.value false))
  | .record d f :: stack => .ok (.reading (.record d f :: stack) (.key false))
  | .object members key :: stack => .ok (.reading (.object members key :: stack) (.key false))
  | .skippedObject :: stack => .ok (.reading (.skippedObject :: stack) (.key false))
  | _ => .error .malformed

/-- The bracket that closes the innermost frame. -/
def closingBracket : List Frame → Option Char
  | [] => none
  | .row .. :: _ | .array _ :: _ | .skippedArray :: _ => some ']'
  | .record .. :: _ | .object .. :: _ | .skippedObject :: _ => some '}'

def stepAfter (stack : List Frame) (c : Char) : Except Fault State :=
  if isSpace c then .ok (.reading stack .after)
  else if c = ',' then nextItem stack
  else if closingBracket stack = some c then close stack
  else .error .malformed

def stepReading (stack : List Frame) (c : Char) : Phase → Except Fault State
  | .value mayClose =>
    if isSpace c then .ok (.reading stack (.value mayClose))
    else if mayClose && c = ']' then close stack
    else beginValue stack c
  | .word meaning next later =>
    if c ≠ next then .error .malformed
    else match later with
      | [] => deliver meaning stack
      | after :: later => .ok (.reading stack (.word meaning after later))
  | .number n => do
    match ← n.step c with
    | some n => return .reading stack (.number n)
    | none =>
      match ← deliverNumber n stack with
      | .reading stack _ => stepAfter stack c
      | .finished result => return .finished result
  | .string q => do
    match ← q.step (!isSkipping stack) c with
    | .inl q => return .reading stack (.string q)
    | .inr t => deliver (.text t) stack
  | .key mayClose =>
    if isSpace c then .ok (.reading stack (.key mayClose))
    else if mayClose && c = '}' then close stack
    else if c = '"' then .ok (.reading stack (.keyString .start))
    else .error .malformed
  | .keyString q => do
    match ← q.step (!stack.head?.any fun | .skippedObject => true | _ => false) c with
    | .inl q => return .reading stack (.keyString q)
    | .inr key => deliverKey key stack
  | .colon =>
    if isSpace c then .ok (.reading stack .colon)
    else if c = ':' then .ok (.reading stack (.value false))
    else .error .malformed
  | .after => stepAfter stack c

def step : State → Char → Except Fault State
  | .reading stack phase, c => stepReading stack c phase
  | .finished result, c => if isSpace c then .ok (.finished result) else .error .malformed

/-- The text has ended. Only a number can be complete without a mark of its end. -/
def finish : State → Except Fault Settings
  | .finished result => .ok result
  | .reading stack (.number n) =>
    if n.isComplete then do
      let _ ← deliverNumber n stack
      throw .truncated
    else if isSkipping stack then .error .malformed
    else .error .truncated
  | .reading _ _ => .error .truncated

end State

def read (text : Text) : Except Fault Settings := do
  (← text.foldlM State.step State.start).finish

end BraceTemplate.Settings
