import BraceTemplate.Directive.Reading
import BraceTemplate.Modifier.Default
import BraceTemplate.Statement
import BraceTemplate.Tally
import BraceTemplate.Template

/-! Compiling a template: text is copied, directives are rendered or skipped, and
both skips and unknown modifier names are counted. -/
namespace BraceTemplate

structure Compiler where
  registry : Registry
  /-- What fills an empty slot, with its pipe. -/
  defaultSlot : Option Text
  /-- Whether the body of a reference is noted beside its statement. -/
  debug : Bool
  deriving DecidableEq

inductive Rendering where
  | skipped
  | rendered (text : Text) (missing : List Text)
  deriving DecidableEq, Repr

structure Output where
  code : Text
  skipped : Nat
  unresolved : Tally
  deriving DecidableEq

namespace Output

def empty : Output := ⟨[], 0, ∅⟩

def append (a b : Output) : Output :=
  ⟨a.code ++ b.code, a.skipped + b.skipped, a.unresolved.merge b.unresolved⟩

instance : Append Output := ⟨append⟩

def isClean (o : Output) : Bool := o.skipped == 0 && o.unresolved.isEmpty

end Output

def Rendering.output : Rendering → Output
  | skipped => ⟨[], 1, ∅⟩
  | rendered text missing => ⟨text, 0, .ofNames missing⟩

namespace Compiler

def ofShared (shared : Layer) : Compiler := ⟨⟨shared, .empty⟩, none, false⟩

/-- Refuses a candidate that is no name and then keeps what was set before. -/
def withDefault? (c : Compiler) (candidate : Text) : Option Compiler :=
  (Text.defaultOf? candidate).map fun slot => { c with defaultSlot := some slot }

def withDebug (c : Compiler) (debug : Bool) : Compiler := { c with debug }

def withShared (c : Compiler) (shared : Layer) : Compiler :=
  { c with registry := { c.registry with shared } }

def withOwn (c : Compiler) (own : Layer) : Compiler :=
  { c with registry := { c.registry with own } }

/-- Refuses a name that is no identifier. -/
def register? (c : Compiler) (name : Text) (m : Modifier) : Option Compiler :=
  (c.registry.own.insert? name m).map c.withOwn

/-- Registers every member that defines a modifier, and counts them. -/
def registerAll (c : Compiler) (members : List (Text × Json)) : Compiler × Nat :=
  let (own, accepted) := c.registry.own.extend members
  (c.withOwn own, accepted)

/-- The body after the default modifier has taken its empty slots. -/
def filledBody (c : Compiler) (body : Text) : Text :=
  (c.defaultSlot.bind (Text.fillSlots? · body)).getD body

def renderReference (c : Compiler) (body : Text) (target : Reference) : Rendering :=
  let applied := target.applied c.registry
  .rendered (printStatement applied.expression (if c.debug then some body else none))
    applied.missing

def render (c : Compiler) (body : Text) : Rendering :=
  if body.isEmpty then .rendered [] []
  else match Directive.ofBody body with
    | .comment => .rendered [] []
    | .verbatim raw => .rendered raw []
    | .fixed word => .rendered word.output []
    | .reference _ =>
      match Reference.ofText? (c.filledBody body) with
      | some target => c.renderReference (c.filledBody body) target
      | none => .skipped
    | .block opener operand => .rendered (opener.statement operand) []
    | .unrecognized => .skipped

def compileSegment (c : Compiler) : Segment → Output
  | .literal text => ⟨text, 0, ∅⟩
  | .directive body => (c.render body).output

def compile (c : Compiler) (t : Template) : Output :=
  t.segments.foldr (fun segment rest => c.compileSegment segment ++ rest) .empty

def compileText (c : Compiler) (source : Text) : Output := c.compile (.parse source)

end Compiler
end BraceTemplate
