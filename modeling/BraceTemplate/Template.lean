import BraceTemplate.Text.Cut

/-! A template is text with directives between braces. Three kinds of fence close
a directive: a comment runs to the first `*}`, a verbatim passage to the first
`{/literal}`, anything else to the first `}`. A fence that never closes gives way
to the next kind, and a brace that nothing closes leaves the rest as text. -/
namespace BraceTemplate

/-- How a body begins and the mark, a closing brace last, that ends it. -/
structure Fence where
  opening : Text
  closing : Text

namespace Fence

def comment : Fence := ⟨['*'], ['*', '}']⟩

def verbatim : Fence := ⟨"literal\x7d".toList, "\x7b/literal\x7d".toList⟩

def plain : Fence := ⟨[], ['}']⟩

/-- The body up to the closing brace and the text after that brace. -/
def close (fence : Fence) (t : Text) : Option (Text × Text) :=
  if fence.opening.isPrefixOf t then
    (Text.cut fence.closing t).map fun found => (found.1 ++ fence.closing.dropLast, found.2)
  else none

theorem length_of_close {fence : Fence} {t body rest : Text}
    (h : fence.close t = some (body, rest)) : rest.length ≤ t.length := by
  unfold close at h
  split at h
  · obtain ⟨⟨b, a⟩, hc, he⟩ := Option.map_eq_some_iff.mp h
    obtain ⟨-, rfl⟩ : b ++ fence.closing.dropLast = body ∧ a = rest := by simpa using he
    have := Text.length_of_cut hc
    omega
  · cases h

end Fence

/-- The body that starts right after an opening brace, and the text after its closing brace. -/
def closeBody (t : Text) : Option (Text × Text) :=
  Fence.comment.close t <|> Fence.verbatim.close t <|> Fence.plain.close t

theorem length_of_closeBody {t body rest : Text}
    (h : closeBody t = some (body, rest)) : rest.length ≤ t.length := by
  unfold closeBody at h
  cases hc : Fence.comment.close t with
  | some found => rw [hc] at h; exact Fence.length_of_close (hc.trans h)
  | none =>
    cases hv : Fence.verbatim.close t with
    | some found => rw [hc, hv] at h; exact Fence.length_of_close (hv.trans h)
    | none =>
      have hp : Fence.plain.close t = some (body, rest) := by rwa [hc, hv] at h
      exact Fence.length_of_close hp

inductive Segment where
  | literal (text : Text)
  | directive (body : Text)
  deriving DecidableEq, Repr

namespace Segment

def text : Segment → Text
  | literal text => text
  | directive body => body

/-- The segment as it stands in a template. -/
def source : Segment → Text
  | literal text => text
  | directive body => '{' :: (body ++ ['}'])

def body? : Segment → Option Text
  | literal _ => none
  | directive body => some body

end Segment

/-- Literal text and directives in turn, with literal text, possibly empty, at both ends. -/
def segmentsOf (source : Text) : List Segment :=
  match _ : Text.cut ['{'] source with
  | none => [.literal source]
  | some (before, inside) =>
    match _ : closeBody inside with
    | none => [.literal source]
    | some (body, rest) => .literal before :: .directive body :: segmentsOf rest
termination_by source.length
decreasing_by
  have h₁ := Text.length_of_cut (by assumption)
  have h₂ := length_of_closeBody (by assumption)
  simp only [List.length_cons, List.length_nil] at h₁
  omega

structure Template where
  segments : List Segment
  deriving DecidableEq, Repr

namespace Template

/-- The template of an unreadable file: not even an empty piece of text. -/
def empty : Template := ⟨[]⟩

def parse (source : Text) : Template := ⟨segmentsOf source⟩

def parts (t : Template) : List Text := t.segments.map Segment.text

def size (t : Template) : Nat := t.segments.length

/-- The bodies of the directives. -/
def directives (t : Template) : List Text := t.segments.filterMap Segment.body?

def isEmpty (t : Template) : Bool := t.segments.isEmpty

def source (t : Template) : Text := t.segments.flatMap Segment.source

end Template
end BraceTemplate
