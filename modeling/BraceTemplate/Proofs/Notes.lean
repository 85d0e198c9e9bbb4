import BraceTemplate.Proofs.Diagnostics
import BraceTemplate.Proofs.Exclusion
import BraceTemplate.Proofs.Occurrence

/-!
# What debugging adds to the code

A compiler that notes what it compiles writes the same pieces of code, one for each
segment, and counts the same. Only a statement that prints a reference carries the body
it was made from, the default filled in, in a comment. That body is text of the template
and is not escaped; it is harmless there because the grammar of references has neither a
star nor a question mark.
-/
namespace BraceTemplate

/-- The code of one segment: text that stands as it is, or a statement that prints an
expression, with the body that it was made from. -/
inductive Piece where
  | plain (text : Text)
  | print (expression body : Text)
  deriving DecidableEq, Repr

namespace Piece

/-- The body is noted only for debugging. -/
def code (debug : Bool) : Piece → Text
  | plain text => text
  | print expression body =>
    if debug then "<?php echo ".toList ++ expression ++ "; /* ".toList ++ body ++ " */ ?>".toList
    else "<?php echo ".toList ++ expression ++ "; ?>".toList

theorem code_print (debug : Bool) (expression body : Text) :
    (print expression body).code debug =
      printStatement expression (if debug then some body else none) := by
  cases debug with
  | false =>
    change "<?php echo ".toList ++ expression ++ "; ?>".toList = "<?php ".toList ++
      ("echo ".toList ++ expression ++ ";".toList ++ []) ++ " ?>".toList
    have opening : "<?php echo ".toList = "<?php ".toList ++ "echo ".toList := rfl
    have closing : "; ?>".toList = ";".toList ++ " ?>".toList := rfl
    rw [opening, closing]
    simp only [List.append_assoc, List.nil_append]
  | true =>
    change "<?php echo ".toList ++ expression ++ "; /* ".toList ++ body ++ " */ ?>".toList =
      "<?php ".toList ++ ("echo ".toList ++ expression ++ ";".toList ++
        (" /* ".toList ++ body ++ " */".toList)) ++ " ?>".toList
    have opening : "<?php echo ".toList = "<?php ".toList ++ "echo ".toList := rfl
    have note : "; /* ".toList = ";".toList ++ " /* ".toList := rfl
    have closing : " */ ?>".toList = " */".toList ++ " ?>".toList := rfl
    rw [opening, note, closing]
    simp only [List.append_assoc]

end Piece

namespace Compiler
variable {c : Compiler}

/-- Text is copied. A directive that is no reference gives the same text in every compiler. A
reference gives a statement: its body is filled, and what is read from that is printed. -/
inductive Shows (c : Compiler) : Segment → Piece → Prop where
  | literal (text : Text) : c.Shows (.literal text) (.plain text)
  | other {body text : Text} (refused : Directive.reference? body = none)
      (always : ∀ c' : Compiler, (c'.render body).output.code = text) :
      c.Shows (.directive body) (.plain text)
  | reference {body : Text} {source target : Reference}
      (accepted : Directive.reference? body = some (.reference source))
      (filled : Directive.reference? (c.filledBody body) = some (.reference target)) :
      c.Shows (.directive body)
        (.print (target.applied c.registry).expression (c.filledBody body))

theorem exists_shows (named : c.DefaultNamed) (segment : Segment) :
    ∃ piece, c.Shows segment piece := by
  cases segment with
  | literal text => exact ⟨_, .literal text⟩
  | directive body =>
    cases h : Spelling.ofText? body with
    | none =>
      have refused : Directive.reference? body = none := by
        simp [Directive.reference?, Reference.ofText?, h]
      obtain ⟨r, always, -⟩ := render_of_not_reference h
      exact ⟨_, .other refused fun c' => congrArg (·.output.code) (always c')⟩
    | some s =>
      obtain ⟨ok, rfl⟩ := Spelling.ofText?_eq_some.mp h
      have accepted : Directive.reference? s.text = some (.reference s.reference) :=
        Directive.reference?_eq_some_iff.mpr ⟨s, ok, rfl, rfl⟩
      have filled := ofText?_filledBody named ok
      exact ⟨_, .reference accepted (congrArg (Option.map Directive.reference) filled)⟩

/-- A segment shows its piece under either flag, which has no part in filling and reading. -/
theorem Shows.code {segment : Segment} {piece : Piece} (shows : c.Shows segment piece)
    (debug : Bool) : ((c.withDebug debug).compileSegment segment).code = piece.code debug := by
  cases shows with
  | literal text => rfl
  | other _ always => exact always (c.withDebug debug)
  | @reference body source target accepted filled =>
    have listed : Directive.reference? ∈ Directive.readers := by simp [Directive.readers]
    have nonempty := Directive.isEmpty_of_reader listed accepted
    have read := Directive.ofBody_of_reader listed accepted
    have target_read : Reference.ofText? (c.filledBody body) = some target := by
      simpa [Directive.reference?] using filled
    have same : (c.withDebug debug).filledBody body = c.filledBody body := rfl
    have rendered : (c.withDebug debug).render body =
        (c.withDebug debug).renderReference (c.filledBody body) target := by
      simp [render, nonempty, read, same, target_read]
    rw [compileSegment, rendered, Piece.code_print]
    rfl

/-- One list of pieces gives both codes. -/
theorem exists_pieces (named : c.DefaultNamed) (segments : List Segment) :
    ∃ pieces : List Piece, List.Forall₂ c.Shows segments pieces ∧
      ∀ debug, ((c.withDebug debug).compile ⟨segments⟩).code =
        pieces.flatMap (Piece.code debug) := by
  induction segments with
  | nil => exact ⟨[], .nil, fun _ => rfl⟩
  | cons segment rest ih =>
    obtain ⟨piece, shows⟩ := exists_shows named segment
    obtain ⟨pieces, all, code⟩ := ih
    refine ⟨piece :: pieces, .cons shows all, ?_⟩
    intro debug
    rw [compile_cons, Output.code_append, shows.code, code, List.flatMap_cons]

end Compiler

/-- A text that can be noted in a comment: the comment goes on until the mark that is set behind
the note, whatever follows, and the code is not ended in it. -/
structure Text.Harmless (note : Text) : Prop where
  star : '*' ∉ note
  question : '?' ∉ note
  ends : ∀ rest, Text.cut "*/".toList (" ".toList ++ note ++ " */".toList ++ rest) =
    some (" ".toList ++ note ++ " ".toList, rest)
  stays : ¬ "?>".toList <:+: " ".toList ++ note ++ " */".toList

theorem Text.harmless_of_free {note : Text} (star : '*' ∉ note) (question : '?' ∉ note) :
    note.Harmless := by
  refine ⟨star, question, ?_, ?_⟩
  · intro rest
    have free : ¬ '*' :: ['/'] <:+: " ".toList ++ note ++ " ".toList := by
      intro inside
      have : '*' ∈ " ".toList ++ note ++ " ".toList := inside.subset List.mem_cons_self
      simp [star] at this
    have split : " ".toList ++ note ++ " */".toList ++ rest =
        " ".toList ++ note ++ " ".toList ++ ('*' :: ['/'] ++ rest) := by
      simp
    rw [split]
    exact cut_append_of_free (by decide) free rest
  · intro inside
    have : '?' ∈ " ".toList ++ note ++ " */".toList := inside.subset List.mem_cons_self
    simp [question] at this

theorem Compiler.harmless_filledBody {c : Compiler} (named : c.DefaultNamed) {body : Text}
    {source : Reference} (accepted : Directive.reference? body = some (.reference source)) :
    (c.filledBody body).Harmless := by
  obtain ⟨s, ok, rfl, -⟩ := Directive.reference?_eq_some_iff.mp accepted
  have filled := wellFormed_fillSpelling named ok
  rw [filledBody_text named ok]
  exact Text.harmless_of_free (filled.text_free (by decide) (by decide))
    (filled.text_free (by decide) (by decide))

/-- Debugging changes no count. The code is put together from the same pieces, of which only the
statements that print a reference have a note, and no note can end the comment or the code. -/
theorem debug_adds_closed_notes {c : Compiler} (reached : c.Reachable) (s : Text) :
    ((c.withDebug true).compileText s).skipped = ((c.withDebug false).compileText s).skipped ∧
    ((c.withDebug true).compileText s).unresolved =
      ((c.withDebug false).compileText s).unresolved ∧
    (∃ pieces : List Piece, List.Forall₂ c.Shows (Template.parse s).segments pieces ∧
      ((c.withDebug false).compileText s).code = pieces.flatMap (Piece.code false) ∧
      ((c.withDebug true).compileText s).code = pieces.flatMap (Piece.code true)) ∧
    ∀ (body : Text) (source : Reference),
      Directive.reference? body = some (.reference source) → (c.filledBody body).Harmless := by
  have named := reached.defaultNamed
  have on : (c.withDebug true).DefaultNamed := named
  have off : (c.withDebug false).DefaultNamed := named
  obtain ⟨pieces, all, code⟩ := Compiler.exists_pieces named (Template.parse s).segments
  refine ⟨?_, ?_, ⟨pieces, all, code false, code true⟩, ?_⟩
  · rw [Compiler.skipped_compileText on, Compiler.skipped_compileText off]
  · rw [Compiler.unresolved_compileText on, Compiler.unresolved_compileText off]
    rfl
  · intro body source accepted
    exact Compiler.harmless_filledBody named accepted

/-- The default is filled into the note; the comment and the directive that cannot be read leave
nothing behind. -/
theorem debug_adds_closed_notes_default :
    ∃ (c : Compiler) (pieces : List Piece), c.Reachable ∧
      List.Forall₂ c.Shows (Template.parse "a\x7b*c*\x7d\x7b$x|\x7d\x7b?\x7d".toList).segments
        pieces ∧
      pieces.flatMap (Piece.code false) = "a<?php echo f($x); ?>".toList ∧
      pieces.flatMap (Piece.code true) = "a<?php echo f($x); /* $x|h */ ?>".toList ∧
      Directive.reference? "$x|".toList = some (.reference ⟨.var "x".toList, [], []⟩) ∧
      c.filledBody "$x|".toList = "$x|h".toList ∧ Text.Harmless "$x|h".toList := by
  let c : Compiler := (Compiler.ofShared (Layer.empty.insert "h".toList
    (.wrap "f(".toList ")".toList))).perform (.setDefault "h".toList)
  have reached : c.Reachable :=
    (Compiler.Reachable.ofShared (.insert .empty "h".toList _)).perform trivial
  have accepted : Directive.reference? "$x|".toList =
      some (.reference ⟨.var "x".toList, [], []⟩) := by decide +kernel
  have filled : c.filledBody "$x|".toList = "$x|h".toList := by decide +kernel
  obtain ⟨-, -, ⟨pieces, all, off, on⟩, harmless⟩ :=
    debug_adds_closed_notes reached "a\x7b*c*\x7d\x7b$x|\x7d\x7b?\x7d".toList
  exact ⟨c, pieces, reached, all, off.symm.trans (by decide +kernel),
    on.symm.trans (by decide +kernel), accepted, filled, filled ▸ harmless _ _ accepted⟩

end BraceTemplate
