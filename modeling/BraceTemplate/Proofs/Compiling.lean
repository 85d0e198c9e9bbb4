import BraceTemplate.Compiler
import BraceTemplate.Proofs.Counting

/-!
# Compiling as a sum over segments

Outputs are added up segment by segment, and the order of the additions does not
matter. What a template skips and which names it misses is read off its directives
alone; literal text only adds to the code.
-/
namespace BraceTemplate

namespace Output

@[simp] theorem code_append (a b : Output) : (a ++ b).code = a.code ++ b.code := rfl

@[simp] theorem skipped_append (a b : Output) : (a ++ b).skipped = a.skipped + b.skipped := rfl

@[simp] theorem unresolved_append (a b : Output) :
    (a ++ b).unresolved = a.unresolved.merge b.unresolved := rfl

theorem eq_of_fields {a b : Output} (code : a.code = b.code) (skipped : a.skipped = b.skipped)
    (unresolved : a.unresolved = b.unresolved) : a = b := by
  cases a
  cases b
  cases code
  cases skipped
  cases unresolved
  rfl

theorem append_assoc (a b c : Output) : a ++ b ++ c = a ++ (b ++ c) := by
  apply eq_of_fields
  · simp
  · simp [Nat.add_assoc]
  · exact Tally.merge_assoc _ _ _

theorem empty_append (a : Output) : empty ++ a = a := by
  apply eq_of_fields
  · rfl
  · exact Nat.zero_add a.skipped
  · exact Tally.empty_merge _

theorem append_empty (a : Output) : a ++ empty = a := by
  apply eq_of_fields
  · exact List.append_nil a.code
  · rfl
  · exact Tally.merge_empty _

end Output

namespace Template

@[simp] theorem directives_literal (text : Text) (rest : List Segment) :
    directives ⟨.literal text :: rest⟩ = directives ⟨rest⟩ := rfl

@[simp] theorem directives_directive (body : Text) (rest : List Segment) :
    directives ⟨.directive body :: rest⟩ = body :: directives ⟨rest⟩ := rfl

end Template

namespace Rendering

/-- The names that a directive used and that were not found. -/
def missing : Rendering → List Text
  | skipped => []
  | rendered _ missing => missing

theorem skipped_output (r : Rendering) : r.output.skipped = if r = skipped then 1 else 0 := by
  cases r with
  | skipped => rfl
  | rendered text missing => simp [output]

theorem unresolved_output (r : Rendering) : r.output.unresolved = Tally.ofNames r.missing := by
  cases r with
  | skipped => rfl
  | rendered text missing => rfl

end Rendering

namespace Compiler
variable (c : Compiler)

theorem compile_cons (segment : Segment) (rest : List Segment) :
    c.compile ⟨segment :: rest⟩ = c.compileSegment segment ++ c.compile ⟨rest⟩ := rfl

theorem compile_map {c c' : Compiler} {f : Segment → Segment}
    (same : ∀ segment, c'.compileSegment (f segment) = c.compileSegment segment)
    (segments : List Segment) : c'.compile ⟨segments.map f⟩ = c.compile ⟨segments⟩ := by
  induction segments with
  | nil => rfl
  | cons segment rest ih => rw [List.map_cons, compile_cons, compile_cons, same, ih]

/-- Text that stands together may be compiled apart. -/
theorem compile_literal_append (t u : Text) (rest : List Segment) :
    c.compile ⟨.literal (t ++ u) :: rest⟩ =
      c.compileSegment (.literal t) ++ c.compile ⟨.literal u :: rest⟩ := by
  have pieces : c.compileSegment (.literal (t ++ u)) =
      c.compileSegment (.literal t) ++ c.compileSegment (.literal u) := rfl
  rw [compile_cons, compile_cons, pieces, Output.append_assoc]

theorem skipped_compile (t : Template) :
    (c.compile t).skipped = t.directives.countP fun body => c.render body = .skipped := by
  obtain ⟨segments⟩ := t
  induction segments with
  | nil => rfl
  | cons segment rest ih =>
    rw [compile_cons, Output.skipped_append, ih]
    cases segment with
    | literal text => simp [compileSegment]
    | directive body =>
      simp [compileSegment, Rendering.skipped_output, List.countP_cons, Nat.add_comm]

theorem unresolved_compile (t : Template) :
    (c.compile t).unresolved =
      Tally.ofNames (t.directives.flatMap fun body => (c.render body).missing) := by
  obtain ⟨segments⟩ := t
  induction segments with
  | nil => rfl
  | cons segment rest ih =>
    rw [compile_cons, Output.unresolved_append, ih]
    cases segment with
    | literal text => exact Tally.empty_merge _
    | directive body =>
      simp [compileSegment, Rendering.unresolved_output, Tally.ofNames_append]

end Compiler
end BraceTemplate
