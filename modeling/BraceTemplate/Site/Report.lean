import BraceTemplate.Tally

/-! What became of each template of a directory. -/
namespace BraceTemplate

structure CompiledFile where
  source : Text
  output : Text
  skipped : Nat
  unresolved : Tally
  deriving DecidableEq

structure FailedFile where
  source : Text
  message : Text
  deriving DecidableEq, Repr

structure Report where
  files : List CompiledFile
  failures : List FailedFile
  deriving DecidableEq

namespace Report

/-- Files and failures keep the order of the outcomes. -/
def ofOutcomes (outcomes : List (Except FailedFile CompiledFile)) : Report where
  files := outcomes.filterMap Except.toOption
  failures := outcomes.filterMap fun
    | .ok _ => none
    | .error failure => some failure

def skipped (r : Report) : Nat := r.files.foldr (fun file n => file.skipped + n) 0

def unresolved (r : Report) : Tally :=
  r.files.foldl (fun total file => total.merge file.unresolved) ∅

def isClean (r : Report) : Bool :=
  r.failures.isEmpty && r.files.all fun file => file.skipped == 0 && file.unresolved.isEmpty

end Report
end BraceTemplate
