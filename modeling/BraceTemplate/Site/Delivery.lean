import BraceTemplate.Files.Walk
import BraceTemplate.Site.Report
import BraceTemplate.Site.Store
import Std.Data.ExtTreeSet

/-! All templates of a directory are compiled into another directory, under the
same names but for the extension. They are found before anything is written, and
one that fails does not stop the others. -/
namespace BraceTemplate

def sourceExtension : Text := "tpl".toList

def targetExtension : Text := "php".toList

/-- A template's name up to and with the dot before its extension; there must be more than the
dot. -/
def templateStem? (name : Text) : Option Text :=
  let stem := name.take (name.length - sourceExtension.length)
  if sourceExtension.isSuffixOf name ∧ stem.getLast? = some '.' ∧ 1 < stem.length then some stem
  else none

/-- The name with the other extension. Two dots take none, since they are no name. -/
def targetName (stem : Text) : Text :=
  if stem = ['.', '.'] then stem else stem ++ targetExtension

/-- The name of the file at the end of the trail; without a trail it is the path's own. -/
def endName (path : Text) (trail : Location) : Text :=
  match trail.getLast? with
  | some name => name.text
  | none => Text.lastPiece path

/-- The same place below the output path, with the other extension. -/
def outputPath (output : Text) (trail : Location) : Text :=
  Text.below (Location.pathFrom output trail.dropLast)
    (targetName ((templateStem? (endName output trail)).getD []))

namespace FileSystem

/-- The names from a path to the templates at it or below it, sorted name by name. A file whose
path is too long to be opened does not count. -/
def templates (fs : FileSystem) (path : Text) : List Location :=
  (Std.ExtTreeSet.ofList ((fs.files path).filter fun trail =>
    fs.isFile (Location.pathFrom path trail) &&
      (templateStem? (endName path trail)).isSome)).toList

def templatePaths (fs : FileSystem) (path : Text) : List Text :=
  (fs.templates path).map (Location.pathFrom path)

end FileSystem

namespace Compiler

/-- Compiles one template into its place below the output path. -/
def deliverFile (c : Compiler) (source output : Text) (trail : Location) (fs : FileSystem) :
    Except FailedFile CompiledFile × FileSystem :=
  let path := Location.pathFrom source trail
  match fs.readText path with
  | .error cause => (.error ⟨path, (StoreError.read path cause).message⟩, fs)
  | .ok text =>
    let result := c.compileText text
    let target := outputPath output trail
    match fs.save target result.code with
    | (.error error, fs) => (.error ⟨path, error.message⟩, fs)
    | (.ok (), fs) => (.ok ⟨path, target, result.skipped, result.unresolved⟩, fs)

/-- Compiles the templates one after the other. -/
def deliverFiles (c : Compiler) (source output : Text) :
    List Location → FileSystem → List (Except FailedFile CompiledFile) × FileSystem
  | [], fs => ([], fs)
  | trail :: rest, fs =>
    let (first, fs) := c.deliverFile source output trail fs
    let (later, fs) := c.deliverFiles source output rest fs
    (first :: later, fs)

def deliver (c : Compiler) (source output : Text) (fs : FileSystem) :
    Except StoreError Report × FileSystem :=
  if fs.isDirectory source then
    let (outcomes, fs) := c.deliverFiles source output (fs.templates source) fs
    (.ok (.ofOutcomes outcomes), fs)
  else (.error (.noDirectory source), fs)

end Compiler
end BraceTemplate
