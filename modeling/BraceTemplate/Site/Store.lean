import BraceTemplate.Files.Change
import BraceTemplate.Settings.Reader

/-! Templates and settings are read from files, and code is written to them. -/
namespace BraceTemplate

inductive StoreError where
  | read (path : Text) (cause : Cause)
  | write (path : Text) (cause : Cause)
  | settings (path : Text) (fault : Fault)
  | noDirectory (path : Text)
  deriving DecidableEq, Repr

/-- What is wrong with a text of settings is not spelled out. -/
def StoreError.message : StoreError → Text
  | read path cause => "failed to read ".toList ++ path ++ ": ".toList ++ cause.message
  | write path cause => "failed to write ".toList ++ path ++ ": ".toList ++ cause.message
  | settings path _ => "invalid compiler options in ".toList ++ path ++ ": ".toList
  | noDirectory path => "template directory not found: ".toList ++ path

namespace FileSystem

/-- A file that cannot be read gives the empty template. -/
def readTemplate (fs : FileSystem) (path : Text) : Template :=
  match fs.readText path with
  | .ok source => .parse source
  | .error _ => .empty

def readSettings (fs : FileSystem) (path : Text) : Except StoreError Settings :=
  match fs.readText path with
  | .error cause => .error (.read path cause)
  | .ok text =>
    match Settings.read text with
    | .ok settings => .ok settings
    | .error fault => .error (.settings path fault)

/-- Makes the directories that the file lies in, then writes it. -/
def save (fs : FileSystem) (path code : Text) : Except StoreError Unit × FileSystem :=
  match fs.makeParents path with
  | (.error cause, fs) => (.error (.write path cause), fs)
  | (.ok (), fs) =>
    match fs.writeBytes path (Text.toUtf8 code) with
    | .error cause => (.error (.write path cause), fs)
    | .ok fs => (.ok (), fs)

end FileSystem
end BraceTemplate
