import BraceTemplate.Files.Lookup

/-! Making directories, files and links. -/
namespace BraceTemplate.FileSystem

/-- The directory in which a route's last name is made, and that name. A last step that is no
name stands for a directory that is there. -/
def newPlace (fs : FileSystem) (r : Route) : Except Cause (Location × FileName) :=
  match r.refusal? with
  | some cause => .error cause
  | none => do
    let (dir, _) ← fs.follow linkLimit (r.startFrom fs.home) r.steps.dropLast
    if fs.entry? dir = some .directory then
      match r.steps.getLast? with
      | some (.down name) =>
        if name.isTooLong then .error .nameTooLong
        else if (fs.entry? (dir ++ [name])).isSome then .error .alreadyExists
        else .ok (dir, name)
      | _ => .error .alreadyExists
    else .error .notDirectory

/-- Makes a directory; the one that it lies in must be there. -/
def makeDirectory (fs : FileSystem) (r : Route) : Except Cause FileSystem := do
  let (dir, name) ← fs.newPlace r
  return fs.put dir name .directory

/-- Makes a directory or finds one there. -/
def ensureDirectory (fs : FileSystem) (r : Route) : Except Cause FileSystem :=
  match fs.makeDirectory r with
  | .ok fs => .ok fs
  | .error cause => if fs.isDirectoryRoute r then .ok fs else .error cause

/-- Makes a directory, and first the ones that it lies in where they are missing. The pieces of
its path stand in reverse. What was made stays when a later one fails. -/
def makeDirectories : List Text → FileSystem → Except Cause Unit × FileSystem
  | [], fs => (.ok (), fs)
  | piece :: before, fs =>
    if Route.isIdle piece then makeDirectories before fs
    else match fs.ensureDirectory ⟨(piece :: before).reverse⟩ with
      | .ok fs => (.ok (), fs)
      | .error .notFound =>
        match makeDirectories before fs with
        | (.error cause, fs) => (.error cause, fs)
        | (.ok (), fs) =>
          match fs.ensureDirectory ⟨(piece :: before).reverse⟩ with
          | .ok fs => (.ok (), fs)
          | .error cause => (.error cause, fs)
      | .error cause => (.error cause, fs)

/-- Makes the directories that a path's last name lies in. -/
def makeParents (fs : FileSystem) (path : Text) : Except Cause Unit × FileSystem :=
  makeDirectories (Route.ofText path).aboveReversed fs

/-- Makes a directory with all directories that it lies in. A final dot is part of the path, so
that its directory is found but never made. -/
def makePath (fs : FileSystem) (path : Text) : Except Cause Unit × FileSystem :=
  if path.isEmpty then (.ok (), fs)
  else match fs.ensureDirectory (.ofText path) with
    | .ok fs => (.ok (), fs)
    | .error .notFound =>
      match fs.makeParents path with
      | (.error cause, fs) => (.error cause, fs)
      | (.ok (), fs) =>
        match fs.ensureDirectory (.ofText path) with
        | .ok fs => (.ok (), fs)
        | .error cause => (.error cause, fs)
    | .error cause => (.error cause, fs)

/-- The directory and the name under which a file is written. A link in its place leads on, also
one whose target is missing. -/
def writeTarget (fs : FileSystem) (links : Nat) (start : Location) (r : Route) :
    Except Cause (Location × FileName) :=
  match r.steps.getLast? with
  | some (.down name) =>
    match _ : fs.follow links start r.steps.dropLast with
    | .error cause => .error cause
    | .ok (dir, left) =>
      if fs.entry? dir = some .directory then
        if r.endsInSlash then .error .isDirectory
        else if name.isTooLong then .error .nameTooLong
        else match fs.entry? (dir ++ [name]) with
          | some .directory => .error .isDirectory
          | some (.link target) =>
            match left with
            | 0 => .error .tooManyLinks
            | left + 1 =>
              let next := Route.ofText target
              fs.writeTarget left (next.startFrom dir) next
          | _ => .ok (dir, name)
      else .error .notDirectory
  | _ =>
    match fs.follow links start r.steps with
    | .error cause => .error cause
    | .ok _ => .error .isDirectory
termination_by links
decreasing_by
  have := follow_links_le (by assumption)
  omega

/-- Writes a file, new or in place of the old one. -/
def writeBytes (fs : FileSystem) (path : Text) (bytes : ByteArray) : Except Cause FileSystem :=
  let r := Route.ofText path
  match r.refusal? with
  | some cause => .error cause
  | none => do
    let (dir, name) ← fs.writeTarget linkLimit (r.startFrom fs.home) r
    return fs.put dir name (.file bytes)

/-- Puts a link where nothing stands yet; its target must be a path. -/
def makeLink (fs : FileSystem) (path target : Text) : Except Cause FileSystem :=
  match (Route.ofText target).refusal? with
  | some cause => .error cause
  | none => do
    let r := Route.ofText path
    let (dir, name) ← fs.newPlace r
    if r.endsInSlash then .error .notFound
    else return fs.put dir name (.link target)

end BraceTemplate.FileSystem
