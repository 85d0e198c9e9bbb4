import BraceTemplate.Files.System
import BraceTemplate.Text.Utf8

/-! Following a path. Every step starts from a directory; a link stands for the
path that it holds, taken from the directory that it lies in, and at most forty
links are followed on the way. -/
namespace BraceTemplate

def Route.startFrom (r : Route) (home : Location) : Location :=
  if r.isAbsolute then [] else home

namespace FileSystem

def linkLimit : Nat := 40

/-- Where the steps lead as long as no link is met; the rest of the way after a link is left to
`jump`, which gets the directory of the link, its target and the steps that remain. -/
def descend (fs : FileSystem) (links : Nat)
    (jump : Location → Text → List PathStep → Except Cause (Location × Nat))
    (here : Location) : List PathStep → Except Cause (Location × Nat)
  | [] => .ok (here, links)
  | step :: rest =>
    if fs.entry? here = some .directory then
      match step with
      | .stay => fs.descend links jump here rest
      | .up => fs.descend links jump here.dropLast rest
      | .down name =>
        if name.isTooLong then .error .nameTooLong
        else match fs.entry? (here ++ [name]) with
          | none => .error .notFound
          | some (.link target) => jump here target rest
          | some _ => fs.descend links jump (here ++ [name]) rest
    else .error .notDirectory

/-- Where the steps lead, and how many links may still be followed. -/
def follow (fs : FileSystem) : Nat → Location → List PathStep → Except Cause (Location × Nat)
  | 0 => fs.descend 0 fun _ _ _ => .error .tooManyLinks
  | left + 1 => fs.descend (left + 1) fun here target rest =>
    let r := Route.ofText target
    fs.follow left (r.startFrom here) (r.walk ++ rest)

theorem descend_links_le {fs : FileSystem} {links left : Nat}
    {jump : Location → Text → List PathStep → Except Cause (Location × Nat)}
    (jumps : ∀ here target rest found, jump here target rest = .ok (found, left) → left ≤ links)
    {here found : Location} {steps : List PathStep}
    (h : fs.descend links jump here steps = .ok (found, left)) : left ≤ links := by
  induction steps generalizing here with
  | nil => cases h; exact Nat.le_refl _
  | cons step rest ih =>
    unfold descend at h
    split at h
    · split at h
      · exact ih h
      · exact ih h
      · split at h
        · cases h
        · split at h
          · cases h
          · exact jumps _ _ _ _ h
          · exact ih h
    · cases h

theorem follow_links_le {fs : FileSystem} {links left : Nat} {here found : Location}
    {steps : List PathStep} (h : fs.follow links here steps = .ok (found, left)) :
    left ≤ links := by
  induction links generalizing here found steps with
  | zero => exact descend_links_le (fun _ _ _ _ hj => by cases hj) h
  | succ links ih => exact descend_links_le (fun _ _ _ _ hj => Nat.le_succ_of_le (ih hj)) h

/-- The entry that a route leads to. -/
def locateRoute (fs : FileSystem) (r : Route) : Except Cause Location :=
  match r.refusal? with
  | some cause => .error cause
  | none => (fs.follow linkLimit (r.startFrom fs.home) r.walk).map Prod.fst

def isDirectoryRoute (fs : FileSystem) (r : Route) : Bool :=
  match fs.locateRoute r with
  | .ok l => fs.entry? l = some .directory
  | .error _ => false

/-- The entry that a path leads to. -/
def locate (fs : FileSystem) (path : Text) : Except Cause Location :=
  fs.locateRoute (.ofText path)

def isDirectory (fs : FileSystem) (path : Text) : Bool := fs.isDirectoryRoute (.ofText path)

def isFile (fs : FileSystem) (path : Text) : Bool :=
  match fs.locate path with
  | .ok l => (fs.entry? l).any Entry.isFile
  | .error _ => false

def readBytes (fs : FileSystem) (path : Text) : Except Cause ByteArray := do
  match fs.entry? (← fs.locate path) with
  | some (.file bytes) => .ok bytes
  | some .directory => .error .isDirectory
  | _ => .error .notFound

def readText (fs : FileSystem) (path : Text) : Except Cause Text := do
  match Text.ofUtf8? (← fs.readBytes path) with
  | some t => .ok t
  | none => .error .notText

end FileSystem
end BraceTemplate
