/-
  A disk as a value.

  1. **Contents** — a disk has directories and files, both known by the components of their paths
     from the root. The root is always a directory. What a file holds is left open: a text, if
     nothing is said about it. There are no links and no devices.

  2. **Paths** — a path is followed component by component, from the root or from the working
     directory. Empty components and `.` stay, `..` goes up, and every other has to be a directory,
     except that the last may name a file.

  3. **Access** — files are read and written whole. Writing makes a file if there is none, but never
     a directory. On a disk of texts nothing else can go wrong; a disk on which it can is in
     `Command.Drive`.
-/
import Stache.Command.Files
import Stache.Text.Slash

namespace Stache.Command

/-- What is stored: directories, and files that hold a `β` each. -/
structure Disk (β : Type := String) where
  directories : List (List String)
  files : List (List String × β)
deriving DecidableEq, Repr

namespace Disk

variable {β : Type}

def isDirectory (disk : Disk β) (place : List String) : Bool :=
  place.isEmpty || disk.directories.contains place

/-- What the file at `place` holds. -/
def contents (disk : Disk β) (place : List String) : Option β :=
  (disk.files.find? fun file => file.1 = place).map Prod.snd

/-- The text of the file at `place`. -/
abbrev text (disk : Disk) (place : List String) : Option String := disk.contents place

/-- The disk with a file at `place`, instead of the one that may be there. -/
def put (disk : Disk β) (place : List String) (contents : β) : Disk β :=
  { disk with files := (place, contents) :: disk.files.filter fun file => file.1 ≠ place }

/-- Follows the components of a path from the directory `place` to another directory. -/
def follow (disk : Disk β) (place : List String) : List String → Except FileError (List String)
  | [] => .ok place
  | component :: more =>
    if component = "" || component = "." then disk.follow place more
    else if component = ".." then disk.follow place.dropLast more
    else
      let next := place ++ [component]
      if disk.isDirectory next then disk.follow next more
      else if (disk.contents next).isSome then .error .notDirectory
      else .error .notFound

/-- Where a path begins, when `here` is the working directory. -/
def start (here : List String) (path : String) : List String :=
  if path.startsWith "/" then [] else here

/-- The texts between the slashes of a path. -/
def components (path : String) : List String := (Text.components path.toList).map String.ofList

/-- Does a component lead to a directory, whatever the disk holds? -/
def leadsToDirectory (component : String) : Bool :=
  component = "" || component = "." || component = ".."

/-- The place of the file that a path names. -/
def locate (disk : Disk β) (here : List String) (path : String) :
    Except FileError (List String) := do
  if path.isEmpty then .error .notFound
  else
    let components := components path
    let place ← disk.follow (start here path) components.dropLast
    let last := components.getLastD ""
    if leadsToDirectory last then .error .isDirectory
    else
      let place := place ++ [last]
      if disk.isDirectory place then .error .isDirectory else return place

/-- The place of the file that is written under a path. A path that ends with a slash is that of a
    directory, and cannot be written even if there is nothing there. -/
def target (disk : Disk β) (here : List String) (path : String) :
    Except FileError (List String) := do
  let bare := String.ofList (Text.withoutSlashes path.toList)
  if bare = path then disk.locate here path
  else
    let _ ← disk.follow (start here path) (components bare).dropLast
    .error .isDirectory

/-- What the file holds that a path names. -/
def read (disk : Disk β) (here : List String) (path : String) : Except FileError β := do
  match disk.contents (← disk.locate here path) with
  | some contents => return contents
  | none => .error .notFound

/-- Writes a file whole. -/
def write (disk : Disk β) (here : List String) (path : String) (contents : β) :
    Except FileError (Disk β) := do
  return disk.put (← disk.target here path) contents

/-- Access to a disk with the working directory `here`. -/
def access (here : List String) : FileAccess (StateM Disk) where
  read path := do return (← get).read here path
  write path text := do
    match (← get).write here path text with
    | .ok disk => set disk; return .ok ()
    | .error e => return .error e

end Disk

end Stache.Command
