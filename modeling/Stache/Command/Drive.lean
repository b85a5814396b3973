/-
  A disk on which operations may fail.

  The system may fail to do what it is asked for although there is nothing wrong with the path: the
  disk is full, a file must not be opened, a device breaks. What it will do is a list of FATES, one
  for each operation to come, and whoever quantifies over drives has quantified over them.

  1. **Bytes** — files hold bytes. Writing a text writes its encoding in UTF-8, and reading one fails
     where the bytes are no such encoding.

  2. **Writing has two steps** — a file is opened, which makes it if there is none and empties it if
     there is one, and then it is filled. A write that is refused at the first step changes nothing.
     One that breaks off at the second leaves a file with the bytes written so far, which may be none
     and may end within a character.

  3. **A drive without bad fates** is the disk of texts in `Command.Disk`, encoded
     (`execute_encoded`, in `Proofs.Command.Encoded`).
-/
import Stache.Command.Disk

namespace Stache.Command

/-- How the system goes about an operation. -/
inductive Fate where
  /-- As it is asked to. -/
  | served
  /-- It does not open the file. -/
  | refused (cause : FileError)
  /-- It opens the file, and fails when `count` bytes of it are done, unless those are all. -/
  | brokenOff (count : Nat) (cause : FileError)
deriving DecidableEq, Repr

/-- A disk of bytes, and what awaits the operations to come, in their order. All operations behind
    the last fate are served. -/
structure Drive where
  disk : Disk ByteArray
  fates : List Fate

/-- The text that some bytes stand for. -/
def decoded (bytes : ByteArray) : Except FileError String :=
  match String.fromUTF8? bytes with
  | some text => .ok text
  | none => .error (.other "stream did not contain valid UTF-8")

namespace Fate

/-- Reads a file that holds `bytes`. -/
def read (fate : Fate) (bytes : ByteArray) : Except FileError String :=
  match fate with
  | .served => decoded bytes
  | .refused cause => .error cause
  | .brokenOff _ cause => .error cause

/-- Writes `bytes` to the file at `place`. -/
def write (fate : Fate) (disk : Disk ByteArray) (place : List String) (bytes : ByteArray) :
    Except FileError Unit × Disk ByteArray :=
  match fate with
  | .served => (.ok (), disk.put place bytes)
  | .refused cause => (.error cause, disk)
  | .brokenOff count cause =>
    if count < bytes.size then (.error cause, disk.put place (bytes.extract 0 count))
    else (.ok (), disk.put place bytes)

end Fate

namespace Drive

/-- Reads a file. A path that leads nowhere fails before its fate matters. -/
def read (drive : Drive) (here : List String) (path : String) : Except FileError String := do
  (drive.fates.headD .served).read (← drive.disk.read here path)

/-- Writes a file. -/
def write (drive : Drive) (here : List String) (path text : String) :
    Except FileError Unit × Disk ByteArray :=
  match drive.disk.target here path with
  | .ok place => (drive.fates.headD .served).write drive.disk place text.toUTF8
  | .error cause => (.error cause, drive.disk)

/-- Access to a drive with the working directory `here`. Each operation uses up a fate. -/
def access (here : List String) : FileAccess (StateM Drive) where
  read path := fun drive => (drive.read here path, { drive with fates := drive.fates.tail })
  write path text := fun drive =>
    (drive.write here path text).map id fun disk => ⟨disk, drive.fates.tail⟩

end Drive

end Stache.Command
