/-
  Access to files.

  The command line reads and writes whole files, and the only thing it needs to know about a failure
  is how to report it. What files there are is left open: `FileAccess` is for any monad, so that
  commands run on the files of a machine and on a disk that is a plain value alike.
-/

namespace Stache.Command

/-- Why a file cannot be read or written. -/
inductive FileError where
  | notFound
  | notDirectory
  | isDirectory
  /-- Any other reason, in the words of the system. -/
  | other (text : String)
deriving DecidableEq, Repr

/-- The words of the system. -/
def FileError.message : FileError → String
  | .notFound => "No such file or directory (os error 2)"
  | .notDirectory => "Not a directory (os error 20)"
  | .isDirectory => "Is a directory (os error 21)"
  | .other text => text

/-- The two things a command does with files. -/
structure FileAccess (m : Type → Type) where
  read : (path : String) → m (Except FileError String)
  /-- Writes a file, which is made if there is none. -/
  write : (path text : String) → m (Except FileError Unit)

end Stache.Command
