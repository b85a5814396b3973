/-
  What the commands do.

  A command reads everything before it writes anything. `compile` writes the module first and its
  source map second. A command prints at most one text, at its end; if it fails, it prints nothing
  and reports what it was about to do, followed by the cause. Printing itself is taken to succeed.
-/
import Stache.Bundle.Plugin
import Stache.Command.Arguments
import Stache.Command.Files

namespace Stache.Command

/-- Where a command runs. -/
structure Surroundings where
  /-- The home directory. -/
  home : Option String
  /-- The working directory. -/
  here : String

/-- Why a command fails. -/
inductive Trouble where
  /-- The options file cannot be read. -/
  | config (path : String) (cause : FileError)
  /-- The options file holds no options. -/
  | malformedConfig (path : String) (fault : Json.Fault)
  /-- The template cannot be read. -/
  | input (path : String) (cause : FileError)
  /-- A module or a map cannot be written. -/
  | output (path : String) (cause : FileError)
  /-- The patterns for templates leave the module out. -/
  | notTemplate (id : String)
  | plugin (failure : Bundle.Failure)

/-- What lies behind a failure, where that is known as a failure of its own. -/
def cause : Bundle.Failure → Option String
  | .compile (.options mistyped) => some mistyped.message
  | .pattern bad => some bad.fault.message
  | _ => none

/-- A report and its cause. Only the fault of an options file goes without one: the words for it are
    those of the JSON reader. -/
def Trouble.message : Trouble → String
  | .config path cause => "Failed to read options file: " ++ path ++ ": " ++ cause.message
  | .malformedConfig path _ => "Failed to parse options file as JSON: " ++ path
  | .input path cause => "Failed to read input file: " ++ path ++ ": " ++ cause.message
  | .output path cause => "Failed to write output to " ++ path ++ ": " ++ cause.message
  | .notTemplate id => id ++ " is not matched by the template include patterns"
  | .plugin failure =>
    Text.joined ": " (failure.message :: (cause failure).toList)

/-- A path in which a tilde in front stands for the home directory. -/
def Surroundings.expand (place : Surroundings) (path : String) : String :=
  match path.toList, place.home with
  | ['~'], some home => home
  | '~' :: '/' :: rest, some home => home ++ "/" ++ String.ofList rest
  | _, _ => path

section

variable {m : Type → Type} [Monad m] (files : FileAccess m) (place : Surroundings)

/-- Reads the settings of the plugin. -/
def readConfig : Option String → ExceptT Trouble m Bundle.Settings
  | none => return .default
  | some path => do
    let path := place.expand path
    match ← files.read path with
    | .error cause => throw (.config path cause)
    | .ok text =>
      match Bundle.Settings.parse text with
      | .error fault => throw (.malformedConfig path fault)
      | .ok settings => return settings

/-- Reads a template. -/
def readTemplate (path : String) : ExceptT Trouble m String := do
  let path := place.expand path
  match ← files.read path with
  | .error cause => throw (.input path cause)
  | .ok text => return text

/-- Writes a file for a command. -/
def writeFile (path text : String) : ExceptT Trouble m Unit := do
  let path := place.expand path
  match ← files.write path text with
  | .error cause => throw (.output path cause)
  | .ok () => return ()

/-- Writes a text to a file or, if none is given, leaves it to be printed. -/
def deliver (path : Option String) (text : String) : ExceptT Trouble m String :=
  match path with
  | none => return text ++ "\n"
  | some path => do
    writeFile files place path text
    return ""

/-- What the plugin gives, as a step of a command. -/
def lift {α : Type} (result : Except Bundle.Failure α) : ExceptT Trouble m α :=
  ExceptT.mk (pure (result.mapError .plugin))

/-- Runs a command, which gives the text to be printed. -/
def run : Command → ExceptT Trouble m String
  | .compile input output id config hasMaps => do
    let settings ← readConfig files place config
    -- `--no-source-map` is an option of the plugin like any other
    let settings := if hasMaps then settings else { settings with sourceMap := some (.bool false) }
    let source ← readTemplate files place input
    let id := id.getD input
    let plugin ← lift (Bundle.Plugin.ofSettings settings .standard place.here)
    match ← lift (plugin.transform source id) with
    -- a file the plugin leaves alone is an error on the command line
    | none => throw (.notTemplate id)
    | some bundled =>
      let printed ← deliver files place output bundled.code
      match output with
      | some path =>
        -- the map goes beside the script, and only where the script is a file
        if plugin.plan.hasMaps then writeFile files place (path ++ ".map") bundled.map.render
      | none => pure ()
      return printed
  | .helpers output config => do
    let settings ← readConfig files place config
    let plugin ← lift (Bundle.Plugin.ofSettings settings .standard place.here)
    deliver files place output (Bundle.renderHelpers plugin.plan.helpers)
  | .partials input => do
    let source ← readTemplate files place input
    let options := Json.insert "srcName" (.string input) []
    let template ← lift ((Compiler.standard.parse source options).mapError .compile)
    return String.join (template.partialNames.map (· ++ "\n"))

/-- What is left when the program has ended. -/
structure Outcome where
  exitCode : Nat
  output : String
  errors : String
deriving DecidableEq, Repr

/-- The ways to call the program. They stand for the help on a command as well, and for what is
    printed when the arguments stand for no request; the program has a text for each of these, in the
    words of the library that reads its arguments. -/
def usage : String :=
  Text.joined "\n" [
    "Usage:",
    "  hbs-precompiler compile -i INPUT [-o OUTPUT] [--id ID] [-c CONFIG] [--no-source-map]",
    "  hbs-precompiler helpers [-c CONFIG] [-o OUTPUT]",
    "  hbs-precompiler partials -i INPUT",
    "  hbs-precompiler help [COMMAND]",
    ""]

/-- The name and the version of the program. -/
def version : String := "hbs-precompiler 0.1.0\n"

/-- What a command comes to, that gives a text or fails. -/
def Outcome.ofResult : Except Trouble String → Outcome
  | .ok text => ⟨0, text, ""⟩
  | .error trouble => ⟨1, "", "Error: " ++ trouble.message ++ "\n"⟩

/-- Runs the program with some arguments. -/
def execute (arguments : List String) : m Outcome := do
  match Request.ofArguments arguments with
  | none => return ⟨2, "", usage⟩
  | some .help => return ⟨0, usage, ""⟩
  | some .version => return ⟨0, version, ""⟩
  | some (.run command) => return .ofResult (← (run files place command).run)

end

end Stache.Command
