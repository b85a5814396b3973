/-
  The arguments of the command line.

  A command comes first, then its flags in any order, each at most once. A flag has a long name
  behind two dashes, and may have a short one behind a single dash. The value of a flag is the next
  argument, or it is attached: behind an equals sign, which a short name can do without. An argument
  that begins with a dash is never a value, unless it is the dash alone. Nothing may follow two
  dashes alone.

  HELP may be asked for instead of a command, or among its flags. Arguments are read from left to
  right, and help is given as soon as it is asked for: what follows does not matter, nor whether a
  flag is missing, but whatever is wrong before it does.

  All of this is the behaviour of a library that reads the arguments, and is assumed of it.
-/

namespace Stache.Command

/-! ## Flags -/

/-- A flag that a command knows. -/
structure Flag where
  long : String
  short : Option Char
  hasValue : Bool
deriving DecidableEq, Repr

/-- A flag as it is given: by its long name, with its value. -/
abbrev Given := List (String × String)

/-- What an argument is. -/
inductive Argument where
  /-- A flag that needs no further argument. -/
  | complete (long value : String)
  /-- A flag whose value is the next argument. -/
  | awaiting (long : String)
  /-- Asks for help. -/
  | help
  | unknown
deriving DecidableEq, Repr

/-- A flag, given with what is attached to it. -/
def attach (flag : Flag) (attached : Option (List Char)) : Argument :=
  match flag.hasValue, attached with
  | true, none => .awaiting flag.long
  | true, some value => .complete flag.long (String.ofList value)
  | false, none => .complete flag.long ""
  | false, some _ => .unknown

/-- What follows an equals sign, if one is there. -/
def afterEquals : List Char → Option (List Char)
  | '=' :: s => some s
  | _ => none

/-- What stands behind a short name. -/
def attachedToShort : List Char → Option (List Char)
  | [] => none
  | s => some ((afterEquals s).getD s)

/-- What an argument is, to a command with these flags. Help has the short name `h`, which needs
    nothing behind it, so that more may stand there. -/
def readArgument (flags : List Flag) (text : String) : Argument :=
  match text.toList with
  | '-' :: '-' :: s =>
    let name := s.takeWhile (· ≠ '=')
    match flags.find? fun flag => flag.long.toList = name with
    | some flag => attach flag (afterEquals (s.dropWhile (· ≠ '=')))
    | none => if s = "help".toList then .help else .unknown
  | '-' :: c :: s =>
    match flags.find? fun flag => flag.short = some c with
    | some flag => attach flag (attachedToShort s)
    | none => if c = 'h' then .help else .unknown
  | _ => .unknown

/-- May the argument be the value of a flag? -/
def isValue (text : String) : Bool :=
  match text.toList with
  | '-' :: _ :: _ => false
  | _ => true

/-- What the arguments behind a command come to. -/
inductive Asked where
  | flags (given : Given)
  | help
deriving DecidableEq, Repr

/-- A further flag, if it is not given twice. -/
def Given.add (given : Given) (long value : String) : Option Given :=
  if long ∈ given.map Prod.fst then none else some (given ++ [(long, value)])

/-- Reads what follows a command, behind the flags that are `given`. -/
def readFlags (flags : List Flag) (given : Given) : List String → Option Asked
  | [] => some (.flags given)
  | ["--"] => some (.flags given)
  | text :: more =>
    match readArgument flags text, more with
    | .complete long value, more => do readFlags flags (← given.add long value) more
    | .awaiting long, value :: more =>
      if isValue value then do readFlags flags (← given.add long value) more else none
    | .awaiting _, [] => none
    | .help, _ => some .help
    | .unknown, _ => none

/-- The value of the flag `long`. -/
def Given.value (given : Given) (long : String) : Option String :=
  (given.find? fun flag => flag.1 = long).map Prod.snd

end Command

/-! ## Commands -/

inductive Command where
  /-- Compile a template into a module. Its name as a module is `id`, or else the path of the input.
      Without `output`, the module goes to the standard output. -/
  | compile (input : String) (output id config : Option String) (hasMaps : Bool)
  /-- Write the helpers module. -/
  | helpers (output config : Option String)
  /-- List the partials that a template calls. -/
  | partials (input : String)
deriving DecidableEq, Repr

namespace Command

/-- The template. -/
def inputFlag : Flag := ⟨"input", some 'i', true⟩
/-- Where a module goes. -/
def outputFlag : Flag := ⟨"output", some 'o', true⟩
/-- The settings of the plugin. -/
def configFlag : Flag := ⟨"config", some 'c', true⟩
/-- The name of a template as a module. -/
def idFlag : Flag := ⟨"id", none, true⟩
/-- Leaves source maps out. -/
def withoutMapsFlag : Flag := ⟨"no-source-map", none, false⟩

/-- The flags of `compile`. -/
def compileFlags : List Flag := [inputFlag, outputFlag, idFlag, configFlag, withoutMapsFlag]

/-- The compilation that some flags ask for. -/
def compilation (given : Given) : Option Command := do
  return .compile (← given.value inputFlag.long) (given.value outputFlag.long)
    (given.value idFlag.long) (given.value configFlag.long)
    (given.value withoutMapsFlag.long).isNone

/-- The helpers module that some flags ask for. -/
def helpersModule (given : Given) : Option Command :=
  some (.helpers (given.value outputFlag.long) (given.value configFlag.long))

/-- The list of partials that some flags ask for. -/
def partialsOf (given : Given) : Option Command := do
  return .partials (← given.value inputFlag.long)

end Command

/-! ## Requests -/

/-- What the program is asked for. -/
inductive Request where
  | run (command : Command)
  | help
  | version
deriving DecidableEq, Repr

namespace Request

open Command

/-- The request of the arguments behind a command with these flags. -/
def ofFlags (flags : List Flag) (command : Given → Option Command) (texts : List String) :
    Option Request := do
  match ← readFlags flags [] texts with
  | .flags given => return .run (← command given)
  | .help => return .help

/-- What the names behind `help` ask for. It knows the commands, and itself. -/
def ofHelp : List String → Option Request
  | [] => some .help
  | [name] => if name ∈ ["compile", "helpers", "partials", "help"] then some .help else none
  | _ => none

/-- What is asked for where a command should be. Of the names behind a single dash only the first
    counts, as both need nothing behind them. -/
def ofOption (text : String) : Option Request :=
  match text.toList with
  | '-' :: 'h' :: _ => some .help
  | '-' :: 'V' :: _ => some .version
  | _ => if text = "--help" then some .help else if text = "--version" then some .version else none

/-- The request that some arguments stand for, if they stand for one. -/
def ofArguments : List String → Option Request
  | "compile" :: texts => ofFlags compileFlags compilation texts
  | "helpers" :: texts => ofFlags [configFlag, outputFlag] helpersModule texts
  | "partials" :: texts => ofFlags [inputFlag] partialsOf texts
  | "help" :: texts => ofHelp texts
  | text :: _ => ofOption text
  | [] => none

end Request

end Stache
