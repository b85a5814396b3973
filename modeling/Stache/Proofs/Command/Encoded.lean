/-
  A drive on which nothing goes wrong.

  Commands run on a disk of texts (`Disk.access`), and on a drive of bytes (`Drive.access`).  Where
  the files of the drive are ENCODED texts, and no operation meets with a bad fate, the two are the
  same.

  1. **One operation** — an encoded file is read back as the text it was, and a path leads to the
     same place on both (`Disk.locate_encoded`).

  2. **A command** does nothing but read and write, one operation after the other.  So two runs that
     agree on each operation agree on the whole (`Agree`), and that holds of every command
     (`agree_run`) and of the program (`execute_encoded`).
-/
import Stache.Proofs.Command.Writes

namespace Stache.Command

/-! ## Encoded disks -/

namespace Disk

/-- The disk on which every text is stored as its bytes. -/
def encoded (disk : Disk) : Disk ByteArray :=
  ⟨disk.directories, disk.files.map fun file => (file.1, file.2.toUTF8)⟩

/-- An encoded disk on which nothing will go wrong. -/
def drive (disk : Disk) : Drive := ⟨disk.encoded, []⟩

variable {disk : Disk} {here place : List String} {path text : String}

theorem contents_encoded (disk : Disk) (place : List String) :
    disk.encoded.contents place = (disk.contents place).map String.toUTF8 := by
  rw [contents, contents, encoded, List.find?_map, Option.map_map, Option.map_map]
  rfl

theorem put_encoded (disk : Disk) (place : List String) (text : String) :
    (disk.put place text).encoded = disk.encoded.put place text.toUTF8 := by
  simp only [put, encoded, List.map_cons, List.filter_map]
  rfl

/-- Directories are the same on both disks, -/
theorem follow_encoded (disk : Disk) (place components : List String) :
    disk.encoded.follow place components = disk.follow place components := by
  induction components generalizing place with
  | nil => rfl
  | cons component more ih =>
    rw [follow, follow]
    -- only the kind of an entry is looked at, never what it holds
    simp only [ih, contents_encoded, Option.isSome_map]
    rfl

/-- Paths lead to the same places. -/
theorem locate_encoded (disk : Disk) (here : List String) (path : String) :
    disk.encoded.locate here path = disk.locate here path := by
  simp only [locate, follow_encoded]
  rfl

theorem target_encoded (disk : Disk) (here : List String) (path : String) :
    disk.encoded.target here path = disk.target here path := by
  rw [target, target, locate_encoded, follow_encoded]

end Disk

/-- The bytes of a text are decoded to it. -/
theorem decoded_toUTF8 (text : String) : decoded text.toUTF8 = .ok text := by
  have hdecoded : String.fromUTF8? text.toUTF8 = some text := by
    rw [String.fromUTF8?, dif_pos (show text.toUTF8.IsValidUTF8 from text.isValidUTF8)]
    rfl
  rw [decoded, hdecoded]

/-! ## Runs that agree -/

/-- The two runs give the same result, on a disk and on its encoding, and leave the same behind. -/
def Agree {α : Type} (run : ExceptT Trouble (StateM Disk) α)
    (run' : ExceptT Trouble (StateM Drive) α) : Prop :=
  ∀ disk : Disk, run'.run.run disk.drive = (run.run.run disk).map id Disk.drive

namespace Agree

variable {α β : Type} {here : List String}

theorem pure (a : α) : Agree (Pure.pure a) (Pure.pure a) := fun _ => rfl

theorem lift (result : Except Bundle.Failure α) : Agree (lift result) (lift result) := fun _ => rfl

theorem throw (trouble : Trouble) : Agree (α := α) (throw trouble) (throw trouble) := fun _ => rfl

/-- Two steps, one after the other. -/
theorem bind {run : ExceptT Trouble (StateM Disk) α} {run' : ExceptT Trouble (StateM Drive) α}
    {next : α → ExceptT Trouble (StateM Disk) β} {next' : α → ExceptT Trouble (StateM Drive) β}
    (h : Agree run run') (hnext : ∀ a, Agree (next a) (next' a)) :
    Agree (run >>= next) (run' >>= next') := by
  intro disk
  rw [run_bind, run_bind, h disk]
  rcases run.run.run disk with ⟨result, after⟩
  cases result with
  | error trouble => rfl
  | ok a => exact hnext a after

/-- A file is read as the text that it is. -/
theorem read (path : String) :
    Agree (liftM ((Disk.access here).read path)) (liftM ((Drive.access here).read path)) := by
  intro disk
  have hread : disk.drive.read here path = disk.read here path := by
    rw [Drive.read, Disk.read, Disk.read, Disk.drive, Disk.locate_encoded]
    cases disk.locate here path with
    | error cause => rfl
    | ok place =>
      simp only [Bind.bind, Except.bind, Disk.contents_encoded]
      cases disk.contents place with
      | none => rfl
      | some text => exact decoded_toUTF8 text
  rw [run_liftM, run_liftM]
  change (Except.ok (disk.drive.read here path), _) = _
  rw [hread]
  rfl

/-- A text is written to the same file. -/
theorem write (path text : String) :
    Agree (liftM ((Disk.access here).write path text))
      (liftM ((Drive.access here).write path text)) := by
  intro disk
  rw [run_liftM, run_liftM, run_access_write, Drive.write, Disk.access, Disk.drive,
    Disk.target_encoded]
  simp only [StateT.run_bind, StateT.run_get, pure_bind, Disk.write]
  cases disk.target here path with
  | error cause => rfl
  | ok place =>
    change (Except.ok (Except.ok ()), (⟨disk.encoded.put place text.toUTF8, []⟩ : Drive)) = _
    rw [← Disk.put_encoded]
    rfl

end Agree

variable {here : List String} {place : Surroundings}

/-- A file is written alike, -/
theorem agree_writeFile (path text : String) :
    Agree (writeFile (Disk.access here) place path text)
      (writeFile (Drive.access here) place path text) :=
  .bind (.write _ text) fun result => by
    cases result with
    | error cause => exact .throw _
    | ok => exact .pure _

/-- and so is what a command gives out, on the disk or not. -/
theorem agree_deliver (path : Option String) (text : String) :
    Agree (deliver (Disk.access here) place path text)
      (deliver (Drive.access here) place path text) := by
  cases path with
  | none => exact .pure _
  | some path => exact .bind (agree_writeFile path text) fun _ => .pure _

/-- The settings are read alike, -/
theorem agree_readConfig (config : Option String) :
    Agree (readConfig (Disk.access here) place config)
      (readConfig (Drive.access here) place config) := by
  cases config with
  | none => exact .pure _
  | some path =>
    refine .bind (.read _) fun result => ?_
    cases result with
    | error cause => exact .throw _
    | ok text =>
      dsimp only
      cases Bundle.Settings.parse text with
      | error fault => exact .throw _
      | ok settings => exact .pure _

/-- and so is the template. -/
theorem agree_readTemplate (path : String) :
    Agree (readTemplate (Disk.access here) place path)
      (readTemplate (Drive.access here) place path) := by
  refine .bind (.read _) fun result => ?_
  cases result with
  | error cause => exact .throw _
  | ok text => exact .pure _

/-- **A command does the same** to a disk and to its encoding. -/
theorem agree_run (command : Command) :
    Agree (run (Disk.access here) place command) (run (Drive.access here) place command) := by
  -- one step of the command after the other, as `run` has them
  cases command with
  | compile input output id config hasMaps =>
    refine .bind (agree_readConfig config) fun settings => ?_
    refine .bind (agree_readTemplate input) fun source => ?_
    refine .bind (.lift _) fun plugin => .bind (.lift _) fun result => ?_
    cases result with
    | none => exact .throw _
    | some made =>
      refine .bind (agree_deliver output made.code) fun printed => ?_
      cases output with
      | none => exact .pure _
      | some path =>
        dsimp only
        cases plugin.plan.hasMaps with
        | false => exact .pure _
        | true => exact .bind (agree_writeFile _ _) fun _ => .pure _
  | helpers output config =>
    refine .bind (agree_readConfig config) fun settings => .bind (.lift _) fun plugin => ?_
    exact agree_deliver output _
  | partials input =>
    exact .bind (agree_readTemplate input) fun source => .bind (.lift _) fun template => .pure _

/-- **So does the program.** -/
theorem execute_encoded (place : Surroundings) (here arguments : List String) (disk : Disk) :
    (execute (Drive.access here) place arguments).run disk.drive
      = ((execute (Disk.access here) place arguments).run disk).map id Disk.drive := by
  rw [execute, execute]
  cases Request.ofArguments arguments with
  | none => rfl
  | some request =>
    cases request with
    | help => rfl
    | version => rfl
    | run command =>
      dsimp only
      rw [StateT.run_bind, StateT.run_bind, agree_run command disk]
      rfl

end Stache.Command
