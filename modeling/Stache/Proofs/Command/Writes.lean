/-
  What compiling from the command line leaves on the disk.

  A run of `compile` goes through two parts.  In the first it reads the settings and the template and
  makes a module of them (`bundled`); this may fail in many ways, and no file is touched.  Then it
  writes, at most twice: the module, and behind it the map.  All of this is about a drive on which
  every operation may fail, a write also in its middle.

  1. **The first part** only reads (`bundled_keeps`), since each of its steps does (`Keeps`).

  2. **One write** may end in three ways (`Writing`): it fails and leaves the disk as it is, it fails
     and leaves a file with a first part of what it should hold, or it does not fail and the file
     holds all of it.

  3. **Two writes** are taken one after the other (`writeBundled_ends`).  The two files are different
     ones, as their paths differ in the last component.  The one exception is an output that is the
     tilde alone: in its map's path the tilde stands for itself.

  4. **The two writes are not one.**  When the module is written and the map cannot be, the run fails
     and the module stays (`execute_compile_keeps_module`).  No other failure leaves anything behind
     but what a single write does (`execute_compile_gains`).
-/
import Stache.Command.Drive
import Stache.Command.Run
import Stache.Proofs.Command.Places

namespace Stache.Command

/-! ## Reading -/

/-- How a run goes on with what another one has left. -/
def goOn {σ α β : Type} (next : α → ExceptT Trouble (StateM σ) β) :
    Except Trouble α × σ → Except Trouble β × σ
  | (.ok a, state) => (next a).run.run state
  | (.error trouble, state) => (.error trouble, state)

theorem run_bind {σ α β : Type} (run : ExceptT Trouble (StateM σ) α)
    (next : α → ExceptT Trouble (StateM σ) β) (state : σ) :
    (run >>= next).run.run state = goOn next (run.run.run state) := by
  rw [ExceptT.run_bind, StateT.run_bind]
  obtain ⟨result, after⟩ := run.run.run state
  cases result <;> rfl

/-- A run that leaves the disk as it is, on any drive. -/
def Keeps {α : Type} (run : ExceptT Trouble (StateM Drive) α) : Prop :=
  ∀ drive, (run.run.run drive).2.disk = drive.disk

/-- An access to files, as a step of a command. -/
theorem run_liftM {σ α : Type} (action : StateM σ α) (state : σ) :
    (liftM action : ExceptT Trouble (StateM σ) α).run.run state
      = (.ok (action.run state).1, (action.run state).2) := rfl

namespace Keeps

variable {α β : Type}

theorem pure (a : α) : Keeps (Pure.pure a) := fun _ => rfl

theorem lift (result : Except Bundle.Failure α) : Keeps (lift result) := fun _ => rfl

theorem read (here : List String) (path : String) :
    Keeps (liftM ((Drive.access here).read path)) := fun _ => rfl

theorem throw (trouble : Trouble) :
    Keeps (throw trouble : ExceptT Trouble (StateM Drive) α) := fun _ => rfl

/-- Two steps that leave the disk as it is, one after the other. -/
theorem bind {run : ExceptT Trouble (StateM Drive) α} {next : α → ExceptT Trouble (StateM Drive) β}
    (h : Keeps run) (hnext : ∀ a, Keeps (next a)) : Keeps (run >>= next) := by
  intro drive
  have hrun := h drive
  rw [run_bind]
  rcases hended : run.run.run drive with ⟨result, after⟩
  rw [hended] at hrun
  cases result with
  | error trouble => exact hrun
  | ok a => exact (hnext a after).trans hrun

end Keeps

/-! ## Compiling -/

section

variable {m : Type → Type} [Monad m] (files : FileAccess m) (place : Surroundings)

/-- The module that is made of some files, before anything is written, and the plugin that makes
    it. -/
def bundled (input : String) (id config : Option String) (hasMaps : Bool) :
    ExceptT Trouble m (Bundle.Plugin × Bundle.Bundled) := do
  let settings ← readConfig files place config
  let settings := if hasMaps then settings else { settings with sourceMap := some (.bool false) }
  let source ← readTemplate files place input
  let plugin ← lift (Bundle.Plugin.ofSettings settings .standard place.here)
  match ← lift (plugin.transform source (id.getD input)) with
  | none => throw (.notTemplate (id.getD input))
  | some bundled => return (plugin, bundled)

/-- What is done with a module when it is made. -/
def writeBundled (output : Option String) (plugin : Bundle.Plugin) (bundled : Bundle.Bundled) :
    ExceptT Trouble m String := do
  let printed ← deliver files place output bundled.code
  match output with
  | some path =>
    if plugin.plan.hasMaps then writeFile files place (path ++ ".map") bundled.map.render
  | none => pure ()
  return printed

/-- To compile is to bundle first, and then to write. -/
theorem run_compile [LawfulMonad m] (input : String) (output id config : Option String)
    (hasMaps : Bool) :
    run files place (.compile input output id config hasMaps)
      = bundled files place input id config hasMaps >>= fun made =>
        writeBundled files place output made.1 made.2 := by
  rw [run, bundled]
  simp only [bind_assoc]
  refine bind_congr fun settings => bind_congr fun source => bind_congr fun plugin =>
    bind_congr fun result => ?_
  cases result with
  | none => simp
  | some bundled =>
    cases output <;> simp [writeBundled]

end

section

variable {place : Surroundings} {here : List String}

/-- Settings are only read. -/
theorem keeps_readConfig (config : Option String) :
    Keeps (readConfig (Drive.access here) place config) := by
  cases config with
  | none => exact .pure _
  | some path =>
    refine .bind (.read here _) fun result => ?_
    cases result with
    | error cause => exact .throw _
    | ok text =>
      dsimp only
      cases Bundle.Settings.parse text with
      | error fault => exact .throw _
      | ok settings => exact .pure _

/-- A template is only read. -/
theorem keeps_readTemplate (path : String) :
    Keeps (readTemplate (Drive.access here) place path) := by
  refine .bind (.read here _) fun result => ?_
  cases result with
  | error cause => exact .throw _
  | ok text => exact .pure _

/-- **Making a module only reads.** -/
theorem bundled_keeps (input : String) (id config : Option String) (hasMaps : Bool) :
    Keeps (bundled (Drive.access here) place input id config hasMaps) := by
  refine .bind (keeps_readConfig config) fun settings => ?_
  refine .bind (keeps_readTemplate input) fun source => ?_
  refine .bind (.lift _) fun plugin => .bind (.lift _) fun result => ?_
  cases result with
  | none => exact .throw _
  | some made => exact .pure _

end

/-! ## One write -/

/-- What there may be of a file when writing it has failed: a first part that is not all. -/
def FirstPart (part bytes : ByteArray) : Prop := ∃ count < bytes.size, part = bytes.extract 0 count

/-- How writing `bytes` to a file may end, with what result and on what disk. -/
inductive Writing (disk : Disk ByteArray) (here : List String) (path : String) (bytes : ByteArray) :
    Except FileError Unit → Disk ByteArray → Prop where
  /-- Nothing has changed. -/
  | refused (cause : FileError) : Writing disk here path bytes (.error cause) disk
  /-- The file is there, and holds too little. -/
  | torn (cause : FileError) {place : List String} {part : ByteArray}
      (located : disk.locate here path = .ok place) (first : FirstPart part bytes) :
      Writing disk here path bytes (.error cause) (disk.put place part)
  /-- The file is there, and holds all. -/
  | done {place : List String} (located : disk.locate here path = .ok place) :
      Writing disk here path bytes (.ok ()) (disk.put place bytes)

/-- **A write ends in one of these ways**, whatever its fate. -/
theorem Drive.write_ends (drive : Drive) (here : List String) (path text : String) :
    Writing drive.disk here path text.toUTF8 (drive.write here path text).1
      (drive.write here path text).2 := by
  rw [Drive.write]
  cases htarget : drive.disk.target here path with
  | error cause => exact .refused cause
  | ok place =>
    have hlocated := Disk.locate_of_target htarget
    cases drive.fates.headD .served with
    | served => exact .done hlocated
    | refused cause => exact .refused cause
    | brokenOff count cause =>
      dsimp only [Fate.write]
      split
      · exact .torn cause hlocated ⟨count, ‹_›, rfl⟩
      · exact .done hlocated

section

variable (place : Surroundings) (here : List String) (drive : Drive)

theorem run_access_write (path text : String) :
    ((Drive.access here).write path text).run drive
      = ((drive.write here path text).1, ⟨(drive.write here path text).2, drive.fates.tail⟩) := rfl

/-- A command's write, and its report where it fails. -/
theorem run_writeFile (path text : String) :
    ∃ result after fates, Writing drive.disk here (place.expand path) text.toUTF8 result after
      ∧ (writeFile (Drive.access here) place path text).run.run drive
        = (result.mapError (.output (place.expand path)), ⟨after, fates⟩) := by
  have hends := drive.write_ends here (place.expand path) text
  refine ⟨_, _, drive.fates.tail, hends, ?_⟩
  rw [writeFile, run_bind, run_liftM, run_access_write]
  cases (drive.write here (place.expand path) text).1 <;> rfl

end

/-! ### Tildes -/

namespace Surroundings

variable {place : Surroundings} {path : String}

/-- Paths without a tilde in front stand for themselves, -/
theorem expand_of_ne (htilde : path.toList ≠ ['~'])
    (hhome : ∀ rest, path.toList ≠ '~' :: '/' :: rest) : place.expand path = path := by
  rw [expand]
  split
  · exact absurd ‹_› htilde
  · exact absurd ‹_› (hhome _)
  · rfl

/-- and so do all of them without a home directory. -/
theorem expand_of_none (hnone : place.home = none) : place.expand path = path := by
  rw [expand, hnone]
  split
  · simp_all
  · simp_all
  · rfl

theorem expand_home {rest : List Char} {home : String} (hsome : place.home = some home)
    (hpath : path.toList = '~' :: '/' :: rest) :
    place.expand path = home ++ "/" ++ String.ofList rest := by
  simp only [expand, hpath, hsome]

/-- In the path of a map, only a tilde that is the whole path of the module stands for something
    else. -/
theorem expand_append_map (h : path ≠ "~") :
    place.expand (path ++ ".map") = place.expand path ++ ".map" := by
  have htilde : path.toList ≠ ['~'] := fun heq => h (String.toList_inj.1 heq)
  have htilde' : (path ++ ".map").toList ≠ ['~'] := by
    intro heq
    have := congrArg List.length heq
    simp at this
  cases hplace : place.home with
  | none => rw [expand_of_none hplace, expand_of_none hplace]
  | some home =>
    by_cases hhome : ∃ rest, path.toList = '~' :: '/' :: rest
    · obtain ⟨rest, hpath⟩ := hhome
      have hpath' : (path ++ ".map").toList = '~' :: '/' :: (rest ++ ".map".toList) := by
        rw [String.toList_append, hpath]
        rfl
      rw [expand_home hplace hpath, expand_home hplace hpath', String.ofList_append,
        String.ofList_toList, ← String.append_assoc]
    -- `.map` begins with neither a tilde nor a slash, so it adds no such beginning
    · have hhome' : ∀ rest, (path ++ ".map").toList ≠ '~' :: '/' :: rest := by
        intro rest heq
        rw [String.toList_append] at heq
        match hpath : path.toList, heq with
        | [], heq => simp at heq
        | [c], heq => simp at heq
        | c :: d :: rest', heq =>
          obtain ⟨rfl, rfl, -⟩ : c = '~' ∧ d = '/' ∧ _ := by simpa using heq
          exact hhome ⟨rest', hpath⟩
      rw [expand_of_ne htilde (not_exists.1 hhome), expand_of_ne htilde' hhome']

end Surroundings

/-! ## The module and its map -/

section

variable {place : Surroundings} {here texts : List String} {drive after : Drive}
  {plugin : Bundle.Plugin} {made : Bundle.Bundled} {path : String}

/-- What there is when `made` has been written to `path`: the module, and its map if source maps are
    on. -/
def Written (place : Surroundings) (here : List String) (disk : Disk ByteArray) (path : String)
    (plugin : Bundle.Plugin) (made : Bundle.Bundled) (after : Disk ByteArray) : Prop :=
  ∃ module, disk.locate here (place.expand path) = .ok module
    ∧ if plugin.plan.hasMaps then
        ∃ map, disk.locate here (place.expand (path ++ ".map")) = .ok map
          ∧ (path ≠ "~" → map ≠ module)
          ∧ disk.Gains after [(map, made.map.render.toUTF8), (module, made.code.toUTF8)]
      else disk.Gains after [(module, made.code.toUTF8)]

/-- What there is when writing the module has failed in its middle: a first part of it. -/
def Torn (place : Surroundings) (here : List String) (disk : Disk ByteArray) (path : String)
    (made : Bundle.Bundled) (after : Disk ByteArray) : Prop :=
  ∃ module part, disk.locate here (place.expand path) = .ok module
    ∧ FirstPart part made.code.toUTF8 ∧ disk.Gains after [(module, part)]

/-- What there is when the module has been written and writing the map has failed: the module, and
    perhaps a first part of the map. -/
def MapLost (place : Surroundings) (here : List String) (disk : Disk ByteArray) (path : String)
    (plugin : Bundle.Plugin) (made : Bundle.Bundled) (after : Disk ByteArray) : Prop :=
  plugin.plan.hasMaps = true
    ∧ ∃ module, disk.locate here (place.expand path) = .ok module
      ∧ (disk.Gains after [(module, made.code.toUTF8)]
        ∨ ∃ map part, disk.locate here (place.expand (path ++ ".map")) = .ok map
          ∧ (path ≠ "~" → map ≠ module) ∧ FirstPart part made.map.render.toUTF8
          ∧ disk.Gains after [(map, part), (module, made.code.toUTF8)])

/-- The place of a map is not that of its module. -/
theorem map_ne_module {disk : Disk ByteArray} {module map : List String}
    (hmodule : disk.locate here (place.expand path) = .ok module)
    (hmap : disk.locate here (place.expand (path ++ ".map")) = .ok map) (hpath : path ≠ "~") :
    map ≠ module := by
  rw [Surroundings.expand_append_map hpath] at hmap
  exact Disk.locate_map_ne hmodule hmap

/-- What a write of the map leaves, behind the module. -/
theorem mapEnds {disk after : Disk ByteArray} {module : List String}
    {result : Except FileError Unit} (hmaps : plugin.plan.hasMaps = true)
    (hmodule : disk.locate here (place.expand path) = .ok module)
    (h : Writing (disk.put module made.code.toUTF8) here (place.expand (path ++ ".map"))
      made.map.render.toUTF8 result after) :
    (∃ cause, result = .error cause) ∧ MapLost place here disk path plugin made after
      ∨ result = .ok () ∧ Written place here disk path plugin made after := by
  have hgains := Disk.gains_put disk module made.code.toUTF8
  -- the module's file is no directory, so the map goes where it would have gone before
  have hplace {map : List String} (hmap : (disk.put module made.code.toUTF8).locate here
      (place.expand (path ++ ".map")) = .ok map) :
      disk.locate here (place.expand (path ++ ".map")) = .ok map :=
    Disk.locate_of_directories (disk.put module made.code.toUTF8) rfl hmap
  cases h with
  | refused cause => exact .inl ⟨⟨cause, rfl⟩, hmaps, module, hmodule, .inl hgains⟩
  | torn cause hmap hfirst =>
    refine .inl ⟨⟨cause, rfl⟩, hmaps, module, hmodule, .inr ⟨_, _, hplace hmap, ?_, hfirst, ?_⟩⟩
    · exact map_ne_module hmodule (hplace hmap)
    · exact hgains.put _ _
  | done hmap =>
    refine .inr ⟨rfl, module, hmodule, ?_⟩
    rw [if_pos hmaps]
    exact ⟨_, hplace hmap, map_ne_module hmodule (hplace hmap), hgains.put _ _⟩

/-- How the program ends when it could not write to `path`. -/
def Unwritten (place : Surroundings) (path : String) (outcome : Outcome) : Prop :=
  ∃ cause, outcome = .ofResult (.error (.output (place.expand path) cause))

/-- **The ways in which writing may end.** -/
theorem writeBundled_ends {result : Except Trouble String}
    (h : (writeBundled (Drive.access here) place (some path) plugin made).run.run drive
      = (result, after)) :
    Unwritten place path (.ofResult result)
        ∧ (after.disk = drive.disk ∨ Torn place here drive.disk path made after.disk)
      ∨ Unwritten place (path ++ ".map") (.ofResult result)
        ∧ MapLost place here drive.disk path plugin made after.disk
      ∨ result = .ok "" ∧ Written place here drive.disk path plugin made after.disk := by
  obtain ⟨written, between, fates, hwriting, hrun⟩ :=
    run_writeFile place here drive path made.code
  have hdeliver : (deliver (Drive.access here) place (some path) made.code).run.run drive
      = goOn (fun _ => pure "") (written.mapError (.output (place.expand path)), ⟨between, fates⟩) :=
    by rw [deliver, run_bind, hrun]
  rw [writeBundled, run_bind, hdeliver] at h
  -- by how the first write ended: only after a whole one is there a second
  cases hwriting with
  | refused cause =>
    obtain ⟨rfl, rfl⟩ := Prod.mk.inj h
    exact .inl ⟨⟨cause, rfl⟩, .inl rfl⟩
  | torn cause hlocated hfirst =>
    obtain ⟨rfl, rfl⟩ := Prod.mk.inj h
    exact .inl ⟨⟨cause, rfl⟩, .inr ⟨_, _, hlocated, hfirst, Disk.gains_put _ _ _⟩⟩
  | done hlocated =>
    cases hmaps : plugin.plan.hasMaps with
    | false =>
      simp only [hmaps] at h
      obtain ⟨rfl, rfl⟩ := Prod.mk.inj h
      refine .inr (.inr ⟨rfl, _, hlocated, ?_⟩)
      rw [hmaps]
      exact Disk.gains_put _ _ _
    | true =>
      obtain ⟨written', last, fates', hwriting', hrun'⟩ := run_writeFile place here
        ⟨drive.disk.put _ made.code.toUTF8, fates⟩ (path ++ ".map") made.map.render
      -- and by how the second ended, if maps are on
      have hends := mapEnds hmaps hlocated hwriting'
      change goOn _ (Except.ok "", _) = _ at h
      rw [goOn] at h
      simp only [hmaps, if_true] at h
      rw [run_bind, hrun'] at h
      rcases hends with ⟨⟨cause, rfl⟩, hlost⟩ | ⟨rfl, hwritten⟩
      · obtain ⟨rfl, rfl⟩ := Prod.mk.inj h
        exact .inr (.inl ⟨⟨cause, rfl⟩, hlost⟩)
      · obtain ⟨rfl, rfl⟩ := Prod.mk.inj h
        exact .inr (.inr ⟨rfl, hwritten⟩)

/-! ## The whole run -/

/-- With the arguments `texts`, the module `made` is to be written to `output`. -/
def Makes (place : Surroundings) (here : List String) (drive : Drive) (texts : List String)
    (output : Option String) (plugin : Bundle.Plugin) (made : Bundle.Bundled) : Prop :=
  ∃ input id config hasMaps,
    Request.ofArguments ("compile" :: texts)
        = some (.run (.compile input output id config hasMaps))
      ∧ ((bundled (Drive.access here) place input id config hasMaps).run.run drive).1
        = .ok (plugin, made)

/-- What `compile` may ask for: a compilation, or help. -/
theorem ofArguments_compile {request : Request}
    (h : Request.ofArguments ("compile" :: texts) = some request) :
    request = .help
      ∨ ∃ input output id config hasMaps,
        request = .run (.compile input output id config hasMaps) := by
  obtain ⟨asked, -, h⟩ := Option.bind_eq_some_iff.1 h
  cases asked with
  | help => exact .inl (Option.some.inj h).symm
  | flags given =>
    obtain ⟨command, hcommand, h⟩ := Option.bind_eq_some_iff.1 h
    obtain ⟨input, -, hcommand⟩ := Option.bind_eq_some_iff.1 hcommand
    obtain rfl := Option.some.inj hcommand
    exact .inr ⟨_, _, _, _, _, (Option.some.inj h).symm⟩

/-- **How a run of `compile` ends**: before anything is written, or with a module. -/
theorem execute_compile_ends (place : Surroundings) (here texts : List String) (drive : Drive) :
    (∃ outcome after, (execute (Drive.access here) place ("compile" :: texts)).run drive
          = (outcome, after)
        ∧ after.disk = drive.disk
        ∧ (outcome.exitCode ≠ 0 ∨ Request.ofArguments ("compile" :: texts) = some .help))
      ∨ ∃ output plugin made fates, Makes place here drive texts output plugin made
        ∧ (execute (Drive.access here) place ("compile" :: texts)).run drive
          = Prod.map Outcome.ofResult (fun after => after)
            ((writeBundled (Drive.access here) place output plugin made).run.run
              ⟨drive.disk, fates⟩) := by
  rw [execute]
  -- arguments that are not understood and `--help` touch no file,
  cases hrequest : Request.ofArguments ("compile" :: texts) with
  | none => exact .inl ⟨_, _, rfl, rfl, .inl (by decide)⟩
  | some request =>
    obtain rfl | ⟨input, output, id, config, hasMaps, rfl⟩ := ofArguments_compile hrequest
    · exact .inl ⟨_, _, rfl, rfl, .inr rfl⟩
    -- and nothing is written before the bundle is made
    · have hkeeps : ((bundled (Drive.access here) place input id config hasMaps).run.run
          drive).2.disk = drive.disk := bundled_keeps input id config hasMaps drive
      have hended : (execute (Drive.access here) place ("compile" :: texts)).run drive
          = Prod.map Outcome.ofResult (fun after => after)
            (goOn (fun made => writeBundled (Drive.access here) place output made.1 made.2)
              ((bundled (Drive.access here) place input id config hasMaps).run.run drive)) := by
        rw [execute, hrequest]
        dsimp only
        rw [StateT.run_bind, run_compile, run_bind]
        rfl
      rw [execute, hrequest] at hended
      rcases hbundled : (bundled (Drive.access here) place input id config hasMaps).run.run drive
        with ⟨result, after⟩
      rw [hbundled] at hkeeps hended
      cases result with
      | error trouble => exact .inl ⟨_, _, hended, hkeeps, .inl (Nat.succ_ne_zero 0)⟩
      | ok made =>
        refine .inr ⟨output, made.1, made.2, after.fates,
          ⟨input, id, config, hasMaps, hrequest, congrArg Prod.fst hbundled⟩, ?_⟩
        rw [hended, ← hkeeps]
        rfl

/-- **What compiling leaves on the disk.**  A run that fails leaves the disk as it is, unless it is a
    write that fails: then the output may hold a first part of the module, or, if it is the map that
    cannot be written, the module and perhaps a first part of the map.  A run that does not fail has
    been asked for help, or has printed the module, or has put it where the output is to be; and if
    source maps are on, the map is put beside it, in a place of its own unless the output is a tilde
    alone.  Nothing else on the disk is new or different. -/
theorem execute_compile_gains (place : Surroundings) (here texts : List String) (drive : Drive) :
    let ended := (execute (Drive.access here) place ("compile" :: texts)).run drive
    (ended.1.exitCode ≠ 0 → ended.2.disk = drive.disk
      ∨ ∃ path plugin made, Makes place here drive texts (some path) plugin made
        ∧ (Unwritten place path ended.1 ∧ Torn place here drive.disk path made ended.2.disk
          ∨ Unwritten place (path ++ ".map") ended.1
            ∧ MapLost place here drive.disk path plugin made ended.2.disk))
    ∧ (ended.1.exitCode = 0 →
      Request.ofArguments ("compile" :: texts) = some .help ∧ ended.2.disk = drive.disk
      ∨ ∃ output plugin made, Makes place here drive texts output plugin made
        ∧ match output with
          | none => ended.2.disk = drive.disk ∧ ended.1.output = made.code ++ "\n"
          | some path => Written place here drive.disk path plugin made ended.2.disk
            ∧ ended.1.output = "") := by
  intro ended
  -- a run that ends before it writes leaves the disk alone
  rcases execute_compile_ends place here texts drive with ⟨outcome, after, h, hdisk, hwhy⟩
    | ⟨output, plugin, made, fates, hmakes, h⟩
  · have hended : ended = (outcome, after) := h
    rw [hended]
    refine ⟨fun _ => .inl hdisk, fun hzero => .inl ⟨?_, hdisk⟩⟩
    exact hwhy.resolve_left fun hfailed => hfailed hzero
  · rcases hwrite : (writeBundled (Drive.access here) place output plugin made).run.run
      ⟨drive.disk, fates⟩ with ⟨result, after⟩
    have hended : ended = (.ofResult result, after) := by
      rw [hwrite] at h
      exact h
    rw [hended]
    cases output with
    | none =>
      obtain ⟨rfl, rfl⟩ := Prod.mk.inj hwrite
      exact ⟨fun hexit => absurd rfl hexit,
        fun _ => .inr ⟨none, plugin, made, hmakes, rfl, rfl⟩⟩
    | some path =>
      -- a run that could not write has failed
      have hfails {path : String} (hunwritten : Unwritten place path (.ofResult result))
          (hzero : (Outcome.ofResult result).exitCode = 0) : False := by
        obtain ⟨cause, hcause⟩ := hunwritten
        rw [hcause] at hzero
        exact Nat.succ_ne_zero 0 hzero
      rcases writeBundled_ends hwrite with ⟨hunwritten, hdisk | htorn⟩ | ⟨hunwritten, hlost⟩
        | ⟨rfl, hwritten⟩
      · exact ⟨fun _ => .inl hdisk, fun hzero => (hfails hunwritten hzero).elim⟩
      · exact ⟨fun _ => .inr ⟨path, plugin, made, hmakes, .inl ⟨hunwritten, htorn⟩⟩,
          fun hzero => (hfails hunwritten hzero).elim⟩
      · exact ⟨fun _ => .inr ⟨path, plugin, made, hmakes, .inr ⟨hunwritten, hlost⟩⟩,
          fun hzero => (hfails hunwritten hzero).elim⟩
      · exact ⟨fun hexit => absurd rfl hexit,
          fun _ => .inr ⟨some path, plugin, made, hmakes, hwritten, rfl⟩⟩

/-- A drive with an empty template, and with a directory in the place of a map, where nothing else
    stands in the way. -/
def blocked : Drive :=
  ⟨⟨[["w"], ["w", "out.js.map"]], [(["w", "t.hbs"], "".toUTF8)]⟩, []⟩

/-- The template is written to the file whose map cannot be written, and to another one. -/
theorem execute_compile_gains_at_blocked :
    let place : Surroundings := ⟨some "/w", "/w"⟩
    let texts := ["-i", "t.hbs", "-o", "out.js"]
    let texts' := ["-i", "t.hbs", "-o", "~/other.js"]
    let lost := (execute (Drive.access ["w"]) place ("compile" :: texts)).run blocked
    let written := (execute (Drive.access ["w"]) place ("compile" :: texts')).run blocked
    lost.1.exitCode ≠ 0 ∧ written.1.exitCode = 0
      ∧ (lost.2.disk = blocked.disk
        ∨ ∃ path plugin made, Makes place ["w"] blocked texts (some path) plugin made
          ∧ (Unwritten place path lost.1 ∧ Torn place ["w"] blocked.disk path made lost.2.disk
            ∨ Unwritten place (path ++ ".map") lost.1
              ∧ MapLost place ["w"] blocked.disk path plugin made lost.2.disk))
      ∧ (Request.ofArguments ("compile" :: texts') = some .help ∧ written.2.disk = blocked.disk
        ∨ ∃ output plugin made, Makes place ["w"] blocked texts' output plugin made
          ∧ match output with
            | none => written.2.disk = blocked.disk ∧ written.1.output = made.code ++ "\n"
            | some path => Written place ["w"] blocked.disk path plugin made written.2.disk
              ∧ written.1.output = "") := by
  intro place texts texts' lost written
  have hlost : lost.1.exitCode ≠ 0 := by decide +kernel
  have hwritten : written.1.exitCode = 0 := by decide +kernel
  exact ⟨hlost, hwritten, (execute_compile_gains place ["w"] texts blocked).1 hlost,
    (execute_compile_gains place ["w"] texts' blocked).2 hwritten⟩

/-- **A run that fails leaves the module behind**, when there is a directory where its map is to
    be. -/
theorem execute_compile_keeps_module :
    let ended := (execute (Drive.access ["w"]) ⟨some "/w", "/w"⟩
      ["compile", "-i", "t.hbs", "-o", "out.js"]).run blocked
    ended.1 = ⟨1, "", "Error: Failed to write output to out.js.map: Is a directory (os error 21)\n"⟩
      ∧ blocked.disk.contents ["w", "out.js"] = none
      ∧ (ended.2.disk.contents ["w", "out.js"]).isSome = true := by
  decide +kernel

end

end Stache.Command
