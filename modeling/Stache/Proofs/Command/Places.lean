/-
  Files and their places.

  1. **What a disk gains** — after some writes a disk has the files it had and the files that were
     made, of which the later ones come first; the directories are the same (`Disk.Gains`,
     `Disk.Gains.put`).

  2. **Paths depend on the directories only**, so a write does not change where the next one goes
     (`Disk.locate_of_directories`).

  3. **The map has a place of its own**: the paths of a module and of its map lead to the same
     directory, and differ in their last component (`Disk.locate_map_ne`).
-/
import Mathlib.Tactic.SplitIfs
import Stache.Command.Disk
import Stache.Proofs.Runs

namespace Stache.Command.Disk

variable {β : Type} {disk after : Disk β} {here place : List String} {path : String}

/-! ## What a disk gains -/

/-- A file that is put somewhere is found there, and all others are found as before. -/
theorem contents_put (disk : Disk β) (place place' : List String) (contents : β) :
    (disk.put place contents).contents place'
      = if place' = place then some contents else disk.contents place' := by
  rw [Disk.contents, put, List.find?_cons]
  by_cases h : place' = place
  · simp [h]
  · have hother : ((place, contents).1 = place' : Bool) = false := by simpa using Ne.symm h
    -- the files that were taken out are not the one that is looked for
    have hfilter : (disk.files.filter fun file => file.1 ≠ place).find? (fun file => file.1 = place')
        = disk.files.find? fun file => file.1 = place' := by
      rw [List.find?_filter]
      refine congrArg (List.find? · disk.files) (funext fun file => ?_)
      by_cases hfile : file.1 = place'
      · simp [hfile, h]
      · simp [hfile]
    simp only [hother, hfilter, if_neg h, Disk.contents]

/-- The disk `after` has the files `made`, of which the first ones count, and is otherwise the disk
    `disk`. -/
structure Gains (disk after : Disk β) (made : List (List String × β)) : Prop where
  directories : after.directories = disk.directories
  contents : ∀ place, after.contents place
    = ((made.find? fun file => file.1 = place).map Prod.snd).or (disk.contents place)

/-- A disk that is left alone gains nothing. -/
theorem Gains.nothing (disk : Disk β) : disk.Gains disk [] := ⟨rfl, fun _ => rfl⟩

/-- One more file is made. -/
theorem Gains.put {made : List (List String × β)} (h : disk.Gains after made)
    (place : List String) (contents : β) :
    disk.Gains (after.put place contents) ((place, contents) :: made) := by
  refine ⟨h.directories, fun place' => ?_⟩
  rw [contents_put, h.contents, List.find?_cons]
  by_cases hplace : place' = place
  · simp [hplace]
  · have hother : ((place, contents).1 = place' : Bool) = false := by simpa using Ne.symm hplace
    simp only [hother, if_neg hplace]

/-- A disk that gains one file. -/
theorem gains_put (disk : Disk β) (place : List String) (contents : β) :
    disk.Gains (disk.put place contents) [(place, contents)] :=
  (Gains.nothing disk).put place contents

/-! ## Paths -/

/-- A path that is followed to its end leads to the same place whatever the disk holds, as long as
    the directories are the same. -/
theorem follow_of_directories {γ : Type} {disk' : Disk γ}
    (h : disk'.directories = disk.directories) {components : List String}
    (hfollow : disk'.follow here components = .ok place) :
    disk.follow here components = .ok place := by
  induction components generalizing here with
  | nil => exact hfollow
  | cons component more ih =>
    rw [follow] at hfollow ⊢
    have hdirectory : disk'.isDirectory = disk.isDirectory := by
      funext place
      rw [isDirectory, isDirectory, h]
    rw [hdirectory] at hfollow
    dsimp only at hfollow ⊢
    split_ifs at hfollow ⊢
    · exact ih hfollow
    · exact ih hfollow
    · exact ih hfollow

/-- The place of a file is that of a directory, and the last component of the path. -/
theorem locate_eq_ok_iff : disk.locate here path = .ok place ↔
    path.isEmpty = false ∧ leadsToDirectory ((components path).getLastD "") = false
      ∧ disk.isDirectory place = false
      ∧ ∃ directory, disk.follow (start here path) (components path).dropLast = .ok directory
        ∧ place = directory ++ [(components path).getLastD ""] := by
  constructor
  · intro h
    rw [locate] at h
    split_ifs at h with hempty
    obtain ⟨directory, hfollow, h⟩ := exists_of_bind_ok h
    dsimp only at h
    split_ifs at h with hleads hplace
    obtain rfl := Except.ok.inj h
    exact ⟨by simpa using hempty, by simpa using hleads, by simpa using hplace, directory, hfollow,
      rfl⟩
  · rintro ⟨hempty, hleads, hplace, directory, hfollow, rfl⟩
    rw [locate, if_neg (by simp [hempty])]
    simp only [hfollow, bind, Except.bind, hleads, hplace, Bool.false_eq_true, if_false]
    rfl

/-- Where a path leads depends on the directories only. -/
theorem locate_of_directories {γ : Type} (disk' : Disk γ) (h : disk'.directories = disk.directories)
    (hlocate : disk'.locate here path = .ok place) : disk.locate here path = .ok place := by
  obtain ⟨hempty, hleads, hplace, directory, hfollow, heq⟩ := locate_eq_ok_iff.1 hlocate
  refine locate_eq_ok_iff.2 ⟨hempty, hleads, ?_, directory, follow_of_directories h hfollow, heq⟩
  rwa [isDirectory, h] at hplace

/-- A file is written where its path leads. -/
theorem locate_of_target (h : disk.target here path = .ok place) :
    disk.locate here path = .ok place := by
  rw [target] at h
  split at h
  · exact h
  · obtain ⟨_, -, h⟩ := exists_of_bind_ok h
    cases h

/-! ## The path of the map -/

/-- What is put behind a path, without a slash in it, goes into the last component. -/
theorem textComponents_append {s t : List Char} (ht : '/' ∉ t) :
    Text.components (s ++ t)
      = (Text.components s).dropLast ++ [(Text.components s).getLastD [] ++ t] := by
  -- there is always a last component,
  have hne (s : List Char) : Text.components s ≠ [] := by
    cases s with
    | nil => exact List.cons_ne_nil _ _
    | cons c s =>
      rw [Text.components]
      split
      · exact List.cons_ne_nil _ _
      · split <;> exact List.cons_ne_nil _ _
  -- a text without a slash is one,
  have hbare : Text.components t = [t] := by
    induction t with
    | nil => rfl
    | cons c t ih =>
      obtain ⟨hc, ht⟩ := not_or.1 (mt List.mem_cons.2 ht)
      rw [Text.components, if_neg (Ne.symm hc), ih ht]
  -- and so it only makes the last one longer
  induction s with
  | nil => simpa [Text.components] using hbare
  | cons c s ih =>
    obtain ⟨first, others, hs⟩ := List.exists_cons_of_ne_nil (hne s)
    rw [List.cons_append, Text.components, Text.components, ih, hs]
    by_cases hc : c = '/'
    · simp [hc]
    · simp only [if_neg hc]
      cases others with
      | nil => simp
      | cons second others => simp

/-- The same, for texts. -/
theorem components_append {path ending : String} (h : '/' ∉ ending.toList) :
    components (path ++ ending)
      = (components path).dropLast ++ [(components path).getLastD "" ++ ending] := by
  have hlast : ((Text.components path.toList).map String.ofList).getLastD ""
      = String.ofList ((Text.components path.toList).getLastD []) := List.getLastD_map ..
  rw [components, components, String.toList_append, textComponents_append h, List.map_append,
    List.map_dropLast, hlast]
  simp

/-- **The map has a place of its own**, beside the module. -/
theorem locate_map_ne {place' : List String} (h : disk.locate here path = .ok place)
    (h' : disk.locate here (path ++ ".map") = .ok place') : place' ≠ place := by
  obtain ⟨hempty, -, -, directory, hfollow, rfl⟩ := locate_eq_ok_iff.1 h
  obtain ⟨-, -, -, directory', hfollow', rfl⟩ := locate_eq_ok_iff.1 h'
  intro heq
  rw [components_append (by decide), List.getLastD_concat] at heq
  have hlast := (List.append_inj' heq rfl).2
  -- the last components are as long as each other, and one has `.map` behind the other
  have hlength := congrArg (fun names : List String => (names.map String.length).sum) hlast
  simp at hlength

end Stache.Command.Disk
