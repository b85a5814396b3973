/-
  Paths as texts.

  A path may be written with backslashes; here it is taken with slashes throughout, so that names of
  files and patterns for them compare the same way. Whatever stands between two slashes is a
  component.
-/

namespace Stache.Text

/-- The path `s` with slashes for backslashes. -/
def slashed (s : String) : String := s.map fun c => if c = '\\' then '/' else c

/-- What follows the last `c` in `s`, or all of `s`. -/
def afterLast (c : Char) (s : List Char) : List Char := (s.reverse.takeWhile (· ≠ c)).reverse

/-- What stands before the last `c` in `s`, or all of `s`. -/
def beforeLast (c : Char) (s : List Char) : List Char :=
  match s.reverse.dropWhile (· ≠ c) with
  | [] => s
  | _ :: front => front.reverse

/-- `s` without the slashes at its end. -/
def withoutSlashes (s : List Char) : List Char := (s.reverse.dropWhile (· = '/')).reverse

/-- The texts between the slashes of `s`, in order; there is one more of them than of slashes. -/
def components : List Char → List (List Char)
  | [] => [[]]
  | c :: s =>
    if c = '/' then [] :: components s
    else
      match components s with
      | [] => [[c]]
      | first :: others => (c :: first) :: others

end Stache.Text
