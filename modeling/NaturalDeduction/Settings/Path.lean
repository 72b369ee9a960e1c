/-
Paths of settings files.

A path is printed without the parts that lead nowhere: components that are
`.`, doubled slashes and slashes at the end.  A component `..` is kept.  The
empty path is printed as `.`.  Of several slashes in front one is kept, but
exactly two are kept both.
-/
import NaturalDeduction.Text.Split

namespace NaturalDeduction

namespace Path

/-- The components of a path that lead somewhere. -/
def components (path : String) : List String :=
  ((Text.pieces '/' path.toList).map String.ofList).filter fun c => c ≠ "" ∧ c ≠ "."

/-- The slashes in front of a path. -/
def root (path : String) : String :=
  match path.toList with
  | '/' :: '/' :: '/' :: _ => "/"
  | '/' :: '/' :: _ => "//"
  | '/' :: _ => "/"
  | _ => ""

/-- A path as it is printed. -/
def normal (path : String) : String :=
  let text := root path ++ "/".intercalate (components path)
  if text = "" then "." else text

/-! ### Files in a directory -/

/-- What stands at a path. -/
inductive Entry where
  | directory
  | file (text : String)
deriving DecidableEq, Repr

/-- Whether a list of components leads to a directory with one of the
files in it. -/
def isDirectory (files : List (String × String)) (dir : List String) : Bool :=
  dir.isEmpty || files.any fun (path, _) =>
    dir.isPrefixOf (components path) && dir.length < (components path).length

/-- What stands at the end of a list of components. -/
def entry? (files : List (String × String)) (target : List String) : Option Entry :=
  match files.find? fun (name, _) => components name = target with
  | some (_, text) => some (.file text)
  | none => if isDirectory files target then some .directory else none

/-- Follows components from a directory, which is given in reverse.  A
component `..` leaves a directory that exists.  Outside the starting directory
nothing is known but the directories above it. -/
def follow (files : List (String × String)) : (dir : List String) → List String →
    Option Entry
  | dir, [] => entry? files dir.reverse
  | [], ".." :: rest => if rest.all (· = "..") then some .directory else none
  | last :: dir, ".." :: rest =>
    if isDirectory files (last :: dir).reverse then follow files dir rest else none
  | dir, c :: rest => follow files (c :: dir) rest

/-- What a path leads to, in a directory with the given files. -/
def lookup (files : List (String × String)) (path : String) : Option Entry :=
  if root path = "" then follow files [] (components path)
  else if (components path).all (· = "..") then some .directory
  else none

end Path

end NaturalDeduction
