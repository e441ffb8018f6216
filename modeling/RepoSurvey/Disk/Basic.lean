import RepoSurvey.Disk.FileTree

/-!
# Disks

A disk is the tree of everything from the root directory, with what may be read and searched in it
and with the room that a survey has on the stack. Names are texts, so a name whose bytes are not
UTF-8 cannot be stated.
-/

namespace RepoSurvey

/-- What may be done with a file or a directory: a file may be read or not, a directory may be
listed or not, and what is in it may be looked up or not. -/
structure Rights where
  read : Bool := true
  search : Bool := true
  deriving DecidableEq, Repr

/-- How deeply a survey may nest before the stack is used up. The defaults are those of a survey
that is started at the outermost level of a program with a stack of 1000 frames. -/
structure Stack where
  /-- The links that are followed, each inside the one before, on the way to a repository. -/
  links : Nat := 991
  /-- The arrays and objects of a `package.json` that is read for its dependencies. -/
  dependencies : Nat := 989
  /-- The arrays and objects of a `package.json` that is read for its name. -/
  name : Nat := 988
  /-- The frames for the arrays and inline tables of a TOML text. -/
  tables : Nat := 986
  deriving DecidableEq, Repr

structure Disk where
  /-- The tree of everything from the root directory. -/
  tree : FileTree
  /-- The rights to what stands at a path without links. -/
  rights : List String → Rights := fun _ => {}
  stack : Stack := {}

namespace Disk

/-- What is read of the file at a path without links. -/
def contents? (disk : Disk) (place : List String) (bytes : List UInt8) : Option (List UInt8) :=
  if (disk.rights place).read then some bytes else none

/-- The disk with a file written at a path without links, which may be read. -/
def write (disk : Disk) (place : List String) (bytes : List UInt8) : Disk :=
  { disk with
    tree := disk.tree.put (.file bytes) place
    rights := fun p => if p = place then { disk.rights p with read := true } else disk.rights p }

end Disk

end RepoSurvey
