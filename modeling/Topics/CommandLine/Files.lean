import Topics.OrderedMap

/-! What reading a path gives, on a tree of directories and files. -/

namespace Topics.CommandLine

/-- Why a path cannot be read. -/
inductive ReadFault where
  /-- Nothing has the name. -/
  | missing
  /-- The file may not be read. -/
  | denied
  /-- A name behind a file. -/
  | notDirectory
  /-- A directory has no text. -/
  | isDirectory
  /-- A name or the whole path has too many bytes. -/
  | nameTooLong
  /-- The bytes of the file are no text. -/
  | notText
  /-- Any other fault, by the number that the system gives it. -/
  | other (code : Nat)
  deriving DecidableEq, Repr

namespace ReadFault

/-- The number and the text that the system gives a fault. -/
def system? : ReadFault → Option (Nat × String)
  | missing => some (2, "No such file or directory")
  | denied => some (13, "Permission denied")
  | notDirectory => some (20, "Not a directory")
  | isDirectory => some (21, "Is a directory")
  | nameTooLong => some (36, "File name too long")
  | notText => none
  | other code => some (code, s!"Unknown error {code}")

/-- The fault that the system gives a number. -/
def ofCode (code : Nat) : ReadFault :=
  let known := [missing, denied, notDirectory, isDirectory, nameTooLong]
  (known.find? fun fault => (fault.system?.map Prod.fst) == some code).getD (other code)

/-- The text of a fault. -/
def message (fault : ReadFault) : String :=
  match fault.system? with
  | some (code, text) => s!"{text} (os error {code})"
  | none => "stream did not contain valid UTF-8"

end ReadFault

/-- What a path can lead to. -/
inductive FileTree where
  | file (text : String)
  | directory (entries : List (String × FileTree))

namespace FileTree

/-- The most bytes that one name of a path can have. -/
def longestName : Nat := 255

/-- The most bytes that a path can have. -/
def longestPath : Nat := 4095

/-- Follows the names of a path; `around` are the directories around the place, innermost first. -/
def follow : (names : List String) → (place : FileTree) → (around : List FileTree) →
    Except ReadFault FileTree
  | [], place, _ => .ok place
  | _ :: _, file _, _ => .error .notDirectory
  | name :: rest, directory entries, around =>
    -- No name and a single dot stay in a directory, and two dots leave it, but never the root.
    if name = "" ∨ name = "." then follow rest (directory entries) around
    else if name = ".." then
      match around with
      | [] => follow rest (directory entries) []
      | outer :: more => follow rest outer more
    else if longestName < name.utf8ByteSize then .error .nameTooLong
    else match lookupEntry name entries with
      | some next => follow rest next (directory entries :: around)
      | none => .error .missing

/-- The text that a path leads to; one that does not start at the root starts at `working`. -/
def read (tree : FileTree) (working : List String) (path : String) : Except ReadFault String := do
  if longestPath < path.utf8ByteSize then throw .nameTooLong
  let start := if path.toList.head? = some '/' then [] else working
  match ← tree.follow (start ++ path.splitOn "/") [] with
  | file text => return text
  | directory _ => throw .isDirectory

end FileTree

end Topics.CommandLine
