/-!
# Files

A tree of directories and files, and what comes of opening a path in it. A path is resolved from the
root if it begins with a slash and from the working directory otherwise. A slash at the end of a
path demands a directory, and a directory cannot be read as a file.
-/

namespace Bnf

/-- A file with its content, or a directory with its named entries. -/
inductive FileTree where
  | file (content : ByteArray)
  | directory (entries : List (String × FileTree))

/-- Why a file cannot be read. -/
inductive OpenFailure where
  | noSuchFile
  | notPermitted
  | notDirectory
  | isDirectory
  | nameTooLong
  | other (number : Nat) (text : String)
  deriving Repr, DecidableEq

/-- The number by which a failure is known. -/
def OpenFailure.number : OpenFailure → Nat
  | noSuchFile => 2
  | notPermitted => 13
  | notDirectory => 20
  | isDirectory => 21
  | nameTooLong => 36
  | other number _ => number

/-- The text that describes a failure. -/
def OpenFailure.text : OpenFailure → String
  | noSuchFile => "No such file or directory"
  | notPermitted => "Permission denied"
  | notDirectory => "Not a directory"
  | isDirectory => "Is a directory"
  | nameTooLong => "File name too long"
  | other _ text => text

/-- The message of a failure. -/
def OpenFailure.message (failure : OpenFailure) : String :=
  "[Errno " ++ toString failure.number ++ "] " ++ failure.text

/-- A file tree and the names that lead from its root to the working directory. -/
structure FileSystem where
  root : FileTree
  working : List String

namespace FileSystem

/-- Follows names from the first of these trees, the others being the directories around it. The
empty name and the single dot stay, and two dots go to the directory around. -/
def follow (current : FileTree) (around : List FileTree) : List String → Except OpenFailure FileTree
  | [] => .ok current
  | name :: rest =>
    match current with
    | .file _ => .error .notDirectory
    | .directory entries =>
      if name = "" ∨ name = "." then follow current around rest
      else if name = ".." then
        match around with
        | [] => follow current [] rest
        | outer :: further => follow outer further rest
      else if name.utf8ByteSize > 255 then .error .nameTooLong
      else match entries.lookup name with
        | none => .error .noSuchFile
        | some entry => follow entry (current :: around) rest

/-- The content of the file at a path. -/
def read (system : FileSystem) (path : String) : Except OpenFailure ByteArray :=
  if path = "" then .error .noSuchFile
  else if path.utf8ByteSize ≥ 4096 then .error .nameTooLong
  else
    let names := path.splitOn "/"
    let names := if path.startsWith "/" then names else system.working ++ names
    match follow system.root [] names with
    | .ok (.file content) => .ok content
    | .ok (.directory _) => .error .isDirectory
    | .error failure => .error failure

end FileSystem

end Bnf
