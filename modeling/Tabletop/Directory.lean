/-! Reading files by their paths, in a directory that holds files only. Of the directories around it
nothing is known but that they are there. -/

namespace Tabletop

/-- Why a file cannot be read. -/
inductive FileError where
  | missing
  | notDirectory
  | isDirectory
  | nameTooLong
  /-- Any other reason, in the words of the system. -/
  | other (reason : String)

def FileError.message : FileError → String
  | missing => "No such file or directory (os error 2)"
  | notDirectory => "Not a directory (os error 20)"
  | isDirectory => "Is a directory (os error 21)"
  | nameTooLong => "File name too long (os error 36)"
  | other reason => reason

/-- The files of a directory, by name. -/
structure Directory where
  files : List (String × String)

namespace Directory

/-- Where a path has led. -/
inductive Spot where
  | here
  | outside
  | file (contents : String)

/-- The bytes that one name may have. -/
def longestName : Nat := 255

/-- The bytes that a path may have. -/
def longestPath : Nat := 4095

/-- Follows one name of a path. Two slashes in a row have an empty name between them. -/
def follow (d : Directory) (spot : Spot) (name : String) : Except FileError Spot :=
  match spot with
  | .file _ => .error .notDirectory
  | spot =>
    if name = "" || name = "." then .ok spot
    else if name = ".." then .ok .outside
    else if longestName < name.utf8ByteSize then .error .nameTooLong
    else match spot, d.files.lookup name with
      | .here, some contents => .ok (.file contents)
      | _, _ => .error .missing

/-- The names in a path, some characters of the first one being known in reverse order. -/
def namesFrom (seen : List Char) : List Char → List String
  | [] => [String.ofList seen.reverse]
  | c :: rest =>
    if c = '/' then String.ofList seen.reverse :: namesFrom [] rest
    else namesFrom (c :: seen) rest

/-- The place that a path leads to. A path from the root starts with a slash. -/
def find (d : Directory) (path : String) : Except FileError Spot :=
  if path.isEmpty then .error .missing
  else if longestPath < path.utf8ByteSize then .error .nameTooLong
  else
    let start : Spot := if path.toList.head? == some '/' then .outside else .here
    (namesFrom [] path.toList).foldlM d.follow start

/-- The contents of the file at a path. -/
def read (d : Directory) (path : String) : Except FileError String := do
  match ← d.find path with
  | .file contents => return contents
  | _ => throw .isDirectory

end Directory

end Tabletop
