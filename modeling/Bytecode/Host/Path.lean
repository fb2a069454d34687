/-!
Paths to files: names with slashes between them, followed from left to right. A name before the
last one has to be a directory, and the only directories are the one a path starts from and those
above it. A path that is to create a file may not end in a slash.
-/

namespace Bytecode.Host

/-- Why a file cannot be opened or read. -/
inductive FileError where
  | notFound
  | notADirectory
  | isADirectory
  | nameTooLong
  | invalidPath
  | notText
  deriving DecidableEq, Repr

/-- Where a path leads. There need not be a file of that name yet. -/
inductive Target where
  | directory
  | file (name : String)
  deriving DecidableEq, Repr

namespace Path

/-- The most bytes that a name may have. -/
def nameLimit : Nat := 255

/-- The most bytes that a path may have. -/
def pathLimit : Nat := 4095

/-- The directory above one; a directory is written with a slash at its end, and the one that
paths start from as nothing. -/
def above (directory : String) : String :=
  if directory == "/" then directory else directory ++ "../"

/-- Follows the names of a path from a directory. `isFile` tells which files there are, and
`creating` whether the path may name a file that is not there. -/
def follow (isFile : String → Bool) (creating : Bool) (directory : String) :
    List String → Except FileError Target
  | [] => .ok .directory
  | name :: rest =>
    if name == "" || name == "." then follow isFile creating directory rest
    else if name == ".." then follow isFile creating (above directory) rest
    else if creating && !rest.isEmpty && rest.all (· == "") then .error .isADirectory
    else if nameLimit < name.utf8ByteSize then .error .nameTooLong
    else if rest.isEmpty then .ok (.file (directory ++ name))
    else .error (if isFile (directory ++ name) then .notADirectory else .notFound)

/-- Where a path leads, if it can be followed at all. -/
def target (isFile : String → Bool) (creating : Bool) (path : String) : Except FileError Target :=
  if path.toList.contains '\x00' then .error .invalidPath
  else if pathLimit < path.utf8ByteSize then .error .nameTooLong
  else follow isFile creating (if path.startsWith "/" then "/" else "") (path.splitOn "/")

end Path
end Bytecode.Host
