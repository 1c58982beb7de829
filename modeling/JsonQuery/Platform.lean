/-!
# The platform

What the program sees of the system that it runs on: the files, and what the system says to a
request for memory or to a write that it does not take. A path that leads nowhere has a reason, and
something that is there need not be readable.
-/

namespace JsonQuery

/-! ### Memory and output -/

/-- What is left to the system. Nothing is assumed of it. -/
class Platform where
  /-- whether there is room for an array of so many items -/
  hasRoom : Nat → Bool
  /-- what the system says of an output that takes no more -/
  refusal : String

/-- A system with room for all arrays of less than `2 ^ 58` items, whose disk may be full. Examples
are run on it. -/
instance samplePlatform : Platform where
  hasRoom count := count < Nat.pow 2 58
  refusal := "disk full"

/-! ### Files -/

inductive PathError where
  | noSuchFile
  | notDirectory
  | nameTooLong
  deriving DecidableEq, Repr

/-- The operating system's number and words. -/
def PathError.message : PathError → String
  | noSuchFile => "No such file or directory (os error 2)"
  | notDirectory => "Not a directory (os error 20)"
  | nameTooLong => "File name too long (os error 36)"

inductive FileContent where
  | missing (reason : PathError)
  /-- something that may not be opened -/
  | locked
  /-- a directory, which can be opened but not read -/
  | unreadable
  | bytes (content : ByteArray)

def FileContent.isPresent : FileContent → Bool
  | missing _ => false
  | _ => true

/-- The path of `name` in a directory. The empty path stands for the current directory. -/
def pathIn (directory name : String) : String :=
  if directory.isEmpty || directory.endsWith "/" then directory ++ name
  else directory ++ "/" ++ name

end JsonQuery
