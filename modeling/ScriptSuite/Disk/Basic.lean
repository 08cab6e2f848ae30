/-!
# Disk/Basic — what the files around a suite look like from it

All that the program asks of a disk is what stands at a path: a file with its octets, something that
has a size but cannot be read, or nothing that could be reached, for some reason.  A `Disk` is the
function that answers this; it does not change while a suite is being read.
-/

namespace ScriptSuite

/-- Why nothing is reached at a path, or why it cannot be read as a file. -/
inductive DiskFault where
  | missing
  | notADirectory
  | isADirectory
  | nameTooLong
  /-- The path holds the character U+0000. -/
  | holdsNul
  /-- Any other reason, in the words of the system. -/
  | other (message : String)
  deriving DecidableEq, Repr

/-- The wording of a fault. -/
def DiskFault.message : DiskFault → String
  | .missing => "No such file or directory (os error 2)"
  | .notADirectory => "Not a directory (os error 20)"
  | .isADirectory => "Is a directory (os error 21)"
  | .nameTooLong => "File name too long (os error 36)"
  | .holdsNul => "file name contained an unexpected NUL byte"
  | .other message => message

/-- What stands at a path. -/
inductive Disk.Entry where
  | file (octets : List UInt8)
  /-- A directory, which has a size but cannot be read as a file. -/
  | directory (size : Nat)
  /-- Something else that has a size but cannot be read. -/
  | closed (size : Nat) (fault : DiskFault)
  | unreachable (fault : DiskFault)
  deriving DecidableEq

/-- The files around a suite. -/
def Disk := String → Disk.Entry

namespace Disk

/-- The size of what stands at a path. -/
def size (disk : Disk) (path : String) : Except DiskFault Nat :=
  match disk path with
  | .file octets => .ok octets.length
  | .directory size => .ok size
  | .closed size _ => .ok size
  | .unreachable fault => .error fault

/-- The octets of the file at a path. -/
def read (disk : Disk) (path : String) : Except DiskFault (List UInt8) :=
  match disk path with
  | .file octets => .ok octets
  | .directory _ => .error .isADirectory
  | .closed _ fault => .error fault
  | .unreachable fault => .error fault

end Disk

end ScriptSuite
