/-!
# Input and output errors

What the operating system or a stream reports when reading or writing fails: a kind, and a text
that is the kind's own unless the source of the error gives another.
-/

namespace SharedClipboard

/-- What kind of failure it is. -/
inductive IoError.Kind where
  | unexpectedEnd
  | connectionReset
  | connectionAborted
  | connectionRefused
  | brokenPipe
  | notConnected
  | timedOut
  | permissionDenied
  | addressInUse
  | invalidData
  | wouldBlock
  | writeZero
  | notFound
  | alreadyExists
  | notADirectory
  | isADirectory
  | other
  deriving DecidableEq, Repr, Inhabited

def IoError.Kind.text : IoError.Kind → String
  | .unexpectedEnd => "unexpected end of file"
  | .connectionReset => "connection reset"
  | .connectionAborted => "connection aborted"
  | .connectionRefused => "connection refused"
  | .brokenPipe => "broken pipe"
  | .notConnected => "not connected"
  | .timedOut => "timed out"
  | .permissionDenied => "permission denied"
  | .addressInUse => "address in use"
  | .invalidData => "invalid data"
  | .wouldBlock => "operation would block"
  | .writeZero => "write zero"
  | .notFound => "entity not found"
  | .alreadyExists => "entity already exists"
  | .notADirectory => "not a directory"
  | .isADirectory => "is a directory"
  | .other => "other error"

structure IoError where
  kind : IoError.Kind
  text : String
  deriving DecidableEq, Repr, Inhabited

namespace IoError

/-- The error of a kind with the kind's own text. -/
def plain (kind : Kind) : IoError := ⟨kind, kind.text⟩

/-- The operating system found no such file. -/
def noSuchFile : IoError := ⟨.notFound, "No such file or directory (os error 2)"⟩

/-- A directory stands where a file belongs. -/
def directoryInTheWay : IoError := ⟨.isADirectory, "Is a directory (os error 21)"⟩

/-- A file stands where a directory belongs, on the way to another file. -/
def noDirectory : IoError := ⟨.notADirectory, "Not a directory (os error 20)"⟩

/-- A directory cannot be made because a file has its name. -/
def fileExists : IoError := ⟨.alreadyExists, "File exists (os error 17)"⟩

/-- Another listener holds the port. -/
def portTaken : IoError := ⟨.addressInUse, "Address already in use (os error 98)"⟩

/-- There is no way to the address. -/
def networkUnreachable : IoError := ⟨.other, "Network is unreachable (os error 101)"⟩

/-- This machine has no address from which the address could be reached. -/
def noSourceAddress : IoError := ⟨.other, "Cannot assign requested address (os error 99)"⟩

/-- The address is good on one link only, and none is given. -/
def noLinkGiven : IoError := ⟨.other, "Invalid argument (os error 22)"⟩

end IoError

end SharedClipboard
