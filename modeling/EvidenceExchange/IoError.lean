namespace EvidenceExchange

inductive IoErrorKind where
  | notFound
  | permissionDenied
  | connectionRefused
  | connectionReset
  | brokenPipe
  | addrInUse
  | alreadyExists
  | wouldBlock
  | interrupted
  | timedOut
  | unexpectedEof
  | invalidInput
  | inputOutput
  | notADirectory
  | isADirectory
  | directoryNotEmpty
  | invalidFilename
  | filesystemLoop
  | other
  | uncategorized
  deriving DecidableEq

namespace IoErrorKind

def name : IoErrorKind → String
  | notFound => "NotFound"
  | permissionDenied => "PermissionDenied"
  | connectionRefused => "ConnectionRefused"
  | connectionReset => "ConnectionReset"
  | brokenPipe => "BrokenPipe"
  | addrInUse => "AddrInUse"
  | alreadyExists => "AlreadyExists"
  | wouldBlock => "WouldBlock"
  | interrupted => "Interrupted"
  | timedOut => "TimedOut"
  | unexpectedEof => "UnexpectedEof"
  | invalidInput => "InvalidInput"
  | inputOutput => "InputOutputError"
  | notADirectory => "NotADirectory"
  | isADirectory => "IsADirectory"
  | directoryNotEmpty => "DirectoryNotEmpty"
  | invalidFilename => "InvalidFilename"
  | filesystemLoop => "FilesystemLoop"
  | other => "Other"
  | uncategorized => "Uncategorized"

/-- The text of an error of which nothing but the kind is known. -/
def text : IoErrorKind → String
  | notFound => "entity not found"
  | permissionDenied => "permission denied"
  | connectionRefused => "connection refused"
  | connectionReset => "connection reset"
  | brokenPipe => "broken pipe"
  | addrInUse => "address in use"
  | alreadyExists => "entity already exists"
  | wouldBlock => "operation would block"
  | interrupted => "operation interrupted"
  | timedOut => "timed out"
  | unexpectedEof => "unexpected end of file"
  | invalidInput => "invalid input parameter"
  | inputOutput => "input/output error"
  | notADirectory => "not a directory"
  | isADirectory => "is a directory"
  | directoryNotEmpty => "directory not empty"
  | invalidFilename => "invalid filename"
  | filesystemLoop => "filesystem loop or indirection limit (e.g. symlink loop)"
  | other => "other error"
  | uncategorized => "uncategorized error"

def all : List IoErrorKind :=
  [notFound, permissionDenied, connectionRefused, connectionReset, brokenPipe, addrInUse, alreadyExists,
   wouldBlock, interrupted, timedOut, unexpectedEof, invalidInput, inputOutput, notADirectory,
   isADirectory, directoryNotEmpty, invalidFilename, filesystemLoop, other, uncategorized]

def ofName? (s : String) : Option IoErrorKind :=
  all.find? fun k => k.name == s

end IoErrorKind

inductive IoError where
  | system (number : Nat)
  | simple (kind : IoErrorKind)
  | custom (kind : IoErrorKind) (text : String)
  deriving DecidableEq

namespace IoError

/-- Kind and text of the system's error numbers. -/
def table : Nat → IoErrorKind × String
  | 1 => (.permissionDenied, "Operation not permitted")
  | 2 => (.notFound, "No such file or directory")
  | 4 => (.interrupted, "Interrupted system call")
  | 5 => (.inputOutput, "Input/output error")
  | 6 => (.uncategorized, "No such device or address")
  | 11 => (.wouldBlock, "Resource temporarily unavailable")
  | 13 => (.permissionDenied, "Permission denied")
  | 17 => (.alreadyExists, "File exists")
  | 20 => (.notADirectory, "Not a directory")
  | 21 => (.isADirectory, "Is a directory")
  | 22 => (.invalidInput, "Invalid argument")
  | 32 => (.brokenPipe, "Broken pipe")
  | 36 => (.invalidFilename, "File name too long")
  | 39 => (.directoryNotEmpty, "Directory not empty")
  | 40 => (.filesystemLoop, "Too many levels of symbolic links")
  | 98 => (.addrInUse, "Address already in use")
  | 104 => (.connectionReset, "Connection reset by peer")
  | 110 => (.timedOut, "Connection timed out")
  | 111 => (.connectionRefused, "Connection refused")
  | n => (.uncategorized, "Unknown error " ++ toString n)

def kind : IoError → IoErrorKind
  | system n => (table n).1
  | simple k => k
  | custom k _ => k

def number? : IoError → Option Nat
  | system n => some n
  | _ => none

def message : IoError → String
  | system n => (table n).2 ++ " (os error " ++ toString n ++ ")"
  | simple k => k.text
  | custom _ text => text

def noEntry : IoError := system 2
def noDevice : IoError := system 6
def alreadyExists : IoError := system 17
def notDirectory : IoError := system 20
def directory : IoError := system 21
def invalidArgument : IoError := system 22
def brokenPipe : IoError := system 32
def nameTooLong : IoError := system 36
def notEmpty : IoError := system 39
def tooManyLinks : IoError := system 40
def addressInUse : IoError := system 98
def connectionReset : IoError := system 104
def connectionRefused : IoError := system 111

def addressTooLong : IoError := custom .invalidInput "path must be shorter than SUN_LEN"
def addressHasNul : IoError := custom .invalidInput "paths must not contain interior null bytes"
def nameHasNul : IoError := custom .invalidInput "file name contained an unexpected NUL byte"

end IoError

end EvidenceExchange
