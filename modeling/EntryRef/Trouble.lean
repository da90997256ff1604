import EntryRef.Text.Quoted

/-!
# Troubles

A trouble is a failure of what lies below archives: the system, the format of a file, or a value
that is not what it has to be. It has a kind, which decides who deals with it, and words.

* `Trouble.system` is a refusal of the system, known by its number,
* `Trouble.Kind.isSystem` and `Trouble.Kind.isReading` are the kinds that are dealt with where an
  archive is opened and where an entry is read.
-/

namespace EntryRef

open Text

/-- The kinds of troubles. -/
inductive Trouble.Kind
  /-- The system refuses, for a reason without a kind of its own. -/
  | system
  /-- The system finds no such file. -/
  | missing
  /-- The system does not permit it. -/
  | denied
  /-- A part of a path that has to be a directory is none. -/
  | notDirectory
  /-- What has to be a file is a directory. -/
  | isDirectory
  /-- What is to be made is there already. -/
  | taken
  /-- The system would have to wait. -/
  | wouldBlock
  /-- A signal interrupts the system. -/
  | interrupted
  /-- The system has waited too long. -/
  | timedOut
  /-- There is no such process. -/
  | noProcess
  /-- There is no child process. -/
  | noChild
  /-- Nobody reads what is written to a pipe. -/
  | brokenPipe
  /-- A connection fails, for a reason without a kind of its own. -/
  | connection
  /-- A connection is given up. -/
  | connectionAborted
  /-- A connection is refused. -/
  | connectionRefused
  /-- A connection is closed by the other side. -/
  | connectionReset
  /-- A file is not an archive, or an entry of it is damaged. -/
  | badArchive
  /-- Data end too early. -/
  | endOfData
  /-- Compressed data are damaged. -/
  | badCompression
  /-- An archive tells by itself that it cannot be read. -/
  | archive
  /-- An operation cannot go on. -/
  | unable
  /-- An operation is not supported. -/
  | unsupported
  /-- An operation nests too deeply. -/
  | tooDeep
  /-- There is nothing under a key. -/
  | noSuchKey
  /-- There is nothing at an index. -/
  | noSuchIndex
  /-- A value does not have such a part. -/
  | noSuchPart
  /-- A value is of the wrong kind. -/
  | wrongKind
  /-- A value is of the right kind and wrong. -/
  | wrongValue
  /-- There is no encoding of that name. -/
  | unknownEncoding
  /-- Bytes are not text. -/
  | notText
  /-- Another kind, which nobody deals with, of a name. -/
  | other (name : Text)
deriving DecidableEq

/-- A failure below archives. -/
structure Trouble where
  /-- The kind. -/
  kind : Trouble.Kind
  /-- What is shown of it. -/
  words : Text
deriving DecidableEq

namespace Trouble

/-- Does the system refuse? -/
def Kind.isSystem : Kind → Bool
  | .system | .missing | .denied | .notDirectory | .isDirectory | .taken | .wouldBlock
  | .interrupted | .timedOut | .noProcess | .noChild | .brokenPipe | .connection
  | .connectionAborted | .connectionRefused | .connectionReset => true
  | _ => false

/-- May a trouble of this kind come up where an entry is read? -/
def Kind.isReading : Kind → Bool
  | .badArchive | .endOfData | .badCompression | .archive | .unable | .unsupported
  | .tooDeep => true
  | k => k.isSystem

/-- What the system says for the numbers from 1 on. -/
def systemWords : List String :=
  [
    "Operation not permitted", "No such file or directory", "No such process",
    "Interrupted system call", "Input/output error", "No such device or address",
    "Argument list too long", "Exec format error", "Bad file descriptor", "No child processes",
    "Resource temporarily unavailable", "Cannot allocate memory", "Permission denied",
    "Bad address", "Block device required", "Device or resource busy", "File exists",
    "Invalid cross-device link", "No such device", "Not a directory", "Is a directory",
    "Invalid argument", "Too many open files in system", "Too many open files",
    "Inappropriate ioctl for device", "Text file busy", "File too large",
    "No space left on device", "Illegal seek", "Read-only file system", "Too many links",
    "Broken pipe", "Numerical argument out of domain", "Numerical result out of range",
    "Resource deadlock avoided", "File name too long", "No locks available",
    "Function not implemented", "Directory not empty", "Too many levels of symbolic links",
    "Unknown error 41", "No message of desired type", "Identifier removed",
    "Channel number out of range", "Level 2 not synchronized", "Level 3 halted", "Level 3 reset",
    "Link number out of range", "Protocol driver not attached", "No CSI structure available",
    "Level 2 halted", "Invalid exchange", "Invalid request descriptor", "Exchange full",
    "No anode", "Invalid request code", "Invalid slot", "Unknown error 58",
    "Bad font file format", "Device not a stream", "No data available", "Timer expired",
    "Out of streams resources", "Machine is not on the network", "Package not installed",
    "Object is remote", "Link has been severed", "Advertise error", "Srmount error",
    "Communication error on send", "Protocol error", "Multihop attempted", "RFS specific error",
    "Bad message", "Value too large for defined data type", "Name not unique on network",
    "File descriptor in bad state", "Remote address changed",
    "Can not access a needed shared library", "Accessing a corrupted shared library",
    ".lib section in a.out corrupted", "Attempting to link in too many shared libraries",
    "Cannot exec a shared library directly", "Invalid or incomplete multibyte or wide character",
    "Interrupted system call should be restarted", "Streams pipe error", "Too many users",
    "Socket operation on non-socket", "Destination address required", "Message too long",
    "Protocol wrong type for socket", "Protocol not available", "Protocol not supported",
    "Socket type not supported", "Operation not supported", "Protocol family not supported",
    "Address family not supported by protocol", "Address already in use",
    "Cannot assign requested address", "Network is down", "Network is unreachable",
    "Network dropped connection on reset", "Software caused connection abort",
    "Connection reset by peer", "No buffer space available",
    "Transport endpoint is already connected", "Transport endpoint is not connected",
    "Cannot send after transport endpoint shutdown", "Too many references: cannot splice",
    "Connection timed out", "Connection refused", "Host is down", "No route to host",
    "Operation already in progress", "Operation now in progress", "Stale file handle",
    "Structure needs cleaning", "Not a XENIX named type file", "No XENIX semaphores available",
    "Is a named type file", "Remote I/O error", "Disk quota exceeded", "No medium found",
    "Wrong medium type", "Operation canceled", "Required key not available", "Key has expired",
    "Key has been revoked", "Key was rejected by service", "Owner died", "State not recoverable",
    "Operation not possible due to RF-kill", "Memory page has hardware error"]

/-- What the system says for a number. -/
def systemMessage (code : Nat) : Text :=
  if code = 0 then "Success"
  else match systemWords[code - 1]? with
    | some words => words
    | none => "Unknown error " ++ ofNat code

/-- The kind of a refusal of the system. -/
def systemKind : Nat → Kind
  | 2 => .missing
  | 1 | 13 => .denied
  | 3 => .noProcess
  | 4 => .interrupted
  | 10 => .noChild
  | 11 | 114 | 115 => .wouldBlock
  | 17 => .taken
  | 20 => .notDirectory
  | 21 => .isDirectory
  | 32 | 108 => .brokenPipe
  | 103 => .connectionAborted
  | 104 => .connectionReset
  | 110 => .timedOut
  | 111 => .connectionRefused
  | _ => .system

/-- A refusal of the system, known by its number, and the path that it is about. -/
def system (code : Nat) (path : Option Text) : Trouble :=
  ⟨systemKind code, "[Errno " ++ ofNat code ++ "] " ++ systemMessage code ++
    match path with
    | some p => ": " ++ quoted p
    | none => []⟩

/-- Nothing is found under a key. -/
def noKey (key : Text) : Trouble := ⟨.noSuchKey, quoted key⟩

/-- A path with a null character, which the system cannot be asked about. -/
def nullCharacter : Trouble := ⟨.wrongValue, "embedded null byte"⟩

end Trouble

end EntryRef
