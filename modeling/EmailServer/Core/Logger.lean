import EmailServer.Library.Cascade
import EmailServer.Library.Trace
import EmailServer.Library.Bytes

/-! # The log file

The logger appends to one file and rotates it when it has grown large: the file gets a number,
and the files that have one get the next one. Paths name different files if they are
different. What can fail is in `LogIo`; a stream that is open takes every line.

Where a file cannot be renamed `log` throws. The models of its callers let it where that changes
what they do: `RetryWorker::runOnce`, `SmtpDeliveryClient`, `ShutdownCoordinator::initiateShutdown`,
`readLine` and `handleData` of `SmtpSession`, `moveToQuarantine` and `deleteMessage` of `MailStore`.
Elsewhere such a line ends a call, or the process, where it stands, and is left out.
-/

namespace EmailServer.Core

open Cascade (move Holds)

inductive LogLevel where
  | debug
  | info
  | warn
  | error
  deriving DecidableEq

namespace LogLevel

def rank : LogLevel → Nat
  | .debug => 0
  | .info => 1
  | .warn => 2
  | .error => 3

def levelToString : LogLevel → Bytes
  | .debug => ascii "DEBUG"
  | .info => ascii "INFO"
  | .warn => ascii "WARN"
  | .error => ascii "ERROR"

end LogLevel

abbrev LogFiles := Bytes → Option Bytes

/-- What the file system does in a call. -/
structure LogIo where
  /-- Whether a file can be renamed. -/
  renames : Bytes → Bytes → Bool
  /-- Whether the log can be opened anew. -/
  opens : Bool

/-- The logger and the files. -/
structure Logger where
  level : LogLevel := .info
  logPath : Bytes := []
  /-- `out_` is open. -/
  isOpen : Bool := false
  fileSize : Nat := 0
  files : LogFiles

namespace Logger

/-- 100 MB -/
def maxSize : Nat := 100 * 1024 * 1024

/-- `<base>.log.<i>` -/
def rotated (base : Bytes) (i : Nat) : Bytes := base ++ ascii ".log." ++ toDecimal i

/-- A file that is there is renamed. A failure is an exception, here with the files as they are. -/
def renameIfThere (io : LogIo) (old next : Bytes) (files : LogFiles) : Except LogFiles LogFiles :=
  if (files old).isSome then
    if io.renames old next then .ok (move old next files) else .error files
  else .ok files

/-- The loop from `i` down to one. -/
def shift (io : LogIo) (base : Bytes) : Nat → LogFiles → Except LogFiles LogFiles
  | 0, files => .ok files
  | i + 1, files =>
      (renameIfThere io (rotated base (i + 1)) (rotated base (i + 2)) files).bind (shift io base i)

/-- `open` with `ios::app`. -/
def openAppend (opens : Bool) (path : Bytes) (files : LogFiles) : LogFiles :=
  if opens then Function.update files path (some ((files path).getD [])) else files

/-- After an exception the stream is closed. -/
def rotateIfNeeded (io : LogIo) (s : Logger) : Except Logger Logger :=
  if !s.isOpen || s.fileSize < maxSize then .ok s
  else
    match (shift io s.logPath 5 s.files).bind
        (renameIfThere io s.logPath (rotated s.logPath 1)) with
    | .error files => .error { s with isOpen := false, files := files }
    | .ok files =>
        .ok { s with isOpen := io.opens, fileSize := 0, files := openAppend io.opens s.logPath files }

/-- `stamp` is the time as `std::put_time` prints it. -/
def line (level : LogLevel) (message stamp : Bytes) : Bytes :=
  stamp ++ ascii " [" ++ level.levelToString ++ ascii "] " ++ message ++ [Bytes.lf]

/-- Without an open stream the line goes to `std::cout`. -/
def writeToStream (text : Bytes) (s : Logger) : Logger :=
  if s.isOpen then
    { s with files := Function.update s.files s.logPath (some ((s.files s.logPath).getD [] ++ text)) }
  else s

/-- An exception leaves `log` before anything is written. -/
def log (io : LogIo) (level : LogLevel) (message stamp : Bytes) (s : Logger) : Logger :=
  if level.rank < s.level.rank then s
  else
    match rotateIfNeeded io s with
    | .error s => s
    | .ok s =>
        { writeToStream (line level message stamp) s with fileSize := s.fileSize + (message.length + 64) }

def setFile (opens : Bool) (path : Bytes) (s : Logger) : Logger :=
  let files := openAppend opens path s.files
  { s with logPath := path, isOpen := opens, files := files, fileSize := ((files path).getD []).length }

end Logger

/-- A call, with what the file system does in it. -/
inductive LogEvent where
  | setLevel (level : LogLevel)
  | setFile (opens : Bool) (path : Bytes)
  | log (io : LogIo) (level : LogLevel) (message stamp : Bytes)

namespace Logger

def step (s : Logger) : LogEvent → Logger
  | .setLevel level => { s with level := level }
  | .setFile opens path => setFile opens path s
  | .log io level message stamp => log io level message stamp s

def Step (s : Logger) (event : LogEvent) (t : Logger) : Prop := step s event = t

/-! ## What happens in a run -/

/-- The next line rotates the log. -/
def Due (s : Logger) : Prop := s.isOpen = true ∧ maxSize ≤ s.fileSize

instance : DecidablePred Due := fun _ => inferInstanceAs (Decidable (_ ∧ _))

/-- The content of the log that a call rotates. -/
def rotatedContent (s : Logger) : LogEvent → Option Bytes
  | .log _ level _ _ => if level.rank < s.level.rank ∨ ¬ s.Due then none else s.files s.logPath
  | _ => none

/-- The line that a call writes to the log. -/
def writtenLine (s : Logger) : LogEvent → Bytes
  | .log io level message stamp =>
      if level.rank < s.level.rank then []
      else
        match rotateIfNeeded io s with
        | .error _ => []
        | .ok s => if s.isOpen then line level message stamp else []
  | _ => []

abbrev History := List (Taken LogEvent Logger)

/-- The contents that have been rotated, oldest first. -/
def contents (past : History) : List Bytes := past.filterMap fun x => rotatedContent x.before x.label

/-- All that has been written to the log. -/
def written (past : History) : Bytes := past.flatMap fun x => writtenLine x.before x.label

end Logger

end EmailServer.Core
