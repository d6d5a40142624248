import EmailServer.Library.LexicalPath
import EmailServer.Storage.AtomicWrite

/-! # The mail store

`MailStore` keeps an accepted message as `<root>/<user>/INBOX/<id>.eml`. Its
functions are programs over single file operations on parsed paths; `syn` is
the path format of the platform. The mutex, which only says that calls do not
overlap, is left out. So are the log lines outside the tries of
`moveToQuarantine` and `deleteMessage`: one that throws ends a call where it
stands, as a crash that spares everything would, and recovery logs what is
thrown and goes on to the end of its constructor.
-/

namespace EmailServer.Storage

abbrev StoreProg := FileProg FsPath FsPath

structure StoredMessage where
  /-- Generated if empty. -/
  id : Bytes
  sender : Bytes
  recipients : List Bytes
  rawData : Bytes
  mailboxUser : Bytes
  deriving DecidableEq

/-- Ticks of the system clock in a millisecond. -/
def ticksPerMillisecond : Nat := 10000

namespace MailStore

variable (syn : PathSyntax) (rootDir : Bytes)

/-- Remove the temporary files among `entries`; a failed removal is logged only. -/
def removeOrphans : List FsPath → StoreProg Unit
  | [] => .pure ()
  | entry :: rest =>
      if FileName.extension entry.filename = ascii ".tmp" then
        .step (.remove entry) fun _ => removeOrphans rest
      else removeOrphans rest

/-- The scan reports regular files only. -/
def recoverOrphanedTempFiles : StoreProg Unit :=
  .step (.iterate (syn.parse rootDir)) fun
    | none => .pure ()
    | some entries => removeOrphans entries

def generateId : StoreProg Bytes :=
  .step .clockNow fun now => .pure (toDecimal (now / ticksPerMillisecond))

/-- `<root>/<user>/INBOX` -/
def makeUserInboxDir (user : Bytes) : FsPath :=
  syn.append (syn.append (syn.parse rootDir) (syn.parse user)) (syn.parse (ascii "INBOX"))

/-- `<root>/<user>/INBOX/<id>.eml` -/
def makeMessagePath (user id : Bytes) : FsPath :=
  syn.append (makeUserInboxDir syn rootDir user) (syn.parse (id ++ ascii ".eml"))

/-- `path + ".tmp"` lengthens the last component, or a root name that stands alone. -/
def tempPath (path : FsPath) : FsPath :=
  if path.parts = [] then { path with rootName := path.rootName ++ ascii ".tmp" }
  else path.parent.child (path.filename ++ ascii ".tmp")

def ensureDirExists (dir : FsPath) : StoreProg Bool :=
  .step (.fileExists dir) fun
    | none => .pure false
    | some true => .pure true
    | some false => .step (.createDirectories dir) fun created => .pure created

/-- The file's content: a generated header and the data of the message. -/
def composed (msg : StoredMessage) (id : Bytes) : Bytes :=
  ascii "From: " ++ msg.sender ++ ascii "\r\n" ++
    (msg.recipients.map fun rcpt => ascii "To: " ++ rcpt ++ ascii "\r\n").flatten ++
    ascii "Message-ID: <" ++ id ++ ascii "@local>\r\n" ++ ascii "\r\n" ++ msg.rawData

/-- Write the message under `id`; the empty string says that it failed. -/
def storeAs (msg : StoredMessage) (id : Bytes) : StoreProg (Except Exn Bytes) :=
  let path := makeMessagePath syn rootDir msg.mailboxUser id
  (AtomicWrite.atomicWriteFile (tempPath path) path (composed msg id)).map fun
    | .ok true => .ok id
    | .ok false => .ok []
    | .error e => .error e

def store (msg : StoredMessage) : StoreProg (Except Exn Bytes) :=
  if msg.mailboxUser = [] then .pure (.ok []) else
    (ensureDirExists (makeUserInboxDir syn rootDir msg.mailboxUser)).bind fun ensured =>
      if !ensured then .pure (.ok []) else
        if msg.id = [] then (generateId).bind (storeAs syn rootDir msg)
        else storeAs syn rootDir msg msg.id

/-- `<root>/<user>/Quarantine/<id>.eml` -/
def makeQuarantinePath (user id : Bytes) : FsPath :=
  syn.append (syn.append (syn.append (syn.parse rootDir) (syn.parse user))
    (syn.parse (ascii "Quarantine"))) (syn.parse (id ++ ascii ".eml"))

/-- Whatever throws is caught, also when the line for the log does. -/
def moveToQuarantine (user id : Bytes) : StoreProg Bool :=
  let src := makeMessagePath syn rootDir user id
  let dst := makeQuarantinePath syn rootDir user id
  .step (.createDirectories dst.parent) fun created =>
    if !created then .pure false else
      .step (.rename src dst) fun moved =>
        if !moved then .pure false else
          .step (.log (ascii "MailStore: quarantined message " ++ id)) fun logged => .pure logged

/-- Removing a file that is not there does not throw. -/
def deleteMessage (user id : Bytes) : StoreProg Bool :=
  .step (.remove (makeMessagePath syn rootDir user id)) fun
    | none => .pure false
    | some _ => .step (.log (ascii "MailStore: deleted message " ++ id)) fun logged => .pure logged

end MailStore

end EmailServer.Storage
