import Mathlib.Data.Finmap
import Mathlib.Logic.Function.Basic
import EmailServer.Library.LexicalPath
import EmailServer.Library.TextSearch

/-! # The flags of messages

Each user has a text file with a line for each message: its id and its flags. The index
reads the file of a user into memory and writes it anew from there. Its methods hold the
mutex throughout, so they are taken one after another.

The streams are text streams of Windows: what is read ends before the first byte 0x1A. That
they write a line feed as two bytes is not to be seen, since a carriage return is a blank.
A file may fail to open; one that opens is read and written as a whole. In which order the
unordered containers are gone through is open.
-/

namespace EmailServer.Imap

open Bytes

/-- `msgId -> set(flags)` -/
abbrev MailboxFlags := Finmap fun _ : Bytes => Finset Bytes

/-- `user -> msgId -> set(flags)` -/
structure FlagsIndex where
  data : Finmap fun _ : Bytes => MailboxFlags := ∅

namespace FlagsIndex

/-- `<root>/<user>/flags.txt` -/
def mailboxFlagsPath (syn : PathSyntax) (rootDir user : Bytes) : FsPath :=
  syn.append (syn.append (syn.parse rootDir) (syn.parse user)) (syn.parse (ascii "flags.txt"))

/-- The first word of a line is the message id. A line without words is passed over. -/
def parseLine (line : Bytes) : Option (Bytes × Finset Bytes) :=
  match words line with
  | [] => none
  | msgId :: flags => some (msgId, flags.toFinset)

/-- A line replaces an earlier one of the same message. -/
def addLine (mailbox : MailboxFlags) (line : Bytes) : MailboxFlags :=
  match parseLine line with
  | none => mailbox
  | some (msgId, flags) => mailbox.insert msgId flags

def parseFlags (text : Bytes) : MailboxFlags := (getlines lf text).foldl addLine ∅

/-- Control-Z, which a text stream takes for the end of the file. -/
def ctrlZ : UInt8 := 0x1A

/-- What a text stream reads of a file. -/
def readText (raw : Bytes) : Bytes := raw.takeWhile (· != ctrlZ)

/-- `file` is `none` where there is no file or it does not open. -/
def loadMailbox (index : FlagsIndex) (user : Bytes) (file : Option Bytes) : FlagsIndex :=
  { data := index.data.insert user ((file.map fun raw => parseFlags (readText raw)).getD ∅) }

/-- The flags of a message in a mailbox. -/
def flagsOf (mailbox : MailboxFlags) (msgId : Bytes) : Finset Bytes :=
  match mailbox.lookup msgId with
  | none => ∅
  | some flags => flags

def getFlags (index : FlagsIndex) (user msgId : Bytes) : Finset Bytes :=
  match index.data.lookup user with
  | none => ∅
  | some mailbox => flagsOf mailbox msgId

/-- `operator[]` makes what is not there yet. -/
def addFlag (index : FlagsIndex) (user msgId flag : Bytes) : FlagsIndex :=
  let mailbox := (index.data.lookup user).getD ∅
  let flags := (mailbox.lookup msgId).getD ∅
  { data := index.data.insert user (mailbox.insert msgId (insert flag flags)) }

def printLine (msgId : Bytes) (flags : List Bytes) : Bytes :=
  msgId ++ flags.flatMap (space :: ·) ++ [lf]

def printFlags (entries : List (Bytes × List Bytes)) : Bytes :=
  entries.flatMap fun entry => printLine entry.1 entry.2

/-- One of the orders in which the loops of `save` go through a mailbox. -/
structure Iterates (mailbox : MailboxFlags) (entries : List (Bytes × List Bytes)) : Prop where
  keys : (entries.map Prod.fst).Nodup
  flags : ∀ entry ∈ entries, entry.2.Nodup ∧ mailbox.lookup entry.1 = some entry.2.toFinset
  all : ∀ msgId ∈ mailbox, msgId ∈ entries.map Prod.fst

/-- What `save` can write. The file is emptied first, also for a user with no data. -/
def Prints (index : FlagsIndex) (user text : Bytes) : Prop :=
  match index.data.lookup user with
  | none => text = []
  | some mailbox => ∃ entries, Iterates mailbox entries ∧ text = printFlags entries

end FlagsIndex

/-- A call, and for those that open the file whether it opened. A restart makes a new
    index over the same directory. -/
inductive FlagsEvent where
  | addFlag (user msgId flag : Bytes)
  | loadMailbox (user : Bytes) (opens : Bool)
  | save (user : Bytes) (opens : Bool)
  | restart
  deriving DecidableEq

/-- The index, and the files. -/
structure FlagsSystem (F : Type) where
  index : FlagsIndex := {}
  disk : F → Option Bytes

namespace FlagsSystem

variable {F : Type} [DecidableEq F]

/-- `file` is the file that the path of a user leads to. -/
inductive Step (file : Bytes → F) : FlagsSystem F → FlagsEvent → FlagsSystem F → Prop
  | addFlag {s user msgId flag} : Step file s (.addFlag user msgId flag)
      { s with index := s.index.addFlag user msgId flag }
  | loadMailbox {s user opens} : Step file s (.loadMailbox user opens)
      { s with index := s.index.loadMailbox user (if opens then s.disk (file user) else none) }
  | save {s user text} : s.index.Prints user text → Step file s (.save user true)
      { s with disk := Function.update s.disk (file user) (some text) }
  | cannotSave {s user} : Step file s (.save user false) s
  | restart {s} : Step file s .restart { s with index := {} }

end FlagsSystem

end EmailServer.Imap
