import EmailServer.Library.Codec
import EmailServer.Library.Interleaving

/-! # Sender reputation

Threads record malicious and clean mails of a domain and ask for its score. A record is
two critical sections: one changes the map in memory, the other writes the whole map to
a temporary file and renames it. Each is one operation here. A crash loses the memory
and every call in progress; the next start loads the file.

How a map is written as JSON is left to a `Codec`. Counts are within `int`.
-/

namespace EmailServer.ThreatIntel

structure SenderReputation where
  maliciousCount : Int := 0
  cleanCount : Int := 0
  deriving DecidableEq

/-- `std::unordered_map<std::string, SenderReputation>`. -/
abbrev Senders := Finmap fun _ : Bytes => SenderReputation

/-- What a critical section of `recordMalicious` or `recordClean` counts. -/
inductive Update where
  | malicious (domain : Bytes)
  | clean (domain : Bytes)
  deriving DecidableEq

namespace Senders

/-- `senders_[domain]`, before anything is assigned to it. -/
def entry (senders : Senders) (domain : Bytes) : SenderReputation :=
  (senders.lookup domain).getD {}

def record (senders : Senders) : Update → Senders
  | .malicious domain =>
      let r := senders.entry domain
      senders.insert domain { r with maliciousCount := r.maliciousCount + 1 }
  | .clean domain =>
      let r := senders.entry domain
      senders.insert domain { r with cleanCount := r.cleanCount + 1 }

def score (senders : Senders) (domain : Bytes) : Int :=
  match senders.lookup domain with
  | none => 0
  | some r => r.maliciousCount - r.cleanCount

end Senders

/-- The map, the file under `dbPath`, and what has happened: an update is known by its
    place in `made`. -/
structure SenderReputationStore where
  senders : Senders := ∅
  db : Option Bytes
  /-- All updates that were ever executed. -/
  made : List Update := []
  /-- The updates that the map accounts for, and those that the file does. -/
  kept : List Nat := []
  saved : List Nat := []
  /-- The map as it was loaded, and how many updates had been executed then. -/
  loaded : Senders := ∅
  since : Nat := 0

namespace SenderReputationStore

variable (codec : Codec Senders)

/-- What `load` finds. Where there is no file the map stays empty, and so it does where
    the file cannot be read. -/
def read (s : SenderReputationStore) : Senders := (s.db.bind codec.decode).getD ∅

def load (s : SenderReputationStore) : SenderReputationStore :=
  { s with
    senders := s.read codec
    kept := s.saved
    loaded := s.read codec
    since := s.made.length }

def update (s : SenderReputationStore) (u : Update) : SenderReputationStore :=
  { s with
    senders := s.senders.record u
    made := s.made ++ [u]
    kept := s.kept ++ [s.made.length] }

def saveUnlocked (s : SenderReputationStore) : SenderReputationStore :=
  { s with db := some (codec.encode s.senders), saved := s.kept }

/-- The memory of the process is gone. -/
def crash (s : SenderReputationStore) : SenderReputationStore :=
  { s with senders := ∅, kept := [] }

inductive Op where
  | update (u : Update)
  | save
  | score (domain : Bytes)

/-- An update answers its place among all updates. -/
abbrev Res : Op → Type
  | .update _ => Nat
  | .save => Unit
  | .score _ => Int

abbrev RepProg := Prog Op Res

def sem : Sem Op Res SenderReputationStore
  | .update u, s, n, t => n = s.made.length ∧ t = s.update u
  | .save, s, _, t => t = s.saveUnlocked codec
  | .score domain, s, n, t => n = s.senders.score domain ∧ t = s

inductive Returned where
  | recorded (u : Update) (n : Nat)
  | scored (domain : Bytes) (score : Int)
  deriving DecidableEq

/-- A record that has updated the map. -/
def saving (u : Update) (n : Nat) : RepProg Returned :=
  .step .save fun _ => .pure (.recorded u n)

def record (u : Update) : RepProg Returned := .step (.update u) (saving u)

def recordMalicious (domain : Bytes) : RepProg Returned := record (.malicious domain)

def recordClean (domain : Bytes) : RepProg Returned := record (.clean domain)

def score (domain : Bytes) : RepProg Returned :=
  .step (.score domain) fun n => .pure (.scored domain n)

inductive Call : RepProg Returned → Prop
  | recordMalicious (domain : Bytes) : Call (recordMalicious domain)
  | recordClean (domain : Bytes) : Call (recordClean domain)
  | score (domain : Bytes) : Call (score domain)

/-- The threads of the server, which is up or down. -/
structure System (ι : Type) where
  up : Bool
  pool : Pool ι Op Res Returned SenderReputationStore

variable {ι : Type} [DecidableEq ι]

inductive Step : System ι → System ι → Prop
  | run {pool next} : Pool.Step (fun _ => sem codec) Call (fun _ _ => False) pool next →
      Step ⟨true, pool⟩ ⟨true, next⟩
  | crash {pool} : Step ⟨true, pool⟩
      ⟨false, { pool with shared := pool.shared.crash, running := fun _ => none }⟩
  | start {pool} : Step ⟨false, pool⟩ ⟨true, { pool with shared := pool.shared.load codec }⟩

/-- Before the first start there may be a file from earlier. -/
def installed (earlier : Option Senders) : System ι :=
  ⟨false, Pool.start { db := earlier.map codec.encode }⟩

end SenderReputationStore

end EmailServer.ThreatIntel
