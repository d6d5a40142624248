import EmailServer.Library.Bytes

/-! # The life cycle of the application

`AppLifecycle` starts the registered subsystems by phase and shuts them down in reverse.
The calls that it makes are kept in a list. Its mutex is not recursive: a thread that
locks it again never returns. Logs are left out.
-/

namespace EmailServer.Core

inductive Phase where
  | config
  | logging
  | tls
  | storage
  | services
  | servers
  deriving DecidableEq

/-- The value of the enumeration. -/
def Phase.value : Phase → Int
  | .config => 0
  | .logging => 1
  | .tls => 2
  | .storage => 3
  | .services => 4
  | .servers => 5

/-- What an `init` does. -/
inductive InitResult where
  | returned (ok : Bool)
  | stdException
  | otherException
  deriving DecidableEq

structure Subsystem where
  name : Bytes
  phase : Phase
  shutdownOrder : Int := 0
  init : InitResult
  /-- A function is set for the shutdown. What it throws is caught. -/
  hasShutdown : Bool := true
  deriving DecidableEq

def Subsystem.succeeds (s : Subsystem) : Bool := s.init == .returned true

/-- `std::sort` by a key. Which order it gives to equal keys is open. -/
structure StdSort (α : Type) where
  sortBy : (α → Int) → List α → List α
  perm : ∀ key l, (sortBy key l).Perm l
  sorted : ∀ key l, (sortBy key l).Pairwise fun a b => key a ≤ key b

/-- A call of a function of a subsystem. -/
inductive SubsystemCall where
  | init (s : Subsystem)
  | shutdown (s : Subsystem)

namespace AppLifecycle

inductive State where
  | starting
  | ready
  | stopping
  | stopped
  deriving DecidableEq

end AppLifecycle

structure AppLifecycle where
  /-- The thread holds the mutex. -/
  locked : Bool := false
  state : AppLifecycle.State := .stopped
  subsystems : List Subsystem := []
  initialized : List Subsystem := []
  calls : List SubsystemCall := []

/-- What a call comes to. -/
inductive CallOutcome (α : Type) where
  | returned (value : α) (after : AppLifecycle)
  | threw (after : AppLifecycle)
  /-- It never returns. -/
  | blocked (there : AppLifecycle)

namespace AppLifecycle

/-- The mutex is unlocked when the call returns or throws. -/
def unlocked {α : Type} : CallOutcome α → CallOutcome α
  | .returned value l => .returned value { l with locked := false }
  | .threw l => .threw { l with locked := false }
  | .blocked l => .blocked l

/-- `std::lock_guard` around the body. -/
def guarded {α : Type} (body : AppLifecycle → CallOutcome α) (l : AppLifecycle) : CallOutcome α :=
  if l.locked then .blocked l else unlocked (body { l with locked := true })

def registerSubsystem (sort : StdSort Subsystem) (s : Subsystem) : AppLifecycle → CallOutcome Unit :=
  guarded fun l =>
    if l.state ≠ .stopped then .threw l
    else .returned () { l with subsystems := sort.sortBy (·.phase.value) (l.subsystems ++ [s]) }

def callShutdown (l : AppLifecycle) (s : Subsystem) : AppLifecycle :=
  if s.hasShutdown then { l with calls := l.calls ++ [.shutdown s] } else l

def shutdown (sort : StdSort Subsystem) : AppLifecycle → CallOutcome Unit :=
  guarded fun l =>
    if l.state = .stopping ∨ l.state = .stopped then .returned () l
    else
      let initialized := sort.sortBy (fun s => -s.shutdownOrder) l.initialized
      let l := { l with state := .stopping, initialized := initialized }
      let l := initialized.foldl callShutdown l
      .returned () { l with initialized := [], subsystems := [], state := .stopped }

/-- The loop in `initialize`. A failed `init` and one that throws are handled alike. -/
def initLoop (sort : StdSort Subsystem) : List Subsystem → AppLifecycle → CallOutcome Bool
  | [], l => .returned true { l with state := .ready }
  | s :: rest, l =>
      let l := { l with calls := l.calls ++ [.init s] }
      match s.init with
      | .returned true => initLoop sort rest { l with initialized := l.initialized ++ [s] }
      | .returned false | .stdException | .otherException =>
          match shutdown sort l with
          | .returned _ l => .returned false l
          | .threw l => .threw l
          | .blocked l => .blocked l

def initialize_ (sort : StdSort Subsystem) : AppLifecycle → CallOutcome Bool :=
  guarded fun l =>
    if l.state ≠ .stopped then .returned false l
    else initLoop sort l.subsystems { l with state := .starting }

end AppLifecycle

end EmailServer.Core
