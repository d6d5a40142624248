import Mathlib.Algebra.Order.Ring.Int
import Mathlib.Logic.Function.Basic
import EmailServer.Library.Bytes
import EmailServer.Library.Program

/-! # The connection manager

`ConnectionManager` counts the connections of all servers together and of each
address. The total is an atomic counter, the counts per address are guarded by a
mutex, so a call consists of several operations between which other threads may
come. The warnings of `checkResourceLimits` are left out with the other logs.
-/

namespace EmailServer.Core

/-- `std::chrono::minutes` on the steady clock. -/
def minutes (n : Int) : Int := n * 60000000000

structure IPConnection where
  count : Int := 0
  lastAccess : Int := 0
  deriving DecidableEq

structure ConnectionManager where
  activeConnections : Int
  globalMax : Int
  perIPMax : Int
  ipConnections : Bytes → Option IPConnection

namespace ConnectionManager

/-- The manager of a fresh process with these limits. -/
def initial (globalMax perIPMax : Int) : ConnectionManager := ⟨0, globalMax, perIPMax, fun _ => none⟩

/-- The locked part of `tryAcquireConnection`: whether the address may have one
    more connection, which is then counted. -/
def enterIP (now : Int) (ip : Bytes) (m : ConnectionManager) : Bool × ConnectionManager :=
  let ipConn := (m.ipConnections ip).getD {}
  let count := if now - ipConn.lastAccess > minutes 5 then 0 else ipConn.count
  let refused := decide (count ≥ m.perIPMax)
  (!refused,
    { m with
      ipConnections := Function.update m.ipConnections ip
        (some ⟨if refused then count else count + 1, now⟩) })

/-- The locked part of `releaseConnection`. -/
def leaveIP (ip : Bytes) (m : ConnectionManager) : ConnectionManager :=
  match m.ipConnections ip with
  | none => m
  | some ipConn =>
      if ipConn.count > 0 then
        { m with
          ipConnections := Function.update m.ipConnections ip
            (some { ipConn with count := ipConn.count - 1 }) }
      else m

def getConnectionsForIP (ip : Bytes) (m : ConnectionManager) : Int :=
  (m.ipConnections ip).elim 0 IPConnection.count

end ConnectionManager

/-! ## Calls -/

/-- What a call does in one go. -/
inductive ConnOp where
  | loadActive
  | loadGlobalMax
  | enterIP (ip : Bytes)
  | increment
  | decrement
  | leaveIP (ip : Bytes)
  deriving DecidableEq

@[reducible] def ConnOp.Res : ConnOp → Type
  | .loadActive | .loadGlobalMax => Int
  | .enterIP _ => Bool
  | .increment | .decrement | .leaveIP _ => Unit

/-- The clock an operation reads shows any time. -/
def ConnOp.Effect : Sem ConnOp ConnOp.Res ConnectionManager
  | .loadActive, m, n, m' => n = m.activeConnections ∧ m' = m
  | .loadGlobalMax, m, n, m' => n = m.globalMax ∧ m' = m
  | .enterIP ip, m, entered, m' => ∃ now, (entered, m') = m.enterIP now ip
  | .increment, m, _, m' => m' = { m with activeConnections := m.activeConnections + 1 }
  | .decrement, m, _, m' => m' = { m with activeConnections := m.activeConnections - 1 }
  | .leaveIP ip, m, _, m' => m' = m.leaveIP ip

/-- An operation when the clock shows `now`. -/
def ConnOp.EffectAt (now : Int) : Sem ConnOp ConnOp.Res ConnectionManager
  | .enterIP ip, m, entered, m' => (entered, m') = m.enterIP now ip
  | op, m, r, m' => op.Effect m r m'

theorem ConnOp.EffectAt.effect {now : Int} {op : ConnOp} {m m' : ConnectionManager} {r : op.Res}
    (effect : op.EffectAt now m r m') : op.Effect m r m' := by
  cases op with
  | enterIP ip => exact ⟨now, effect⟩
  | _ => exact effect

/-- What an operation adds to the total. -/
def ConnOp.adds : ConnOp → Int
  | .increment => 1
  | .decrement => -1
  | _ => 0

theorem ConnectionManager.leaveIP_active (ip : Bytes) (m : ConnectionManager) :
    (m.leaveIP ip).activeConnections = m.activeConnections := by
  unfold ConnectionManager.leaveIP
  split
  · rfl
  · split <;> rfl

theorem ConnOp.effect_active {op : ConnOp} {m m' : ConnectionManager} {r : op.Res}
    (effect : op.Effect m r m') : m'.activeConnections = m.activeConnections + op.adds := by
  cases op <;> simp only [ConnOp.Effect] at effect
  case loadActive | loadGlobalMax => simp [effect.2, ConnOp.adds]
  case enterIP ip =>
    obtain ⟨now, entered⟩ := effect
    rw [(Prod.mk.inj entered).2]
    simp [ConnOp.adds]
  case increment => simp [effect, ConnOp.adds]
  case decrement => simp [effect, ConnOp.adds, sub_eq_add_neg]
  case leaveIP ip => simp [effect, ConnectionManager.leaveIP_active, ConnOp.adds]

abbrev ConnProg := Prog ConnOp ConnOp.Res

namespace ConnectionManager

def tryAcquireConnection (ip : Bytes) : ConnProg Bool :=
  .step .loadActive fun current =>
    .step .loadGlobalMax fun max =>
      if current ≥ max then .pure false
      else
        .step (.enterIP ip) fun entered =>
          if !entered then .pure false else .step .increment fun _ => .pure true

def releaseConnection (ip : Bytes) : ConnProg Unit :=
  .step .decrement fun _ => .step (.leaveIP ip) fun _ => .pure ()

end ConnectionManager

end EmailServer.Core
