import Mathlib.Algebra.BigOperators.Group.List.Basic
import EmailServer.Smtp.AcceptTurn

/-! # Connection slots

The total of the connection manager is the sum of what the connections' tallies
say. A thread that has ended has released its connection once, unless it gave up
on the handshake of port 465, when it has not released it at all.
-/

namespace EmailServer.Smtp

open EmailServer.Core

/-- A connection that has been acquired. -/
def Tally.acquired (ip : Bytes) : Tally := ⟨ip, 1, [], false⟩

/-- How the tally of a connection stands in the end. -/
def Tally.Settled (port : Nat) (tally : Tally) : Prop :=
  if tally.refused then port = 465 ∧ tally.slots = 1 ∧ tally.released = []
  else tally.slots = 0 ∧ tally.released = [tally.ip]

def sessionLedger : Ledger ServerOp ServerOp.Res Tally where
  book := Tally.book
  due _ _ := True

/-- The loop counts only connections it holds, holds one at a time, and hands on
    what is fit to be handed on. -/
def loopLedger (port : Nat) : Ledger ServerOp ServerOp.Res (Option Tally) where
  book := SmtpServer.holds
  due held
    | .conn (.enterIP _) => held = none
    | .conn .increment | .conn .decrement => held ≠ none
    | .spawn ip => held = some (.acquired ip)
    | .closeSocket => ∀ tally, held = some tally → tally.Settled port
    | _ => True

section Programs

variable {port : Nat} {ip : Bytes}

theorem releaseConnection_settles : sessionLedger.Balances (fun _ tally => tally.Settled port)
    (conn (ConnectionManager.releaseConnection ip)) (.acquired ip) := by
  refine ⟨trivial, fun _ => ⟨trivial, fun _ => ?_⟩⟩
  change Tally.Settled port ⟨ip, 0, [ip], false⟩
  simp [Tally.Settled]

theorem endSession_settles (sessionFailed : Bool) :
    sessionLedger.Balances (fun _ tally => tally.Settled port) (endSession ip sessionFailed)
      (.acquired ip) := by
  cases sessionFailed with
  | false => exact releaseConnection_settles
  | true => exact ⟨trivial, fun _ => releaseConnection_settles⟩

/-- Whatever the handshake and the session answer, the thread settles. -/
theorem sessionThread_settles (port : Nat) (ip : Bytes) :
    sessionLedger.Balances (fun _ tally => tally.Settled port) (sessionThread port ip)
      (.acquired ip) := by
  unfold sessionThread
  split
  · rename_i implicitTls
    refine ⟨trivial, fun answer => ?_⟩
    cases answer with
    | accepted => exact ⟨trivial, fun ended => endSession_settles (!ended)⟩
    | noSsl | notAccepted =>
        refine ⟨trivial, fun _ => ?_⟩
        change Tally.Settled port ⟨ip, 1, [], true⟩
        simp [Tally.Settled, implicitTls]
    | threw => exact endSession_settles true
  · exact ⟨trivial, fun ended => endSession_settles (!ended)⟩

theorem tryAcquireConnection_holds (port : Nat) (ip : Bytes) :
    (loopLedger port).Balances
      (fun acquired held => held = if acquired then some (.acquired ip) else none)
      (conn (ConnectionManager.tryAcquireConnection ip)) none := by
  refine ⟨trivial, fun current => ⟨trivial, fun max => ?_⟩⟩
  by_cases full : current ≥ max
  · simp only [full, if_true]
    rfl
  · simp only [full, if_false]
    refine ⟨rfl, fun entered => ?_⟩
    cases entered with
    | false => rfl
    | true => exact ⟨Option.some_ne_none _, fun _ => rfl⟩

theorem releaseConnection_holds (port : Nat) (ip : Bytes) :
    (loopLedger port).Balances (fun _ held => held = some ⟨ip, 0, [ip], false⟩)
      (conn (ConnectionManager.releaseConnection ip)) (some (.acquired ip)) :=
  ⟨Option.some_ne_none _, fun _ => ⟨trivial, fun _ => rfl⟩⟩

/-- What the loop holds at each place of a turn, which hands on what it has acquired. -/
def loopPlaces (port : Nat) : TurnPlaces (loopLedger port) where
  free := none
  acquired ip := some (.acquired ip)
  allowed ip := some (.acquired ip)
  released ip := some ⟨ip, 0, [ip], false⟩
  spawned := none
  reaped _ := none
  looks op looks := by
    cases looks <;> exact ⟨trivial, fun _ => rfl⟩
  acquires := tryAcquireConnection_holds port
  asks ip := ⟨trivial, fun ok => by cases ok <;> rfl⟩
  releases := releaseConnection_holds port
  closes g refused := by
    refine ⟨?_, rfl⟩
    rintro tally rfl
    rcases refused with none_ | ⟨ip, same⟩
    · cases none_
    · obtain rfl := Option.some.inj same
      simp [Tally.Settled]
  spawns ip := ⟨rfl, rfl⟩
  reaps := ⟨trivial, fun _ => rfl⟩
  waits _ _ := ⟨trivial, rfl⟩
  pushes g started := by
    obtain rfl : g = none := started.elim id fun cleaned => cleaned.choose_spec.2
    exact ⟨trivial, rfl⟩

theorem acceptTurn_holds (port : Nat) :
    (loopLedger port).Balances (fun _ held => held = none) acceptTurn none :=
  (loopPlaces port).acceptTurn_balances

end Programs

/-! ## The total -/

/-- What an operation adds to the total. -/
def ServerOp.adds : ServerOp → Int
  | .conn op => op.adds
  | _ => 0

theorem effect_active {op : ServerOp} {s t : Shared} {r : op.Res} (effect : op.Effect s r t) :
    t.manager.activeConnections = s.manager.activeConnections + op.adds := by
  cases op <;> simp only [ServerOp.Effect] at effect
  case conn op => exact ConnOp.effect_active effect.1
  case reapSessions => simp [effect.1, ServerOp.adds]
  all_goals simp [effect, ServerOp.adds]

theorem book_slots (tally : Tally) (op : ServerOp) (r : op.Res) :
    (tally.book op r).slots = tally.slots + op.adds := by
  cases op with
  | conn op => cases op <;> simp [Tally.book, ServerOp.adds, ConnOp.adds, sub_eq_add_neg]
  | _ => simp [Tally.book, ServerOp.adds]

/-- The slots of the connection the loop holds. -/
def heldSlots (held : Option Tally) : Int := held.elim 0 Tally.slots

def totalSlots (connections : List Connection) : Int :=
  (connections.map fun c => c.tally.slots).sum

theorem holds_slots {port : Nat} {held : Option Tally} {op : ServerOp}
    (due : (loopLedger port).due held op) (r : op.Res) :
    heldSlots (SmtpServer.holds held op r) + totalSlots (SmtpServer.handsOn port held op) =
      heldSlots held + op.adds := by
  cases held with
  | none =>
      cases op with
      | conn op =>
          cases op with
          | enterIP ip => cases r <;> rfl
          | increment | decrement => exact absurd rfl due
          | _ => rfl
      | _ => rfl
  | some tally =>
      have booked := book_slots tally op r
      cases op with
      | conn op =>
          cases op with
          | enterIP ip => cases due
          | _ => simpa [SmtpServer.holds, SmtpServer.handsOn, heldSlots, totalSlots] using booked
      | spawn | closeSocket =>
          simp [SmtpServer.holds, SmtpServer.handsOn, heldSlots, totalSlots, ServerOp.adds]
      | _ => simpa [SmtpServer.holds, SmtpServer.handsOn, heldSlots, totalSlots, ServerOp.adds]
          using booked

theorem handsOn_settles {port : Nat} {held : Option Tally} {op : ServerOp}
    (due : (loopLedger port).due held op) :
    ∀ c ∈ SmtpServer.handsOn port held op,
      sessionLedger.Balances (fun _ tally => tally.Settled port) c.rest c.tally := by
  intro c member
  cases op with
  | spawn ip =>
      obtain rfl : held = some (.acquired ip) := due
      obtain rfl : c = ⟨.acquired ip, sessionThread port ip⟩ := by
        simpa [SmtpServer.handsOn] using member
      exact sessionThread_settles port ip
  | closeSocket =>
      obtain ⟨tally, holding, rfl⟩ := List.mem_map.mp member
      exact due tally (Option.mem_toList.mp holding)
  | _ => cases member

/-- How a server stands between two operations. -/
structure SmtpServer.Accounted (port : Nat) (s : SmtpServer) : Prop where
  total : s.shared.manager.activeConnections = heldSlots s.held + totalSlots s.connections
  loop : (loopLedger port).Balances (fun _ held => held = none) s.loop s.held
  connections : ∀ c ∈ s.connections,
    sessionLedger.Balances (fun _ tally => tally.Settled port) c.rest c.tally

theorem step_accounted {port : Nat} {s t : SmtpServer} (step : SmtpServer.Step port s t)
    (accounted : s.Accounted port) : t.Accounted port := by
  obtain ⟨total, loop, connections⟩ := accounted
  cases step with
  | turn stopped =>
      rw [stopped] at loop
      refine ⟨total, ?_, connections⟩
      rw [show s.held = none from loop]
      exact acceptTurn_holds port
  | @loop op next r shared atOp effect =>
      rw [atOp] at loop
      obtain ⟨due, rest⟩ := loop
      refine ⟨?_, rest r, ?_⟩
      · have moved := holds_slots due r
        have added := effect_active effect
        simp only [totalSlots, List.map_append, List.sum_append] at total moved ⊢
        omega
      · intro c member
        rcases List.mem_append.mp member with old | new
        · exact connections c old
        · exact handsOn_settles due c new
  | @session before after tally op next r shared found effect =>
      refine ⟨?_, loop, ?_⟩
      · have added := effect_active effect
        have booked := book_slots tally op r
        simp only [found, totalSlots, List.map_append, List.map_cons, List.sum_append,
          List.sum_cons] at total ⊢
        omega
      · rw [found] at connections
        exact forall_moved connections ((connections ⟨tally, .step op next⟩ (by simp)).2 r)
  | configure globalMax perIPMax => exact ⟨total, loop, connections⟩

theorem run_accounted {port : Nat} {globalMax perIPMax : Int} {s : SmtpServer}
    (run : Relation.ReflTransGen (SmtpServer.Step port) (.start globalMax perIPMax) s) :
    s.Accounted port := by
  induction run with
  | refl => exact ⟨rfl, rfl, fun c member => nomatch member⟩
  | tail _ step ih => exact step_accounted step ih

theorem ended_settled {port : Nat} {s : SmtpServer} (accounted : s.Accounted port) {c : Connection}
    (member : c ∈ s.connections) (ended : c.Ended) : c.tally.Settled port := by
  have balances := accounted.connections c member
  rwa [show c.rest = .pure () from ended] at balances

/-- In every state of every run, slots are conserved if and only if no connection
    of a thread that has ended has failed its handshake on port 465. -/
theorem slots_conserved_iff {port : Nat} {globalMax perIPMax : Int} {s : SmtpServer}
    (run : Relation.ReflTransGen (SmtpServer.Step port) (.start globalMax perIPMax) s) :
    s.Conserves ↔ port ≠ 465 ∨ ∀ c ∈ s.connections, c.Ended → c.tally.refused = false := by
  have accounted := run_accounted run
  constructor
  · intro ⟨released, _⟩
    refine .inr fun c member ended => ?_
    by_contra refused
    have settled := ended_settled accounted member ended
    rw [Bool.not_eq_false] at refused
    rw [Tally.Settled, if_pos refused, released c member ended] at settled
    simp at settled
  · intro completed
    have settled : ∀ c ∈ s.connections, c.Ended → c.tally.slots = 0 ∧ c.tally.released = [c.tally.ip] := by
      intro c member ended
      have settled := ended_settled accounted member ended
      unfold Tally.Settled at settled
      split at settled
      · rename_i refused
        rcases completed with other | established
        · exact absurd settled.1 other
        · simp [established c member ended] at refused
      · exact settled
    refine ⟨fun c member ended => (settled c member ended).2, fun ⟨stopped, ended⟩ => ?_⟩
    have free : s.held = none := by
      have loop := accounted.loop
      rwa [stopped] at loop
    have none_left : totalSlots s.connections = 0 := by
      apply List.sum_eq_zero
      intro slots member
      obtain ⟨c, inRun, rfl⟩ := List.mem_map.mp member
      exact (settled c inRun (ended c inRun)).1
    rw [accounted.total, free, none_left]
    rfl

/-! ## One connection -/

def oneClient : Bytes := ascii "192.0.2.1"

/-- The manager when the address has one connection. -/
def oneCounted (activeConnections : Int) : ConnectionManager :=
  ⟨activeConnections, 1000, 10, Function.update (fun _ => none) oneClient (some ⟨1, 0⟩)⟩

/-- The connection has been handed to its thread. -/
def oneAccepted (port : Nat) : SmtpServer where
  shared := ⟨oneCounted 1, [true]⟩
  loop := .pure ()
  held := none
  connections := [⟨.acquired oneClient, sessionThread port oneClient⟩]

theorem oneAccepted_run (port : Nat) :
    Relation.ReflTransGen (SmtpServer.Step port) (.start 1000 10) (oneAccepted port) := by
  apply Relation.ReflTransGen.head (.turn rfl)
  apply Relation.ReflTransGen.head (.loop (r := false) rfl rfl)
  apply Relation.ReflTransGen.head (.loop (r := (0 : Int)) rfl ⟨⟨rfl, rfl⟩, rfl⟩)
  apply Relation.ReflTransGen.head (.loop (r := (1000 : Int)) rfl ⟨⟨rfl, rfl⟩, rfl⟩)
  apply Relation.ReflTransGen.head (.loop (r := some oneClient) rfl rfl)
  apply Relation.ReflTransGen.head (.loop (r := (0 : Int)) rfl ⟨⟨rfl, rfl⟩, rfl⟩)
  apply Relation.ReflTransGen.head (.loop (r := (1000 : Int)) rfl ⟨⟨rfl, rfl⟩, rfl⟩)
  apply Relation.ReflTransGen.head (.loop (r := true) (t := ⟨oneCounted 0, []⟩) rfl ⟨⟨0, rfl⟩, rfl⟩)
  apply Relation.ReflTransGen.head (.loop (r := ()) (t := ⟨oneCounted 1, []⟩) rfl ⟨rfl, rfl⟩)
  apply Relation.ReflTransGen.head (.loop (r := true) rfl rfl)
  apply Relation.ReflTransGen.head (.loop (r := ()) rfl rfl)
  apply Relation.ReflTransGen.head (.loop (r := (0 : Nat)) rfl ⟨rfl, rfl⟩)
  apply Relation.ReflTransGen.head (.loop (r := ()) rfl rfl)
  exact Relation.ReflTransGen.refl

/-- The thread of the connection is left with `rest`. -/
def oneLeft (manager : ConnectionManager) (tally : Tally) (rest : ServerProg Unit) : SmtpServer :=
  ⟨⟨manager, [true]⟩, .pure (), none, [⟨tally, rest⟩]⟩

theorem oneLeft_step {port : Nat} {manager manager' : ConnectionManager} {tally : Tally}
    (op : ServerOp) {next : op.Res → ServerProg Unit} (r : op.Res)
    (effect : op.Effect ⟨manager, [true]⟩ r ⟨manager', [true]⟩) :
    SmtpServer.Step port (oneLeft manager tally (.step op next))
      (oneLeft manager' (tally.book op r) (next r)) :=
  @SmtpServer.Step.session port (oneLeft manager tally (.step op next)) [] [] tally op next r
    ⟨manager', [true]⟩ rfl effect

theorem oneLeft_stopped (manager : ConnectionManager) (tally : Tally) :
    (oneLeft manager tally (.pure ())).Stopped := by
  refine ⟨rfl, fun c member => ?_⟩
  obtain rfl := List.mem_singleton.mp member
  rfl

/-- On port 25 the session ends and the slot is free again. -/
theorem slots_conserved_iff_plain : ∃ s : SmtpServer,
    Relation.ReflTransGen (SmtpServer.Step 25) (.start 1000 10) s ∧ s.Stopped ∧ s.Conserves := by
  have run : Relation.ReflTransGen (SmtpServer.Step 25) (.start 1000 10)
      (oneLeft ((oneCounted 0).leaveIP oneClient) ⟨oneClient, 0, [oneClient], false⟩ (.pure ())) := by
    apply (oneAccepted_run 25).trans
    apply Relation.ReflTransGen.head (oneLeft_step .runSession true rfl)
    apply Relation.ReflTransGen.head (oneLeft_step (.conn .decrement) () ⟨rfl, rfl⟩)
    apply Relation.ReflTransGen.head (oneLeft_step (.conn (.leaveIP oneClient)) () ⟨rfl, rfl⟩)
    exact Relation.ReflTransGen.refl
  exact ⟨_, run, oneLeft_stopped _ _, (slots_conserved_iff run).mpr (.inl (by decide))⟩

/-- On port 465 the handshake fails, and the slot is never given back. -/
theorem slot_leaked : ∃ s : SmtpServer,
    Relation.ReflTransGen (SmtpServer.Step 465) (.start 1000 10) s ∧ s.Stopped ∧
      (∃ c ∈ s.connections, c.tally.ip = oneClient ∧ c.tally.released = []) ∧
      s.shared.manager.activeConnections = 1 := by
  have run : Relation.ReflTransGen (SmtpServer.Step 465) (.start 1000 10)
      (oneLeft (oneCounted 1) ⟨oneClient, 1, [], true⟩ (.pure ())) := by
    apply (oneAccepted_run 465).trans
    apply Relation.ReflTransGen.head (oneLeft_step .handshake .notAccepted rfl)
    apply Relation.ReflTransGen.head (oneLeft_step .closeSocket () rfl)
    exact Relation.ReflTransGen.refl
  exact ⟨_, run, oneLeft_stopped _ _, ⟨_, .head _, rfl, rfl⟩, rfl⟩

end EmailServer.Smtp
