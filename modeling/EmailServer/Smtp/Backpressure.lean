import EmailServer.Library.Trace
import EmailServer.Smtp.AcceptTurn

/-! # Backpressure

Before the accept loop puts the thread of a new connection into `sessions_`, it erases
the threads that are not joinable, and waits if more than a thousand are left. A thread
stays joinable after it has ended, until it is joined, and the loop joins none. So what
is left is every thread started before.
-/

namespace EmailServer.Smtp

open EmailServer.Core

/-- Who takes a step, and what it does. -/
inductive ServerLabel where
  | turn
  | loop (op : ServerOp)
  | session (op : ServerOp)
  | configure
  deriving DecidableEq

/-- A step of the server with its label. -/
inductive SmtpServer.Move (port : Nat) : SmtpServer → ServerLabel → SmtpServer → Prop
  | turn {s : SmtpServer} : s.loop = .pure () → Move port s .turn { s with loop := acceptTurn }
  | loop {s : SmtpServer} {op next r t} : s.loop = .step op next → op.Effect s.shared r t →
      Move port s (.loop op)
        { shared := t
          loop := next r
          held := holds s.held op r
          connections := s.connections ++ handsOn port s.held op }
  | session {s : SmtpServer} {before after tally op next r t} :
      s.connections = before ++ ⟨tally, .step op next⟩ :: after → op.Effect s.shared r t →
      Move port s (.session op)
        { s with
          shared := t
          connections := before ++ ⟨tally.book op r, next r⟩ :: after }
  | configure {s : SmtpServer} (globalMax perIPMax : Int) :
      Move port s .configure
        { s with
          shared.manager.globalMax := globalMax
          shared.manager.perIPMax := perIPMax }

theorem SmtpServer.step_iff_move {port : Nat} {s t : SmtpServer} :
    Step port s t ↔ ∃ l, Move port s l t := by
  constructor
  · intro step
    cases step with
    | turn stopped => exact ⟨_, .turn stopped⟩
    | loop atOp effect => exact ⟨_, .loop atOp effect⟩
    | session found effect => exact ⟨_, .session found effect⟩
    | configure globalMax perIPMax => exact ⟨_, .configure globalMax perIPMax⟩
  · rintro ⟨l, move⟩
    cases move with
    | turn stopped => exact .turn stopped
    | loop atOp effect => exact .loop atOp effect
    | session found effect => exact .session found effect
    | configure globalMax perIPMax => exact .configure globalMax perIPMax

/-- The thread of the connection has not ended. -/
def Connection.runs (c : Connection) : Bool :=
  match c.rest with
  | .pure _ => false
  | .step _ _ => true

theorem Connection.runs_iff {c : Connection} : c.runs = true ↔ ¬ c.Ended := by
  unfold Connection.runs Connection.Ended
  cases c.rest <;> simp

/-- How many session threads are running. -/
def SmtpServer.running (s : SmtpServer) : Nat := s.connections.countP Connection.runs

/-- A step with the servers around it. -/
abbrev Worked := Taken ServerLabel SmtpServer

def ServerLabel.loopOp : ServerLabel → Option ServerOp
  | .loop op => some op
  | _ => none

/-- The loop starts the thread of a connection. -/
def Worked.spawns (x : Worked) : Bool :=
  match x.label with
  | .loop (.spawn _) => true
  | _ => false

/-- What the loop has done last. -/
def lastLoopOp (past : List Worked) : Option ServerOp := latest (fun x => x.label.loopOp) past

/-- The delay is applied only when more than a thousand session threads are running. -/
def DelayFollowsSessions (x : Worked) : Prop :=
  x.label = .loop .backpressure → 1000 < x.before.running

/-- When the loop has cleaned the list for a connection and has started more than a thousand
    before it, more than a thousand session threads are running. -/
def BusyWhenMany (past : List Worked) (x : Worked) : Prop :=
  ∀ op, x.label = .loop op → lastLoopOp past = some .reapSessions →
    1000 + 1 < past.countP Worked.spawns → 1000 < x.before.running

/-! ## The hand-over of a connection -/

/-- How far the loop is with a thread it has started. -/
inductive Handover where
  | none
  /-- The thread is not in the list. -/
  | unlisted
  /-- Nor now, and the list was cleaned: so many threads are in it. -/
  | cleaned (size : Nat)
  deriving DecidableEq

def Handover.pending : Handover → Nat
  | .none => 0
  | .unlisted | .cleaned _ => 1

/-- The loop cleans the list for each thread it starts, waits if it is long, and adds the
    thread. -/
def handoverLedger : Ledger ServerOp ServerOp.Res Handover where
  book
    | _, .spawn _, _ | _, .backpressure, _ => .unlisted
    | _, .reapSessions, size => .cleaned size
    | _, .pushSession, _ => .none
    | place, _, _ => place
  due place
    | .reapSessions => place = .unlisted
    | .backpressure => ∃ size, place = .cleaned size ∧ 1000 < size
    | .pushSession => place ≠ .none ∧ ∀ size, place = .cleaned size → ¬ 1000 < size
    | _ => place = .none

theorem conn_hands {α : Type} (p : ConnProg α) :
    handoverLedger.Balances (fun _ place => place = .none) (conn p) .none := by
  induction p with
  | pure value => exact rfl
  | step op next ih => exact ⟨rfl, ih⟩

/-- How far the loop is at each place of a turn. -/
def handoverPlaces : TurnPlaces handoverLedger where
  free := .none
  acquired _ := .none
  allowed _ := .none
  released _ := .none
  spawned := .unlisted
  reaped := .cleaned
  looks op looks := by
    cases looks <;> exact ⟨rfl, fun _ => rfl⟩
  acquires ip := (conn_hands _).weaken fun ok place same => by
    cases ok <;> exact same
  asks ip := ⟨rfl, fun ok => by cases ok <;> rfl⟩
  releases ip := conn_hands _
  closes g refused := by
    obtain rfl : g = .none := refused.elim id fun released => released.choose_spec
    exact ⟨rfl, rfl⟩
  spawns ip := ⟨rfl, rfl⟩
  reaps := ⟨rfl, fun _ => rfl⟩
  waits size many := ⟨⟨size, rfl, many⟩, rfl⟩
  pushes g started := by
    rcases started with rfl | ⟨size, few, rfl⟩
    · simp [handoverLedger]
    · simpa [handoverLedger] using few

theorem acceptTurn_hands :
    handoverLedger.Balances (fun _ place => place = .none) acceptTurn .none :=
  handoverPlaces.acceptTurn_balances

/-- What a session thread does leaves the list alone. -/
def Unlisting (op : ServerOp) : Prop := op ≠ .reapSessions ∧ op ≠ .pushSession

theorem effect_sessions {op : ServerOp} {s t : Shared} {r : op.Res} (unlisting : Unlisting op)
    (effect : op.Effect s r t) : t.sessions = s.sessions := by
  cases op with
  | conn op => exact effect.2
  | reapSessions => exact absurd rfl unlisting.1
  | pushSession => exact absurd rfl unlisting.2
  | _ => exact congrArg Shared.sessions effect

theorem sessionThread_uses (port : Nat) (ip : Bytes) : (sessionThread port ip).Uses Unlisting := by
  have unlisting : ∀ op, op ≠ .reapSessions → op ≠ .pushSession → Unlisting op :=
    fun op first second => ⟨first, second⟩
  have release : (conn (ConnectionManager.releaseConnection ip)).Uses Unlisting :=
    ⟨by simp [Unlisting], fun _ => ⟨by simp [Unlisting], fun _ => trivial⟩⟩
  have ending : ∀ failed, (endSession ip failed).Uses Unlisting := by
    intro failed
    cases failed with
    | true => exact ⟨by simp [Unlisting], fun _ => release⟩
    | false => exact release
  unfold sessionThread
  split
  · refine ⟨by simp [Unlisting], fun answer => ?_⟩
    cases answer with
    | accepted => exact ⟨by simp [Unlisting], fun ended => ending (!ended)⟩
    | noSsl | notAccepted => exact ⟨by simp [Unlisting], fun _ => trivial⟩
    | threw => exact ending true
  · exact ⟨by simp [Unlisting], fun ended => ending (!ended)⟩

theorem handsOn_uses {port : Nat} {held : Option Tally} {op : ServerOp} :
    ∀ c ∈ SmtpServer.handsOn port held op, c.rest.Uses Unlisting := by
  intro c member
  cases op with
  | spawn ip =>
      obtain ⟨tally, -, rfl⟩ := List.mem_map.mp member
      exact sessionThread_uses port ip
  | closeSocket =>
      obtain ⟨tally, -, rfl⟩ := List.mem_map.mp member
      trivial
  | _ => cases member

/-! ## Runs -/

/-- How the list of threads stands in a run. -/
structure Listed (past : List Worked) (s : SmtpServer) (place : Handover) : Prop where
  loop : handoverLedger.Balances (fun _ place => place = .none) s.loop place
  joinable : false ∉ s.shared.sessions
  started : past.countP Worked.spawns = s.shared.sessions.length + place.pending
  counted : ∀ size, place = .cleaned size → size = s.shared.sessions.length
  last : lastLoopOp past = some .reapSessions ↔ ∃ size, place = .cleaned size
  threads : ∀ c ∈ s.connections, c.rest.Uses Unlisting

section Steps

variable {port : Nat} {past : List Worked} {s t : SmtpServer} {l : ServerLabel} {place : Handover}

theorem book_listed {op : ServerOp} {r : op.Res} {shared : Shared} (listed : Listed past s place)
    (due : handoverLedger.due place op) (effect : op.Effect s.shared r shared) :
    false ∉ shared.sessions ∧
    (past.countP Worked.spawns + if Worked.spawns ⟨.loop op, s, t⟩ then 1 else 0) =
      shared.sessions.length + (handoverLedger.book place op r).pending ∧
    (∀ size, handoverLedger.book place op r = .cleaned size → size = shared.sessions.length) ∧
    (op = .reapSessions ↔ ∃ size, handoverLedger.book place op r = .cleaned size) := by
  have started := listed.started
  have joinable := listed.joinable
  cases op with
  | reapSessions =>
      obtain rfl : place = .unlisted := due
      obtain ⟨rfl, rfl⟩ := effect
      have all : s.shared.sessions.filter id = s.shared.sessions := by
        refine List.filter_eq_self.mpr fun thread member => ?_
        cases thread with
        | true => rfl
        | false => exact absurd member joinable
      simp [handoverLedger, Handover.pending, Worked.spawns, all, started, joinable]
  | pushSession =>
      obtain ⟨pending, -⟩ := due
      obtain rfl : shared = _ := effect
      cases place with
      | none => exact absurd rfl pending
      | unlisted | cleaned =>
          simp [handoverLedger, Handover.pending, Worked.spawns, started, joinable]
  | backpressure =>
      obtain ⟨size, rfl, -⟩ := due
      obtain rfl : shared = _ := effect
      simp [handoverLedger, Handover.pending, Worked.spawns, started, joinable]
  | spawn ip =>
      obtain rfl : place = .none := due
      obtain rfl : shared = _ := effect
      simp [handoverLedger, Handover.pending, Worked.spawns, started, joinable]
  | _ =>
      obtain rfl : place = .none := due
      have same := effect_sessions ⟨by simp, by simp⟩ effect
      simp [handoverLedger, Handover.pending, Worked.spawns, started, same, joinable]

theorem step_listed (step : SmtpServer.Move port s l t) (listed : Listed past s place) :
    ∃ place', Listed (past ++ [⟨l, s, t⟩]) t place' := by
  cases step with
  | turn stopped =>
      have loop := listed.loop
      rw [stopped] at loop
      obtain rfl : place = .none := loop
      refine ⟨.none, acceptTurn_hands, listed.joinable, ?_, listed.counted, ?_, listed.threads⟩
      · simp [Worked.spawns, listed.started]
      · simpa [lastLoopOp, ServerLabel.loopOp] using listed.last
  | @loop op next r shared atOp effect =>
      have loop := listed.loop
      rw [atOp] at loop
      obtain ⟨due, rest⟩ := loop
      obtain ⟨joinable, started, counted, last⟩ := @book_listed _ _ _ place _ _ _ listed due effect
      refine ⟨handoverLedger.book place op r, rest r, joinable, ?_, counted, ?_, ?_⟩
      · rw [List.countP_append, List.countP_singleton]
        exact started
      · simpa [lastLoopOp, ServerLabel.loopOp] using last
      · intro c member
        rcases List.mem_append.mp member with old | new
        · exact listed.threads c old
        · exact handsOn_uses c new
  | @session before after tally op next r shared found effect =>
      have threads := listed.threads
      rw [found] at threads
      obtain ⟨unlisting, rest⟩ := threads ⟨tally, .step op next⟩ (by simp)
      have same := effect_sessions unlisting effect
      refine ⟨place, listed.loop, ?_, ?_, ?_, ?_, ?_⟩
      · simpa [same] using listed.joinable
      · simp [Worked.spawns, listed.started, same]
      · simpa [same] using listed.counted
      · simpa [lastLoopOp, ServerLabel.loopOp] using listed.last
      · exact forall_moved threads (rest r)
  | configure globalMax perIPMax =>
      refine ⟨place, listed.loop, listed.joinable, ?_, listed.counted, ?_, listed.threads⟩
      · simp [Worked.spawns, listed.started]
      · simpa [lastLoopOp, ServerLabel.loopOp] using listed.last

/-- The loop comes to wait when it has cleaned the list and has started more than a thousand
    threads before the one in hand. -/
theorem backpressure_iff {op : ServerOp} (step : SmtpServer.Move port s (.loop op) t)
    (listed : Listed past s place) : op = .backpressure ↔
      lastLoopOp past = some .reapSessions ∧ 1000 + 1 < past.countP Worked.spawns := by
  obtain ⟨loop, -, started, counted, last, -⟩ := listed
  cases step with
  | loop atOp effect =>
      rw [atOp] at loop
      have due := loop.1
      rw [last, started]
      constructor
      · rintro rfl
        obtain ⟨size, rfl, many⟩ := due
        have := counted size rfl
        exact ⟨⟨size, rfl⟩, by simp only [Handover.pending]; omega⟩
      · rintro ⟨⟨size, rfl⟩, many⟩
        have := counted size rfl
        simp only [Handover.pending] at many
        cases op with
        | backpressure => rfl
        | pushSession => exact absurd (by omega) (due.2 size rfl)
        | _ => cases due

theorem delay_iff (step : SmtpServer.Move port s l t) (listed : Listed past s place) :
    DelayFollowsSessions ⟨l, s, t⟩ ↔ BusyWhenMany past ⟨l, s, t⟩ := by
  constructor
  · rintro follows op rfl last many
    obtain rfl := (backpressure_iff step listed).mpr ⟨last, many⟩
    exact follows rfl
  · rintro busy rfl
    obtain ⟨last, many⟩ := (backpressure_iff step listed).mp rfl
    exact busy _ rfl last many

end Steps

/-- In every run the delay is applied only when more than a thousand session threads are
    running, if and only if so many are running whenever the loop has started more than a
    thousand connections before the one it hands over. -/
theorem delays_follow_iff {port : Nat} {globalMax perIPMax : Int} {past : List Worked}
    {s : SmtpServer} (run : Trace (SmtpServer.Move port) (.start globalMax perIPMax) past s) :
    (∀ x ∈ past, DelayFollowsSessions x) ↔ Along BusyWhenMany [] past := by
  let inv (past : List Worked) (s : SmtpServer) : Prop := ∃ place, Listed past s place
  have initial : inv [] (.start globalMax perIPMax) := by
    refine ⟨.none, rfl, List.not_mem_nil, rfl, ?_, ?_, ?_⟩
    · exact fun size same => nomatch same
    · simp [lastLoopOp]
    · exact fun c member => nomatch member
  have step : ∀ past s l t, inv past s → SmtpServer.Move port s l t →
      inv (past ++ [⟨l, s, t⟩]) t := fun _ _ _ _ listed step => step_listed step listed.choose_spec
  rw [← @along_forall _ _ []]
  exact ((run.always initial step).2.mono fun past x known =>
    delay_iff known.1 known.2.1.choose_spec).congr

/-! ## Short sessions -/

section ShortSessions

def visitor : Bytes := ascii "192.0.2.1"

variable {start : SmtpServer} {past : List Worked} {ips ips' : Bytes → Option IPConnection}
  {served : Nat} {old : List Connection}

/-- No connection is open. -/
def allClosed (ips : Bytes → Option IPConnection) : ConnectionManager := ⟨0, 1000, 10, ips⟩

/-- The loop is between two turns, after so many connections. -/
def idle (ips : Bytes → Option IPConnection) (served : Nat) (old : List Connection) : SmtpServer :=
  ⟨⟨allClosed ips, List.replicate served true⟩, .pure (), none, old⟩

/-- The loop is about to clean the list for another connection. -/
def reaping (ips : Bytes → Option IPConnection) (served : Nat) (old : List Connection) :
    SmtpServer where
  shared := ⟨allClosed ips, List.replicate served true⟩
  loop := .step .reapSessions fun size =>
    if size > 1000 then .step .backpressure fun _ => .step .pushSession fun _ => .pure ()
    else .step .pushSession fun _ => .pure ()
  held := none
  connections := old

/-- A turn of the loop up to the list, and the session. -/
def visit : List ServerLabel :=
  [.turn, .loop .circuitBreaker, .loop (.conn .loadActive), .loop (.conn .loadGlobalMax),
    .loop .accept, .loop (.conn .loadActive), .loop (.conn .loadGlobalMax),
    .loop (.conn (.enterIP visitor)), .loop (.conn .increment), .loop (.allowConnection visitor),
    .loop (.spawn visitor), .session .runSession, .session (.conn .decrement),
    .session (.conn (.leaveIP visitor))]

theorem youngest_session {shared shared' : Shared} {loop : ServerProg Unit} {tally : Tally}
    {op : ServerOp} {next : op.Res → ServerProg Unit} {r : op.Res} (effect : op.Effect shared r shared') :
    SmtpServer.Move 25 ⟨shared, loop, none, old ++ [⟨tally, .step op next⟩]⟩ (.session op)
      ⟨shared', loop, none, old ++ [⟨tally.book op r, next r⟩]⟩ :=
  .session rfl effect

theorem visitor_served (run : Trace (SmtpServer.Move 25) start past (idle ips served old))
    (room : ((ips visitor).getD {}).count = 0) (ended : ∀ c ∈ old, c.Ended) : ∃ past' ips' old',
      Trace (SmtpServer.Move 25) start past' (reaping ips' served old') ∧
      past'.map Taken.label = past.map Taken.label ++ visit ∧
      ((ips' visitor).getD {}).count = 0 ∧ ∀ c ∈ old', c.Ended := by
  let entered := Function.update ips visitor (some ⟨1, 0⟩)
  let left := Function.update entered visitor (some ⟨0, 0⟩)
  let listed := List.replicate served true
  have enters : (true, allClosed entered) = (allClosed ips).enterIP 0 visitor := by
    simp [ConnectionManager.enterIP, allClosed, room, entered]
  have leaves : allClosed left = (allClosed entered).leaveIP visitor := by
    simp [ConnectionManager.leaveIP, allClosed, entered, left]
  have turn := run.snoc (.turn rfl)
  have breaker := turn.snoc (.loop (r := false) rfl rfl)
  have active := breaker.snoc (.loop (r := (0 : Int)) rfl ⟨⟨rfl, rfl⟩, rfl⟩)
  have most := active.snoc (.loop (r := (1000 : Int)) rfl ⟨⟨rfl, rfl⟩, rfl⟩)
  have accept := most.snoc (.loop (r := some visitor) rfl rfl)
  have active := accept.snoc (.loop (r := (0 : Int)) rfl ⟨⟨rfl, rfl⟩, rfl⟩)
  have most := active.snoc (.loop (r := (1000 : Int)) rfl ⟨⟨rfl, rfl⟩, rfl⟩)
  have enter := most.snoc (.loop (r := true) (t := ⟨allClosed entered, listed⟩) rfl
    ⟨⟨0, enters⟩, rfl⟩)
  have increment := enter.snoc (.loop (r := ()) (t := ⟨⟨1, 1000, 10, entered⟩, listed⟩) rfl
    ⟨rfl, rfl⟩)
  have allow := increment.snoc (.loop (r := true) rfl rfl)
  have spawn := allow.snoc (.loop (r := ()) rfl rfl)
  have session := spawn.snoc (youngest_session (r := true) rfl)
  have decrement := session.snoc (@youngest_session _ _ ⟨allClosed entered, listed⟩ _ _ _ _ ()
    ⟨rfl, rfl⟩)
  have leave := decrement.snoc (@youngest_session _ _ ⟨allClosed left, listed⟩ _ _ _ _ ()
    ⟨leaves, rfl⟩)
  refine ⟨_, left, _, leave, by simp [visit], by simp [left], ?_⟩
  intro c member
  simp only [SmtpServer.handsOn, List.append_nil, List.mem_append, List.mem_singleton] at member
  rcases member with earlier | rfl
  · exact ended c earlier
  · rfl

theorem visitor_listed (run : Trace (SmtpServer.Move 25) start past (reaping ips served old))
    (few : served ≤ 1000) (ended : ∀ c ∈ old, c.Ended) : ∃ past' old',
      Trace (SmtpServer.Move 25) start past' (idle ips (served + 1) old') ∧
      past'.map Taken.label =
        past.map Taken.label ++ [.loop .reapSessions, .loop .pushSession] ∧
      ∀ c ∈ old', c.Ended := by
  have reap := run.snoc (.loop (r := served)
    (t := ⟨allClosed ips, List.replicate served true⟩) rfl ⟨by simp [reaping], by simp⟩)
  have push := reap.snoc (@SmtpServer.Move.loop 25 _ .pushSession (fun _ => .pure ()) ()
    ⟨allClosed ips, List.replicate (served + 1) true⟩ (if_neg (not_lt.mpr few))
    (by rw [List.replicate_succ']; rfl))
  refine ⟨_, _, push, by simp, ?_⟩
  simpa [SmtpServer.handsOn, reaping] using ended

/-- The loop waits although no session is running. -/
theorem visitor_delayed (run : Trace (SmtpServer.Move 25) start past (reaping ips served old))
    (many : 1000 < served) (ended : ∀ c ∈ old, c.Ended) : ∃ past' s,
      Trace (SmtpServer.Move 25) start past' s ∧
      ∃ x ∈ past', x.label = .loop .backpressure ∧ x.before.running = 0 := by
  have reap := run.snoc (.loop (r := served)
    (t := ⟨allClosed ips, List.replicate served true⟩) rfl ⟨by simp [reaping], by simp⟩)
  have delay := reap.snoc (@SmtpServer.Move.loop 25 _ .backpressure
    (fun _ => .step .pushSession fun _ => .pure ()) () _ (if_pos many) rfl)
  refine ⟨_, _, delay, _, List.mem_append_right _ (.head _), rfl, ?_⟩
  simp only [SmtpServer.running, SmtpServer.handsOn, reaping, List.append_nil, List.countP_eq_zero]
  intro c member runs
  exact Connection.runs_iff.mp runs (ended c member)

theorem visitors_listed (served : Nat) (few : served ≤ 1001) : ∃ past ips old,
    Trace (SmtpServer.Move 25) (.start 1000 10) past (idle ips served old) ∧
    ((ips visitor).getD {}).count = 0 ∧ ∀ c ∈ old, c.Ended := by
  induction served with
  | zero => exact ⟨[], fun _ => none, [], .nil, rfl, fun c member => nomatch member⟩
  | succ served ih =>
      obtain ⟨past, ips, old, run, room, ended⟩ := ih (by omega)
      obtain ⟨past, ips, old, run, -, room, ended⟩ := visitor_served run room ended
      obtain ⟨past, old, run, -, ended⟩ := visitor_listed run (by omega) ended
      exact ⟨past, ips, old, run, room, ended⟩

/-- One connection is listed without a delay. -/
theorem delays_follow_iff_one : ∃ past s, Trace (SmtpServer.Move 25) (.start 1000 10) past s ∧
    past.map Taken.label = visit ++ [.loop .reapSessions, .loop .pushSession] ∧
    Along BusyWhenMany [] past := by
  obtain ⟨past, ips, old, run, visited, -, ended⟩ :=
    @visitor_served (.start 1000 10) [] (fun _ => none) 0 [] .nil rfl fun c member => nomatch member
  obtain ⟨past, old, run, listed, -⟩ := visitor_listed run (by omega) ended
  have labels : past.map Taken.label = visit ++ [.loop .reapSessions, .loop .pushSession] := by
    rw [listed, visited]
    rfl
  refine ⟨past, _, run, labels, (delays_follow_iff run).mp ?_⟩
  intro x member delayed
  have never : ServerLabel.loop .backpressure ∈ past.map Taken.label :=
    delayed ▸ List.mem_map_of_mem member
  rw [labels] at never
  exact absurd never (by decide)

/-- After a thousand and one short sessions a connection is delayed while no session runs. -/
theorem delay_without_sessions : ∃ past s,
    Trace (SmtpServer.Move 25) (.start 1000 10) past s ∧
    ∃ x ∈ past, x.label = .loop .backpressure ∧ x.before.running = 0 ∧
      ¬ DelayFollowsSessions x := by
  obtain ⟨past, ips, old, run, room, ended⟩ := visitors_listed 1001 (le_refl _)
  obtain ⟨past, ips, old, run, -, room, ended⟩ := visitor_served run room ended
  obtain ⟨past, s, run, x, member, delayed, none_runs⟩ :=
    visitor_delayed run (by decide) ended
  refine ⟨past, s, run, x, member, delayed, none_runs, fun follows => ?_⟩
  have many := follows delayed
  omega

end ShortSessions

end EmailServer.Smtp
