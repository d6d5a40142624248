import EmailServer.Imap.ImapServer
import EmailServer.Smtp.AcceptTurn

/-! # Sessions served

The accept loop of SMTP asks the rate limiter for a connection, and the session asks it
again, but gives back only one of the two. So of an address no more than twice the limit are
served in a minute, and as many as were in progress when it began. `allowConnection` reads the
clock before it waits for the mutex, so the minute is counted from the oldest reading with which
a thread still waits.

All servers have one limiter. Their accept loops and session threads run interleaved, and
may be answered anything but by the limiter. Sockets, logs and metrics are left out.
-/

namespace EmailServer.Smtp

open EmailServer.Core

/-- What the threads of the servers do. `getpeername` and what follows is done by
    `SmtpSession`. -/
inductive ServiceOp where
  | smtp (op : ServerOp)
  | imap (op : Imap.ImapOp)
  /-- Whether it succeeds. -/
  | getpeername
  /-- The greeting is sent, unless an exception comes first. -/
  | greet
  | allowConnection (peerIp : Bytes)
  /-- The commands of the client. -/
  | serve
  | releaseConnection (peerIp : Bytes)
  deriving DecidableEq

@[reducible] def ServiceOp.Res : ServiceOp → Type
  | .smtp op => op.Res
  | .imap op => op.Res
  | .getpeername | .greet | .allowConnection _ => Bool
  | .serve | .releaseConnection _ => Unit

abbrev ServiceProg := Prog ServiceOp ServiceOp.Res

/-- The operation is one of the limiter that takes the time. -/
def ServiceOp.timed : ServiceOp → Bool
  | .smtp (.allowConnection _) | .imap (.allowConnection _) | .allowConnection _ => true
  | _ => false

/-- What an operation does to the limiter, after the clock was read. -/
def ServiceOp.EffectAt (reading : Option Int) : Sem ServiceOp ServiceOp.Res RateLimiter
  | .smtp (.allowConnection ip), s, allowed, t | .imap (.allowConnection ip), s, allowed, t
  | .allowConnection ip, s, allowed, t =>
      ∃ now, reading = some now ∧ (allowed, t) = s.allowConnection now ip
  | .imap (.releaseConnection ip), s, _, t | .releaseConnection ip, s, _, t =>
      t = s.releaseConnection ip
  | _, s, _, t => t = s

/-! ## Programs -/

/-- What a session takes the address for when it cannot tell. -/
def unknownPeer : Bytes := ascii "unknown"

/-- `SmtpSession::run`, which catches whatever is thrown. -/
def sessionRun (ip : Bytes) : ServiceProg Bool :=
  .step .getpeername fun named =>
    let peerIp := if named then ip else unknownPeer
    let cleanup : ServiceProg Bool := .step (.releaseConnection peerIp) fun _ => .pure true
    .step .greet fun greeted =>
      if !greeted then cleanup
      else .step (.allowConnection peerIp) fun allowed =>
        if !allowed then .pure true
        else .step .serve fun _ => cleanup

def carryOut (ip : Bytes) : (op : ServerOp) → ServiceProg op.Res
  | .runSession => sessionRun ip
  | op => .step (.smtp op) .pure

inductive Server where
  | smtp (port : Nat)
  | imap (port : Nat) (globalMaxConnections : Int)

/-- One turn of the accept loop. -/
def Server.turn : Server → ServiceProg Unit
  | .smtp _ => acceptTurn.embed .smtp fun _ r => r
  | .imap _ globalMaxConnections => (Imap.acceptTurn globalMaxConnections).embed .imap fun _ r => r

/-- The thread of a connection, with the session in it. -/
def smtpThread (port : Nat) (ip : Bytes) : ServiceProg Unit :=
  (sessionThread port ip).expand (carryOut ip)

def imapThread (port : Nat) (ip : Bytes) : ServiceProg Unit :=
  (Imap.sessionThread port ip).embed .imap fun _ r => r

/-! ## Runs -/

/-- An accept loop of a server or the thread of a connection. -/
structure ServiceThread where
  loop : Option Server
  /-- The address of a connection that the limiter has admitted and that the thread has not
      handed on or given back. No code reads it. -/
  admitted : Option Bytes
  /-- What the clock has shown, while the thread waits for the mutex of the limiter. -/
  reading : Option Int
  rest : ServiceProg Unit

structure Service where
  limiter : RateLimiter
  clock : Int
  threads : List ServiceThread

inductive ServiceLabel where
  | turn
  | reads (now : Int)
  | operation (reading : Option Int) (op : ServiceOp)

namespace Service

/-- Before the first turns, with whatever the limiter has counted so far. -/
def start (limiter : RateLimiter) (clock : Int) (servers : List Server) : Service :=
  ⟨limiter, clock, servers.map fun server => ⟨some server, none, none, .pure ()⟩⟩

/-- The connection that a thread has after an operation. -/
def admits (admitted : Option Bytes) : (op : ServiceOp) → op.Res → Option Bytes
  | .smtp (.allowConnection ip), allowed | .imap (.allowConnection ip), allowed =>
      if allowed then some ip else none
  | .smtp (.spawn _), _ | .imap (.spawn _), _ => none
  | .imap (.releaseConnection ip), _ | .releaseConnection ip, _ =>
      if admitted = some ip then none else admitted
  | _, _ => admitted

/-- The thread that a loop starts by an operation. -/
def started (loop : Option Server) (admitted : Option Bytes) (op : ServiceOp) :
    List ServiceThread :=
  match loop, op with
  | some (.smtp port), .smtp (.spawn ip) => [⟨none, admitted, none, smtpThread port ip⟩]
  | some (.imap port _), .imap (.spawn ip) => [⟨none, admitted, none, imapThread port ip⟩]
  | _, _ => []

/-- Any thread may read the clock or do its next operation, and any loop may take another turn.
    Time does not go back. -/
inductive Step : Service → ServiceLabel → Service → Prop
  | turn {s : Service} {before after server admitted} :
      s.threads = before ++ ⟨some server, admitted, none, .pure ()⟩ :: after →
      Step s .turn
        { s with threads := before ++ ⟨some server, admitted, none, server.turn⟩ :: after }
  | reads {s : Service} {now before after loop admitted op next} : s.clock ≤ now →
      s.threads = before ++ ⟨loop, admitted, none, .step op next⟩ :: after → op.timed = true →
      Step s (.reads now)
        { s with
          clock := now
          threads := before ++ ⟨loop, admitted, some now, .step op next⟩ :: after }
  | operation {s : Service} {now before after loop admitted reading op next r t} : s.clock ≤ now →
      s.threads = before ++ ⟨loop, admitted, reading, .step op next⟩ :: after →
      op.EffectAt reading s.limiter r t →
      Step s (.operation reading op)
        ⟨t, now, before ++ ⟨loop, admits admitted op r, none, next r⟩ :: after ++
          started loop admitted op⟩

end Service

/-- The thread has a connection of the address, and has not ended. -/
def ServiceThread.has (ip : Bytes) (thread : ServiceThread) : Bool :=
  thread.admitted == some ip &&
    match thread.rest with
    | .pure _ => false
    | .step _ _ => true

/-- The connections of the address that were admitted and are not over. -/
def Service.inProgress (s : Service) (ip : Bytes) : Nat := s.threads.countP (ServiceThread.has ip)

abbrev Attended := Taken ServiceLabel Service

/-- A session of SMTP with the address is admitted, and goes on to serve. -/
def ServiceOp.serves (ip : Bytes) (reading : Option Int) (s : RateLimiter) : ServiceOp → Bool
  | .allowConnection peerIp => peerIp == ip && reading.any fun now => (s.allowConnection now ip).1
  | _ => false

def Attended.serves (ip : Bytes) (x : Attended) : Bool :=
  match x.label with
  | .turn | .reads _ => false
  | .operation reading op => op.serves ip reading x.before.limiter

/-- No thread waits for the limiter with an older reading of the clock. -/
def Service.ReadSince (since : Int) (s : Service) : Prop :=
  ∀ thread ∈ s.threads, ∀ now ∈ thread.reading, since ≤ now

/-! ## What the threads keep to -/

/-- A loop asks for a connection when it has none, and a thread hands on and gives back what
    it has. Only what is taken for the unknown address may be given back without. -/
def admissionLedger : Ledger ServiceOp ServiceOp.Res (Option Bytes) where
  book := Service.admits
  due admitted
    | .smtp (.allowConnection _) | .imap (.allowConnection _) => admitted = none
    | .smtp (.spawn ip) => admitted = some ip
    | .imap (.spawn ip) | .imap (.releaseConnection ip) | .releaseConnection ip =>
        ip = unknownPeer ∨ admitted = some ip
    | _ => True

section Keeping

variable {ip : Bytes} {admitted : Option Bytes}

/-- The part of the ledger for the accept loop of SMTP. -/
def acceptLedger : Ledger ServerOp ServerOp.Res (Option Bytes) :=
  admissionLedger.narrow .smtp fun _ r => r

theorem conn_admits {α : Type} (p : ConnProg α) :
    acceptLedger.Balances (fun _ after => after = admitted) (conn p) admitted := by
  induction p with
  | pure value => exact rfl
  | step op next ih => exact ⟨trivial, ih⟩

/-- What the loop of SMTP has in hand at each place of a turn. -/
def acceptPlaces : TurnPlaces acceptLedger where
  free := none
  acquired _ := none
  allowed ip := some ip
  released _ := none
  spawned := none
  reaped _ := none
  looks op looks := by
    cases looks <;> exact ⟨trivial, fun _ => rfl⟩
  acquires ip := (conn_admits _).weaken fun ok after same => by
    cases ok <;> exact same
  asks ip := ⟨rfl, fun ok => by cases ok <;> rfl⟩
  releases ip := conn_admits _
  closes g refused := by
    obtain rfl : g = none := refused.elim id fun released => released.choose_spec
    exact ⟨trivial, rfl⟩
  spawns ip := ⟨rfl, rfl⟩
  reaps := ⟨trivial, fun _ => rfl⟩
  waits _ _ := ⟨trivial, rfl⟩
  pushes g started := by
    obtain rfl : g = none := started.elim id fun cleaned => cleaned.choose_spec.2
    exact ⟨trivial, rfl⟩

theorem turn_admits (server : Server) :
    admissionLedger.Balances (fun _ admitted => admitted = none) server.turn none := by
  cases server with
  | smtp port => exact acceptPlaces.acceptTurn_balances.embed fun _ _ => rfl
  | imap port globalMaxConnections =>
      refine ⟨trivial, fun active => ?_⟩
      by_cases full : active ≥ globalMaxConnections
      · simp only [full, if_true]
        exact rfl
      simp only [full, if_false]
      refine ⟨trivial, fun accepted => ?_⟩
      cases accepted with
      | none => exact rfl
      | some named =>
      cases named with
      | none => exact ⟨.inl rfl, fun _ => rfl⟩
      | some ip =>
          refine ⟨rfl, fun allowed => ?_⟩
          cases allowed with
          | false => exact ⟨trivial, fun _ => rfl⟩
          | true => exact ⟨.inr rfl, fun _ => rfl⟩

theorem endSession_admits (sessionFailed : Bool) : admissionLedger.Balances (fun _ _ => True)
    ((endSession ip sessionFailed).expand (carryOut ip)) admitted := by
  cases sessionFailed with
  | false => exact ⟨trivial, fun _ => ⟨trivial, fun _ => trivial⟩⟩
  | true => exact ⟨trivial, fun _ => ⟨trivial, fun _ => ⟨trivial, fun _ => trivial⟩⟩⟩

/-- A session gives back its own connection, and not twice. -/
theorem sessionRun_admits :
    admissionLedger.Balances (fun _ _ => True) (sessionRun ip) (some ip) := by
  refine ⟨trivial, fun named => ?_⟩
  have own : admissionLedger.due (some ip)
      (.releaseConnection (if named then ip else unknownPeer)) := by
    cases named with
    | false => exact .inl rfl
    | true => exact .inr rfl
  refine ⟨trivial, fun greeted => ?_⟩
  cases greeted with
  | false => exact ⟨own, fun _ => trivial⟩
  | true =>
      refine ⟨trivial, fun allowed => ?_⟩
      cases allowed with
      | false => exact trivial
      | true => exact ⟨trivial, fun _ => ⟨own, fun _ => trivial⟩⟩

theorem imapEnd_admits (own : ip = unknownPeer ∨ admitted = some ip) :
    admissionLedger.Balances (fun _ _ => True)
      ((Imap.endSession ip).embed .imap fun _ r => r) admitted :=
  ⟨trivial, fun _ => ⟨trivial, fun _ => ⟨own, fun _ => trivial⟩⟩⟩

theorem smtpThread_admits (port : Nat) :
    admissionLedger.Balances (fun _ _ => True) (smtpThread port ip) (some ip) := by
  have session : admissionLedger.Balances (fun _ _ => True)
      ((sessionRun ip).bind fun ended => (endSession ip (!ended)).expand (carryOut ip)) (some ip) :=
    sessionRun_admits.bind fun ended _ _ => endSession_admits (!ended)
  unfold smtpThread sessionThread
  split
  · refine ⟨trivial, fun answer => ?_⟩
    cases answer with
    | accepted => exact session
    | noSsl | notAccepted => exact ⟨trivial, fun _ => trivial⟩
    | threw => exact endSession_admits true
  · exact session

theorem imapThread_admits (port : Nat) (own : ip = unknownPeer ∨ admitted = some ip) :
    admissionLedger.Balances (fun _ _ => True) (imapThread port ip) admitted := by
  refine ⟨trivial, fun _ => ?_⟩
  split
  · refine ⟨trivial, fun established => ?_⟩
    cases established with
    | false => exact imapEnd_admits own
    | true => exact ⟨trivial, fun _ => imapEnd_admits own⟩
  · exact ⟨trivial, fun _ => imapEnd_admits own⟩

theorem started_admits {loop : Option Server} {op : ServiceOp} (due : admissionLedger.due admitted op) :
    ∀ thread ∈ Service.started loop admitted op, thread.loop = none ∧
      admissionLedger.Balances (fun _ _ => True) thread.rest thread.admitted := by
  intro thread member
  unfold Service.started at member
  split at member
  · obtain rfl : admitted = some _ := due
    obtain rfl := List.mem_singleton.mp member
    exact ⟨rfl, smtpThread_admits _⟩
  · obtain rfl := List.mem_singleton.mp member
    exact ⟨rfl, imapThread_admits _ due⟩
  · cases member

/-- How the threads stand between two operations; a loop that has come to its end has
    nothing in hand. -/
structure Service.Sound (s : Service) : Prop where
  balances : ∀ thread ∈ s.threads, admissionLedger.Balances
    (fun _ admitted => thread.loop.isSome → admitted = none) thread.rest thread.admitted
  /-- What was read of the clock is not ahead of it. -/
  readings : ∀ thread ∈ s.threads, ∀ now ∈ thread.reading, now ≤ s.clock

theorem start_sound (limiter : RateLimiter) (clock : Int) (servers : List Server) :
    (Service.start limiter clock servers).Sound := by
  refine ⟨fun thread member => ?_, fun thread member now read => ?_⟩
  · obtain ⟨server, -, rfl⟩ := List.mem_map.mp member
    exact fun _ => rfl
  · obtain ⟨server, -, rfl⟩ := List.mem_map.mp member
    cases read

theorem step_clock {s t : Service} {l : ServiceLabel} (step : Service.Step s l t) :
    s.clock ≤ t.clock := by
  cases step with
  | turn => exact le_refl _
  | reads later => exact later
  | operation later => exact later

theorem started_reading {loop : Option Server} {op : ServiceOp} :
    ∀ thread ∈ Service.started loop admitted op, thread.reading = none := by
  intro thread member
  unfold Service.started at member
  split at member
  · rw [List.mem_singleton.mp member]
  · rw [List.mem_singleton.mp member]
  · cases member

theorem step_readings {s t : Service} {l : ServiceLabel} {P : Int → Prop} (step : Service.Step s l t)
    (old : ∀ thread ∈ s.threads, ∀ now ∈ thread.reading, P now) (new : P t.clock) :
    ∀ thread ∈ t.threads, ∀ now ∈ thread.reading, P now := by
  cases step with
  | turn found =>
      rw [found] at old
      exact forall_moved old fun now read => absurd read (Option.not_mem_none now)
  | reads _ found =>
      rw [found] at old
      refine forall_moved old fun now read => ?_
      obtain rfl := Option.mem_some_iff.mp read
      exact new
  | operation _ found =>
      rw [found] at old
      intro thread member
      rcases List.mem_append.mp member with kept | begun
      · exact forall_moved old (fun now read => absurd read (Option.not_mem_none now)) thread kept
      · rw [started_reading thread begun]
        exact fun now read => absurd read (Option.not_mem_none now)

theorem step_sound {s t : Service} {l : ServiceLabel} (sound : s.Sound) (step : Service.Step s l t) :
    t.Sound := by
  have clock := step_clock step
  refine ⟨?_, step_readings step (fun thread member now read =>
    (sound.readings thread member now read).trans clock) (le_refl _)⟩
  have balances := sound.balances
  cases step with
  | @turn before after server admitted found =>
      rw [found] at balances
      obtain rfl : admitted = none := balances _ (List.mem_append_right _ (.head _)) rfl
      exact forall_moved balances ((turn_admits server).weaken fun _ _ none_ _ => none_)
  | reads _ found =>
      rw [found] at balances
      have same := balances _ (List.mem_append_right _ (.head _))
      exact forall_moved balances same
  | operation _ found =>
      rw [found] at balances
      obtain ⟨due, rest⟩ := balances _ (List.mem_append_right _ (.head _))
      intro thread member
      rcases List.mem_append.mp member with old | new
      · exact forall_moved balances (rest _) thread old
      · obtain ⟨loop, kept⟩ := started_admits due thread new
        exact kept.weaken fun _ _ _ some_ => by simp [loop] at some_

end Keeping

/-! ## The counter of an address -/

section Counters

variable {now since : Int} {n : Nat} {ip other : Bytes} {s t : RateLimiter} {allowed : Bool}

/-- How many connections of the address can have been admitted by readings from `since` on. -/
def capacity (since : Int) (n : Nat) (ip : Bytes) (s : RateLimiter) : Nat :=
  (s.counter ip).capacity (minutes 1) since n CONN_LIMIT

theorem allow_capacity (begun : since ≤ now) (lasts : now ≤ since + minutes (n + 1))
    (effect : (allowed, t) = s.allowConnection now other) :
    capacity since n ip s + (if other = ip ∧ allowed then 1 else 0) ≤ capacity since n ip t := by
  have counted : t = (s.allowConnection now other).2 := congrArg Prod.snd effect
  have answer : allowed = (s.allowConnection now other).1 := congrArg Prod.fst effect
  have lasts : now ≤ since + (n + 1) * minutes 1 := by
    rw [minutes] at lasts ⊢
    omega
  unfold capacity
  rw [counted, RateLimiter.allowConnection_counter]
  by_cases this : other = ip
  · subst this
    have taken := @step_capacity (minutes 1) since CONN_LIMIT n
      ⟨⟨now, .hit⟩, s.counter other, (s.counter other).hit (minutes 1) now⟩ rfl (by decide) begun lasts
    simpa [Used.admitted, Used.freed, answer, RateLimiter.allowConnection] using taken
  · simp [this, Ne.symm this]

theorem release_capacity : capacity since n ip s ≤
    capacity since n ip (s.releaseConnection other) + if other = ip then 1 else 0 := by
  unfold capacity
  rw [RateLimiter.releaseConnection_counter]
  by_cases this : other = ip
  · subst this
    simp only [if_true, Counter.giveBack]
    split
    · simp only [Counter.capacity]
      omega
    · omega
  · simp [this, Ne.symm this]

end Counters

/-! ## Sessions served in a minute -/

section Steps

variable {since now : Int} {n : Nat} {ip : Bytes} {s t : Service} {l : ServiceLabel}
  {loop : Option Server} {admitted : Option Bytes} {reading : Option Int} {op : ServiceOp}

/-- How many connections of the address are in the hands of a thread. -/
def inHand (ip : Bytes) (admitted : Option Bytes) : Nat := if admitted = some ip then 1 else 0

theorem has_le (thread : ServiceThread) :
    [thread].countP (ServiceThread.has ip) ≤ inHand ip thread.admitted := by
  simp only [List.countP_singleton, ServiceThread.has, inHand, Bool.and_eq_true, beq_iff_eq]
  by_cases this : thread.admitted = some ip
  · simp only [this, if_true]
    split <;> simp
  · simp [this]

theorem has_step {next : op.Res → ServiceProg Unit} :
    [(⟨loop, admitted, reading, .step op next⟩ : ServiceThread)].countP (ServiceThread.has ip) =
      inHand ip admitted := by
  simp [List.countP_singleton, ServiceThread.has, inHand]

theorem started_has : (Service.started loop admitted op).countP (ServiceThread.has ip) ≤
    inHand ip admitted := by
  unfold Service.started
  split
  · exact has_le _
  · exact has_le _
  · exact Nat.zero_le _

theorem started_nil (smtp : ∀ ip, op ≠ .smtp (.spawn ip)) (imap : ∀ ip, op ≠ .imap (.spawn ip)) :
    Service.started loop admitted op = [] := by
  unfold Service.started
  split
  · exact absurd rfl (smtp _)
  · exact absurd rfl (imap _)
  · rfl

theorem loop_admits {s t : RateLimiter} {other : Bytes} {allowed : Bool}
    (timely : ∀ now ∈ reading, since ≤ now ∧ now ≤ since + minutes (n + 1))
    (effect : ∃ now, reading = some now ∧ (allowed, t) = s.allowConnection now other) :
    capacity since n ip s + inHand ip (if allowed then some other else none) ≤ capacity since n ip t := by
  obtain ⟨now, rfl, effect⟩ := effect
  obtain ⟨begun, lasts⟩ := timely now rfl
  have allows := @allow_capacity now since n ip other s t allowed begun lasts effect
  cases allowed with
  | false => simpa [inHand] using allows
  | true => simpa [inHand] using allows

theorem session_admits {s t : RateLimiter} {peerIp : Bytes} {allowed : Bool}
    (timely : ∀ now ∈ reading, since ≤ now ∧ now ≤ since + minutes (n + 1))
    (effect : ∃ now, reading = some now ∧ (allowed, t) = s.allowConnection now peerIp) :
    capacity since n ip s + (if (ServiceOp.allowConnection peerIp).serves ip reading s then 1 else 0) ≤
      capacity since n ip t := by
  obtain ⟨now, rfl, effect⟩ := effect
  obtain ⟨begun, lasts⟩ := timely now rfl
  have allows := @allow_capacity now since n ip peerIp s t allowed begun lasts effect
  have answer : allowed = (s.allowConnection now peerIp).1 := congrArg Prod.fst effect
  by_cases serves : (ServiceOp.allowConnection peerIp).serves ip (some now) s = true
  · obtain ⟨same, admits⟩ := Bool.and_eq_true_iff.mp serves
    obtain rfl := beq_iff_eq.mp same
    rw [if_pos ⟨rfl, answer.trans admits⟩] at allows
    rwa [if_pos serves]
  · rw [if_neg serves]
    exact (Nat.le_add_right _ _).trans allows

theorem own_released {s : RateLimiter} {other : Bytes} (known : ip ≠ unknownPeer)
    (own : other = unknownPeer ∨ admitted = some other) :
    capacity since n ip s + inHand ip (if admitted = some other then none else admitted) ≤
      capacity since n ip (s.releaseConnection other) + inHand ip admitted := by
  have released := @release_capacity since n ip other s
  by_cases this : other = ip
  · subst this
    obtain rfl := own.resolve_left known
    simpa [inHand] using released
  · simp only [this, if_false] at released
    have kept : inHand ip (if admitted = some other then none else admitted) ≤ inHand ip admitted := by
      split
      · exact Nat.zero_le _
      · exact le_refl _
    omega

/-- An operation with a reading in time: what is served or comes into a thread's hands was admitted,
    and what is given back was in a thread's hands. -/
theorem operation_capacity {s t : RateLimiter} {r : op.Res}
    (timely : ∀ now ∈ reading, since ≤ now ∧ now ≤ since + minutes (n + 1)) (known : ip ≠ unknownPeer)
    (due : admissionLedger.due admitted op) (effect : op.EffectAt reading s r t) :
    capacity since n ip s + (if op.serves ip reading s then 1 else 0) +
        inHand ip (Service.admits admitted op r) +
        (Service.started loop admitted op).countP (ServiceThread.has ip) ≤
      capacity since n ip t + inHand ip admitted := by
  have handed := @started_has ip loop admitted op
  have rests : ∀ {op : ServiceOp}, (∀ ip, op ≠ .smtp (.spawn ip)) → (∀ ip, op ≠ .imap (.spawn ip)) →
      (Service.started loop admitted op).countP (ServiceThread.has ip) = 0 := by
    intro op smtp imap
    rw [started_nil smtp imap, List.countP_nil]
  -- only the question of a session can be one that serves
  by_cases asks : ∃ peerIp, op = .allowConnection peerIp
  · obtain ⟨peerIp, rfl⟩ := asks
    rw [rests (by simp) (by simp), add_zero]
    have served := @session_admits since n ip reading s t peerIp r timely effect
    exact Nat.add_le_add_right served (inHand ip admitted)
  have mute : op.serves ip reading s = false := by
    cases op with
    | allowConnection peerIp => exact absurd ⟨peerIp, rfl⟩ asks
    | _ => rfl
  simp only [mute, Bool.false_eq_true, if_false, add_zero]
  cases op with
  | smtp op =>
      cases op with
      | allowConnection other =>
          obtain rfl : admitted = none := due
          rw [rests (by simp) (by simp), add_zero]
          exact (loop_admits timely effect).trans (Nat.le_add_right _ _)
      | spawn other =>
          obtain rfl : t = s := effect
          exact Nat.add_le_add_left handed (capacity since n ip t)
      | _ =>
          obtain rfl : t = s := effect
          rw [rests (by simp) (by simp), add_zero]
          exact le_refl _
  | imap op =>
      cases op with
      | allowConnection other =>
          obtain rfl : admitted = none := due
          rw [rests (by simp) (by simp), add_zero]
          exact (loop_admits timely effect).trans (Nat.le_add_right _ _)
      | spawn other =>
          obtain rfl : t = s := effect
          exact Nat.add_le_add_left handed (capacity since n ip t)
      | releaseConnection other =>
          obtain rfl : t = _ := effect
          rw [rests (by simp) (by simp), add_zero]
          exact own_released known due
      | _ =>
          obtain rfl : t = s := effect
          rw [rests (by simp) (by simp), add_zero]
          exact le_refl _
  | allowConnection peerIp => exact absurd ⟨peerIp, rfl⟩ asks
  | releaseConnection other =>
      obtain rfl : t = _ := effect
      rw [rests (by simp) (by simp), add_zero]
      exact own_released known due
  | getpeername | greet | serve =>
      obtain rfl : t = s := effect
      rw [rests (by simp) (by simp), add_zero]
      exact le_refl _

/-- A step with the readings in time. -/
theorem step_served (sound : s.Sound) (step : Service.Step s l t) (begun : s.ReadSince since)
    (lasts : t.clock ≤ since + minutes (n + 1)) (known : ip ≠ unknownPeer) :
    capacity since n ip s.limiter + (if Attended.serves ip ⟨l, s, t⟩ then 1 else 0) + t.inProgress ip ≤
      capacity since n ip t.limiter + s.inProgress ip := by
  have balances := sound.balances
  have clock := step_clock step
  cases step with
  | @turn before after server admitted found =>
      rw [found] at balances
      obtain rfl : admitted = none := balances _ (List.mem_append_right _ (.head _)) rfl
      have nothing : [_].countP (ServiceThread.has ip) ≤ 0 :=
        @has_le ip ⟨some server, none, none, server.turn⟩
      have moved := countP_moved (ServiceThread.has ip) before after ⟨some server, none, none, .pure ()⟩
        ⟨some server, none, none, server.turn⟩
      simp only [Service.inProgress, found, Attended.serves, Bool.false_eq_true, if_false]
      omega
  | @reads now before after loop admitted op next later found =>
      have had := @has_step ip loop admitted none op next
      have has := @has_step ip loop admitted (some now) op next
      have moved := countP_moved (ServiceThread.has ip) before after
        ⟨loop, admitted, none, .step op next⟩ ⟨loop, admitted, some now, .step op next⟩
      simp only [Service.inProgress, found, Attended.serves, Bool.false_eq_true, if_false]
      omega
  | @operation now before after loop admitted reading op next r limiter later found effect =>
      rw [found] at balances
      obtain ⟨due, -⟩ := balances _ (List.mem_append_right _ (.head _))
      have waits : ⟨loop, admitted, reading, .step op next⟩ ∈ s.threads :=
        found ▸ List.mem_append_right _ (.head _)
      have timely : ∀ now ∈ reading, since ≤ now ∧ now ≤ since + minutes (n + 1) :=
        fun read member => ⟨begun _ waits read member,
          ((sound.readings _ waits read member).trans clock).trans lasts⟩
      have room := @operation_capacity since n ip loop admitted reading op _ _ _ timely known due effect
      have left : [_].countP (ServiceThread.has ip) ≤ inHand ip (Service.admits admitted op r) :=
        has_le ⟨loop, Service.admits admitted op r, none, next r⟩
      have had := @has_step ip loop admitted reading op next
      have moved := countP_moved (ServiceThread.has ip) before after
        ⟨loop, admitted, reading, .step op next⟩ ⟨loop, Service.admits admitted op r, none, next r⟩
      have served : Attended.serves ip ⟨.operation reading op, s, ⟨limiter, now, before ++
          ⟨loop, Service.admits admitted op r, none, next r⟩ :: after ++
            Service.started loop admitted op⟩⟩ = op.serves ip reading s.limiter := rfl
      simp only [Service.inProgress, found]
      rw [served, List.countP_append]
      omega

end Steps

/-- In every run, from every state that the servers can be in: let the last step come at most
    `n + 1` minutes after `since`, which is not after the beginning of the run nor after a reading of
    the clock with which a thread waits then. No more sessions of an address are served than
    `n + 2` times the limit, and one for each of its connections that are in progress at the
    beginning. -/
theorem sessions_limited {limiter : RateLimiter} {clock since : Int} {n : Nat} {servers : List Server}
    {before past : List Attended} {s t : Service} {ip : Bytes}
    (reached : Trace Service.Step (.start limiter clock servers) before s)
    (run : Trace Service.Step s past t) (begun : since ≤ s.clock) (waiting : s.ReadSince since)
    (lasts : t.clock ≤ since + minutes (n + 1)) (known : ip ≠ unknownPeer) :
    past.countP (Attended.serves ip) ≤ (n + 2) * CONN_LIMIT + s.inProgress ip := by
  have sound : s.Sound := by
    let inv (_ : List Attended) (s : Service) : Prop := s.Sound
    have initial : inv [] (.start limiter clock servers) := start_sound limiter clock servers
    exact (reached.always initial fun _ _ _ _ met step => step_sound met step).1
  suffices served : t.Sound ∧ since ≤ t.clock ∧ t.ReadSince since ∧
      capacity since n ip s.limiter + past.countP (Attended.serves ip) + t.inProgress ip ≤
        capacity since n ip t.limiter + s.inProgress ip by
    have whole : capacity since n ip t.limiter ≤ (n + 2) * CONN_LIMIT := capacity_le
    omega
  induction run with
  | nil => exact ⟨sound, begun, waiting, by simp⟩
  | @snoc past t l u _ step ih =>
      have later := step_clock step
      obtain ⟨met, before, timely, served⟩ := ih (later.trans lasts)
      have here := step_served met step timely lasts known
      refine ⟨step_sound met step, before.trans later,
        step_readings step timely (before.trans later), ?_⟩
      rw [List.countP_append, List.countP_singleton]
      omega

/-! ## One session -/

section OneSession

def onePeer : Bytes := ascii "192.0.2.1"

variable {s t : RateLimiter} {admitted : Option Bytes} {reading : Option Int}
  {threads : List ServiceThread} {op : ServiceOp} {next : op.Res → ServiceProg Unit}

theorem loop_step {server : Server} (r : op.Res) (effect : op.EffectAt reading s r t) :
    Service.Step ⟨s, 0, ⟨some server, admitted, reading, .step op next⟩ :: threads⟩
      (.operation reading op) ⟨t, 0, ⟨some server, Service.admits admitted op r, none, next r⟩ :: threads ++
        Service.started (some server) admitted op⟩ :=
  @Service.Step.operation _ 0 [] threads _ _ reading op next r t (le_refl 0) rfl effect

theorem thread_step {loop : ServiceThread} (r : op.Res) (effect : op.EffectAt reading s r t) :
    Service.Step ⟨s, 0, [loop, ⟨none, admitted, reading, .step op next⟩]⟩ (.operation reading op)
      ⟨t, 0, [loop, ⟨none, Service.admits admitted op r, none, next r⟩]⟩ :=
  @Service.Step.operation _ 0 [loop] [] _ _ reading op next r t (le_refl 0) rfl effect

/-- A client comes. While the loop waits for the limiter the run begins, in which the session is
    served. -/
theorem sessions_limited_one : ∃ before s past t,
    Trace Service.Step (.start ⟨fun _ => none⟩ 0 [.smtp 25]) before s ∧ Trace Service.Step s past t ∧
    past.countP (Attended.serves onePeer) = 1 ∧
    past.countP (Attended.serves onePeer) ≤ (0 + 2) * CONN_LIMIT + s.inProgress onePeer := by
  let once : RateLimiter := (RateLimiter.allowConnection 0 onePeer ⟨fun _ => none⟩).2
  let twice : RateLimiter := (once.allowConnection 0 onePeer).2
  have first : (true, once) = RateLimiter.allowConnection 0 onePeer ⟨fun _ => none⟩ := rfl
  have second : (true, twice) = once.allowConnection 0 onePeer := rfl
  have begun : Trace Service.Step (.start ⟨fun _ => none⟩ 0 [.smtp 25]) [] _ := .nil
  have turn := begun.snoc (@Service.Step.turn _ [] [] (.smtp 25) none rfl)
  have breaker := turn.snoc (loop_step false rfl)
  have active := breaker.snoc (loop_step (0 : Int) rfl)
  have most := active.snoc (loop_step (1000 : Int) rfl)
  have accept := most.snoc (loop_step (some onePeer) rfl)
  have active := accept.snoc (loop_step (0 : Int) rfl)
  have most := active.snoc (loop_step (1000 : Int) rfl)
  have enter := most.snoc (loop_step true rfl)
  have increment := enter.snoc (loop_step () rfl)
  have waits := increment.snoc (@Service.Step.reads _ 0 [] [] _ _ (.smtp (.allowConnection onePeer)) _
    (le_refl 0) rfl rfl)
  have stays : ∀ {start past s}, Trace Service.Step start past s → Trace Service.Step s [] s :=
    fun _ => .nil
  have asked := (stays waits).snoc
    (@loop_step _ once _ _ _ (.smtp (.allowConnection onePeer)) _ _ true ⟨0, rfl, first⟩)
  have spawn := asked.snoc (loop_step () rfl)
  have named := spawn.snoc (thread_step true rfl)
  have greeted := named.snoc (thread_step true rfl)
  have reads := greeted.snoc (@Service.Step.reads _ 0 [_] [] _ _ (.allowConnection onePeer) _
    (le_refl 0) rfl rfl)
  have counted := reads.snoc
    (@thread_step _ twice _ _ (.allowConnection onePeer) _ _ true ⟨0, rfl, second⟩)
  refine ⟨_, _, _, _, waits, counted, rfl,
    @sessions_limited _ _ 0 0 _ _ _ _ _ _ waits counted (le_refl 0) ?_ ?_ ?_⟩
  · exact List.forall_mem_singleton.mpr fun now read => (Option.mem_some_iff.mp read).le
  · decide
  · decide

end OneSession

end EmailServer.Smtp
