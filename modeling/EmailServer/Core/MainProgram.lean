import Mathlib.Data.List.Infix
import Mathlib.Logic.Function.Basic
import Mathlib.Logic.Relation

/-! # The servers of the program and its end

`main` starts four servers, waits for a signal and stops them one after the other.
Each has a thread that accepts connections, and the mail servers one for every
session. A stop joins these threads, and what it closes before differs: only the
SMTP server closes the sockets of its clients, and the metrics server not even the
one it listens on.

The model begins where the servers are started, with the sandbox worker at work. The
earlier `return 2`, for want of TLS, is not in it; it leaves the worker running.
-/

namespace EmailServer.Main

inductive ServerName where
  | metrics
  | admin
  | smtp
  | imap
  deriving DecidableEq

/-- Where the thread is that runs a server's `run`. -/
inductive Acceptor where
  /-- Before its socket listens. -/
  | starting
  /-- At the head of `while (running_)`. -/
  | top
  | accepting
  /-- With a client whose request it reads itself. -/
  | handling
  | ended
  deriving DecidableEq

structure Server where
  running : Bool := false
  listening : Bool := false
  acceptor : Acceptor := .ended
  /-- The session threads that have not ended, each with whether its client is gone or its
      socket closed. -/
  sessions : List Bool := []

/-- What `main` does from the start of its servers on. -/
inductive Act where
  | start (k : ServerName)
  | awaitSignal
  | clearRunning (k : ServerName)
  | closeListener (k : ServerName)
  | joinAcceptor (k : ServerName)
  | closeClients (k : ServerName)
  | joinSessions (k : ServerName)
  | stopSandbox
  | joinSandbox
  deriving DecidableEq

def SmtpServer.stop : List Act :=
  [.clearRunning .smtp, .closeListener .smtp, .joinAcceptor .smtp, .closeClients .smtp,
    .joinSessions .smtp]

def ImapServer.stop : List Act :=
  [.clearRunning .imap, .closeListener .imap, .joinAcceptor .imap, .joinSessions .imap]

def AdminServer.stop : List Act :=
  [.clearRunning .admin, .closeListener .admin, .joinAcceptor .admin]

def HttpMetricsServer.stop : List Act := [.clearRunning .metrics, .joinAcceptor .metrics]

def SandboxEngine.stop : List Act := [.stopSandbox, .joinSandbox]

/-- `main`, once the configuration and TLS are set up. -/
def program : List Act :=
  [.start .metrics, .start .admin, .start .smtp, .start .imap, .awaitSignal] ++
    SmtpServer.stop ++ ImapServer.stop ++ AdminServer.stop ++ HttpMetricsServer.stop ++
    SandboxEngine.stop

structure Process where
  g_running : Bool := true
  server : ServerName → Server := fun _ => {}
  sandboxRunning : Bool := true
  /-- The sandbox worker has not ended. -/
  sandboxWorker : Bool := true
  /-- What `main` has still to do. -/
  main : List Act := program

namespace Process

def set (s : Process) (k : ServerName) (v : Server) : Process :=
  { s with server := Function.update s.server k v }

@[simp] theorem set_server (s : Process) (k : ServerName) (v : Server) :
    (s.set k v).server = Function.update s.server k v := rfl
@[simp] theorem set_main (s : Process) (k : ServerName) (v : Server) : (s.set k v).main = s.main := rfl
@[simp] theorem set_g_running (s : Process) (k : ServerName) (v : Server) :
    (s.set k v).g_running = s.g_running := rfl
@[simp] theorem set_sandboxRunning (s : Process) (k : ServerName) (v : Server) :
    (s.set k v).sandboxRunning = s.sandboxRunning := rfl
@[simp] theorem set_sandboxWorker (s : Process) (k : ServerName) (v : Server) :
    (s.set k v).sandboxWorker = s.sandboxWorker := rfl

end Process

/-- The process after an act, or none while the act has to wait. -/
def Act.perform (s : Process) : Act → Option Process
  | .start k => some (s.set k { s.server k with running := true, acceptor := .starting })
  | .awaitSignal => if s.g_running then none else some s
  | .clearRunning k => some (s.set k { s.server k with running := false })
  | .closeListener k => some (s.set k { s.server k with listening := false })
  | .joinAcceptor k => if (s.server k).acceptor = .ended then some s else none
  | .closeClients k =>
      some (s.set k { s.server k with sessions := (s.server k).sessions.map fun _ => true })
  | .joinSessions k => if (s.server k).sessions = [] then some s else none
  | .stopSandbox => some { s with sandboxRunning := false }
  | .joinSandbox => if s.sandboxWorker then none else some s

/-! ## The steps of the threads and of the clients -/

/-- The mail servers give each connection a thread of its own. -/
def ServerName.threaded : ServerName → Bool
  | .smtp | .imap => true
  | .metrics | .admin => false

/-- What the threads of a server do by themselves. -/
inductive Server.Own (k : ServerName) : Server → Server → Prop
  | listens {v} : v.acceptor = .starting →
      Own k v { v with listening := true, acceptor := .top }
  /-- Without a socket it can listen on, a server ends, except that the metrics server goes on. -/
  | fails {v} : v.acceptor = .starting →
      Own k v { v with acceptor := if k = .metrics then .top else .ended }
  | again {v} : v.acceptor = .top → v.running = true → Own k v { v with acceptor := .accepting }
  | leaves {v} : v.acceptor = .top → v.running = false →
      Own k v { v with listening := false, acceptor := .ended }
  /-- `accept` on a socket that does not listen returns at once. -/
  | rejected {v} : v.acceptor = .accepting → v.listening = false →
      Own k v { v with acceptor := .top }
  /-- Nothing is left to read for a session, and it comes to its end. -/
  | hungUp {v before after} : v.sessions = before ++ true :: after →
      Own k v { v with sessions := before ++ after }

/-- What takes a client. -/
inductive Server.Client (k : ServerName) : Server → Server → Prop
  | connects {v} : k.threaded = true → v.acceptor = .accepting → v.listening = true →
      Client k v { v with acceptor := .top, sessions := v.sessions ++ [false] }
  | turnedAway {v} : k.threaded = true → v.acceptor = .accepting → v.listening = true →
      Client k v { v with acceptor := .top }
  | asks {v} : k.threaded = false → v.acceptor = .accepting → v.listening = true →
      Client k v { v with acceptor := .handling }
  /-- The client has sent its request or gone. -/
  | served {v} : v.acceptor = .handling → Client k v { v with acceptor := .top }
  /-- The client has ended its session or gone. -/
  | quits {v before after b} : v.sessions = before ++ b :: after →
      Client k v { v with sessions := before ++ true :: after }

/-- A step of `main` or of one of the threads. -/
inductive ThreadStep : Process → Process → Prop
  | main {s t a rest} : s.main = a :: rest → a.perform s = some t →
      ThreadStep s { t with main := rest }
  | own {s k v} : (s.server k).Own k v → ThreadStep s (s.set k v)
  | sandbox {s} : s.sandboxRunning = false → ThreadStep s { s with sandboxWorker := false }

inductive Step : Process → Process → Prop
  | thread {s t} : ThreadStep s t → Step s t
  | client {s k v} : (s.server k).Client k v → Step s (s.set k v)
  | signal {s} : Step s { s with g_running := false }

def Reachable (s : Process) : Prop := Relation.ReflTransGen Step {} s

/-- What a server cannot lose any more, once `main` has cleared its flag. -/
structure Server.Winds (v w : Server) : Prop where
  stopped : v.running = false → w.running = false
  shut : v.running = false → ¬ (v.acceptor = .accepting ∧ v.listening = true) →
    ¬ (w.acceptor = .accepting ∧ w.listening = true)
  joined : v.running = false → v.acceptor = .ended → w.acceptor = .ended
  hungUp : v.running = false → v.acceptor = .ended → (∀ b ∈ v.sessions, b = true) →
    ∀ b ∈ w.sessions, b = true
  alone : v.running = false → v.acceptor = .ended → v.sessions = [] → w.sessions = []

theorem Server.Winds.refl (v : Server) : Server.Winds v v :=
  ⟨id, fun _ => id, fun _ => id, fun _ _ => id, fun _ _ => id⟩

theorem Server.Own.winds {k : ServerName} {v w : Server} (own : Server.Own k v w) :
    Server.Winds v w := by
  cases own with
  | listens starting => constructor <;> simp [starting]
  | fails starting =>
    constructor
    · exact id
    · intro _ _ waiting
      obtain ⟨accepting, -⟩ := waiting
      revert accepting
      split <;> simp
    · simp [starting]
    · exact fun _ _ => id
    · exact fun _ _ => id
  | again top running => constructor <;> simp [running]
  | leaves top stopped => constructor <;> simp_all
  | rejected accepting closed => constructor <;> simp [accepting]
  | @hungUp before after sessions =>
    constructor
    · exact id
    · exact fun _ => id
    · exact fun _ => id
    · intro _ _ gone b member
      simp only [List.mem_append] at member
      exact gone b (by simp only [sessions, List.mem_append, List.mem_cons]; tauto)
    · intro _ _ alone
      simp [alone] at sessions

theorem Server.Client.winds {k : ServerName} {v w : Server} (client : Server.Client k v w) :
    Server.Winds v w := by
  cases client with
  | connects threaded accepting listening => constructor <;> simp [accepting, listening]
  | turnedAway threaded accepting listening => constructor <;> simp [accepting, listening]
  | asks plain accepting listening => constructor <;> simp [accepting, listening]
  | served handling => constructor <;> simp [handling]
  | @quits before after b sessions =>
    constructor
    · exact id
    · exact fun _ => id
    · exact fun _ => id
    · intro _ _ gone c member
      simp only [List.mem_append, List.mem_cons] at member
      obtain earlier | rfl | later := member
      · exact gone c (by simp [sessions, earlier])
      · rfl
      · exact gone c (by simp [sessions, later])
    · intro _ _ alone
      simp [alone] at sessions

/-- Facts of a server that hold in every state: one that does not run holds no socket, only a
    server without session threads reads a request itself, and it has no sessions. -/
structure Server.Formed (k : ServerName) (v : Server) : Prop where
  closed : v.acceptor = .starting ∨ v.acceptor = .ended → v.listening = false
  threaded : k.threaded = true → v.acceptor ≠ .handling
  plain : k.threaded = false → v.sessions = []

theorem Server.Own.formed {k : ServerName} {v w : Server} (own : Server.Own k v w)
    (formed : Server.Formed k v) : Server.Formed k w := by
  obtain ⟨closed, threaded, plain⟩ := formed
  cases own with
  | listens starting => exact ⟨by simp, by simp, plain⟩
  | fails starting =>
    refine ⟨fun _ => closed (.inl starting), ?_, plain⟩
    intro _
    simp only
    split <;> simp
  | again top running => exact ⟨by simp, by simp, plain⟩
  | leaves top stopped => exact ⟨by simp, by simp, plain⟩
  | rejected accepting shut => exact ⟨by simp, by simp, plain⟩
  | hungUp sessions => exact ⟨closed, threaded, fun name => by simp [plain name] at sessions⟩

theorem Server.Client.formed {k : ServerName} {v w : Server} (client : Server.Client k v w)
    (formed : Server.Formed k v) : Server.Formed k w := by
  obtain ⟨closed, threaded, plain⟩ := formed
  cases client with
  | connects name accepting listening => exact ⟨by simp, by simp, by simp [name]⟩
  | turnedAway name accepting listening => exact ⟨by simp, by simp, plain⟩
  | asks name accepting listening => exact ⟨by simp, by simp [name], plain⟩
  | served handling => exact ⟨by simp, by simp, plain⟩
  | quits sessions => exact ⟨closed, threaded, fun name => by simp [plain name] at sessions⟩

/-! ## What `main` has reached -/

/-- What holds once an act is behind. -/
def Act.Done (s : Process) : Act → Prop
  | .start _ => True
  | .awaitSignal => s.g_running = false
  | .clearRunning k => (s.server k).running = false
  | .closeListener k => (s.server k).running = false ∧
      ¬ ((s.server k).acceptor = .accepting ∧ (s.server k).listening = true)
  | .joinAcceptor k => (s.server k).running = false ∧ (s.server k).acceptor = .ended
  | .closeClients k => (s.server k).running = false ∧ (s.server k).acceptor = .ended ∧
      ∀ b ∈ (s.server k).sessions, b = true
  | .joinSessions k => (s.server k).running = false ∧ (s.server k).acceptor = .ended ∧
      (s.server k).sessions = []
  | .stopSandbox => s.sandboxRunning = false
  | .joinSandbox => s.sandboxWorker = false

/-- The acts that an act relies on. -/
def Act.needs : Act → List Act
  | .closeListener k => [.clearRunning k]
  | .joinAcceptor k => .clearRunning k :: if k = .metrics then [] else [.closeListener k]
  | .closeClients k => [.joinAcceptor k]
  | .joinSessions k => .joinAcceptor k :: if k = .imap then [] else [.closeClients k]
  | .joinSandbox => [.stopSandbox]
  | _ => []

def Act.isStart : Act → Bool
  | .start _ => true
  | _ => false

theorem program_needs : ∀ n : Fin program.length,
    ∀ b ∈ program[n].needs, b ∈ program.take n := by
  decide

theorem program_starts : ∀ n : Fin program.length,
    (∃ a ∈ program.drop (n + 1), a.isStart = true) → program[n].isStart = true := by
  decide

theorem program_nodup : program.Nodup := by
  decide

theorem needs_done {done rest : List Act} {a b : Act} (split : program = done ++ a :: rest)
    (needed : b ∈ a.needs) : b ∈ done := by
  have within : done.length < program.length := by simp [split]
  have here : program[done.length] = a := by simp [split]
  have before : program.take done.length = done := by simp [split]
  have found := program_needs ⟨done.length, within⟩ b (by simpa [here] using needed)
  simpa [before] using found

theorem start_first {done rest : List Act} {a : Act} {k : ServerName}
    (split : program = done ++ a :: rest) (later : .start k ∈ rest) : a.isStart = true := by
  have within : done.length < program.length := by simp [split]
  have here : program[done.length] = a := by simp [split]
  have after : program.drop (done.length + 1) = rest := by simp [split, ← List.drop_drop]
  have first := program_starts ⟨done.length, within⟩ ⟨_, by simpa [after] using later, rfl⟩
  simpa [here] using first

structure Process.Winds (s t : Process) : Prop where
  server : ∀ k, (s.server k).Winds (t.server k)
  signalled : s.g_running = false → t.g_running = false
  sandbox : s.sandboxRunning = false → t.sandboxRunning = false
  worker : s.sandboxWorker = false → t.sandboxWorker = false

theorem Act.Done.winds {s t : Process} {a : Act} (done : a.Done s) (winds : s.Winds t) :
    a.Done t := by
  cases a with
  | start _ => trivial
  | awaitSignal => exact winds.signalled done
  | clearRunning k => exact (winds.server k).stopped done
  | closeListener k =>
    obtain ⟨stopped, shut⟩ := done
    exact ⟨(winds.server k).stopped stopped, (winds.server k).shut stopped shut⟩
  | joinAcceptor k =>
    obtain ⟨stopped, ended⟩ := done
    exact ⟨(winds.server k).stopped stopped, (winds.server k).joined stopped ended⟩
  | closeClients k =>
    obtain ⟨stopped, ended, gone⟩ := done
    exact ⟨(winds.server k).stopped stopped, (winds.server k).joined stopped ended,
      (winds.server k).hungUp stopped ended gone⟩
  | joinSessions k =>
    obtain ⟨stopped, ended, alone⟩ := done
    exact ⟨(winds.server k).stopped stopped, (winds.server k).joined stopped ended,
      (winds.server k).alone stopped ended alone⟩
  | stopSandbox => exact winds.sandbox done
  | joinSandbox => exact winds.worker done

theorem Process.Winds.set {s : Process} {k : ServerName} {v : Server}
    (winds : (s.server k).Winds v) : s.Winds (s.set k v) := by
  constructor
  · intro j
    by_cases same : j = k
    · subst same
      simpa using winds
    · simpa [same] using Server.Winds.refl (s.server j)
  · exact id
  · exact id
  · exact id

theorem Process.Winds.refl (s : Process) : s.Winds s :=
  ⟨fun _ => Server.Winds.refl _, id, id, id⟩

/-- Apart from a start, no act of `main` undoes what another has reached. -/
theorem perform_winds {s t : Process} {a : Act} (performed : a.perform s = some t)
    (later : a.isStart = false) : s.Winds t := by
  cases a with
  | start k => simp [Act.isStart] at later
  | awaitSignal =>
    simp only [Act.perform, Option.ite_none_left_eq_some, Option.some.injEq] at performed
    obtain ⟨-, rfl⟩ := performed
    exact Process.Winds.refl s
  | clearRunning _ =>
    simp only [Act.perform, Option.some.injEq] at performed
    subst performed
    apply Process.Winds.set
    exact ⟨fun _ => rfl, fun _ => id, fun _ => id, fun _ _ => id, fun _ _ => id⟩
  | closeListener k =>
    simp only [Act.perform, Option.some.injEq] at performed
    subst performed
    apply Process.Winds.set
    exact ⟨id, by simp, fun _ => id, fun _ _ => id, fun _ _ => id⟩
  | closeClients k =>
    simp only [Act.perform, Option.some.injEq] at performed
    subst performed
    apply Process.Winds.set
    exact ⟨id, fun _ => id, fun _ => id, by simp, by simp⟩
  | joinAcceptor k =>
    simp only [Act.perform, Option.ite_none_right_eq_some, Option.some.injEq] at performed
    obtain ⟨-, rfl⟩ := performed
    exact Process.Winds.refl s
  | joinSessions k =>
    simp only [Act.perform, Option.ite_none_right_eq_some, Option.some.injEq] at performed
    obtain ⟨-, rfl⟩ := performed
    exact Process.Winds.refl s
  | stopSandbox =>
    simp only [Act.perform, Option.some.injEq] at performed
    subst performed
    exact ⟨fun k => Server.Winds.refl _, id, fun _ => rfl, id⟩
  | joinSandbox =>
    simp only [Act.perform, Option.ite_none_left_eq_some, Option.some.injEq] at performed
    obtain ⟨-, rfl⟩ := performed
    exact Process.Winds.refl s

/-- An act reaches its aim where those that it relies on are behind. -/
theorem perform_done {s t : Process} {a : Act} (performed : a.perform s = some t)
    (needs : ∀ b ∈ a.needs, b.Done s) : a.Done t := by
  cases a with
  | start _ => trivial
  | awaitSignal =>
    simp only [Act.perform, Option.ite_none_left_eq_some, Option.some.injEq] at performed
    obtain ⟨signalled, rfl⟩ := performed
    simpa [Act.Done] using signalled
  | clearRunning _ =>
    simp only [Act.perform, Option.some.injEq] at performed
    subst performed
    simp [Act.Done]
  | closeListener k =>
    simp only [Act.perform, Option.some.injEq] at performed
    subst performed
    have stopped : (s.server k).running = false := needs (.clearRunning k) (by simp [Act.needs])
    simp [Act.Done, stopped]
  | joinAcceptor k =>
    simp only [Act.perform, Option.ite_none_right_eq_some, Option.some.injEq] at performed
    obtain ⟨ended, rfl⟩ := performed
    exact ⟨needs (.clearRunning k) (by simp [Act.needs]), ended⟩
  | closeClients k =>
    simp only [Act.perform, Option.some.injEq] at performed
    subst performed
    obtain ⟨stopped, ended⟩ := needs (.joinAcceptor k) (by simp [Act.needs])
    simp [Act.Done, stopped, ended]
  | joinSessions k =>
    simp only [Act.perform, Option.ite_none_right_eq_some, Option.some.injEq] at performed
    obtain ⟨alone, rfl⟩ := performed
    obtain ⟨stopped, ended⟩ := needs (.joinAcceptor k) (by simp [Act.needs])
    exact ⟨stopped, ended, alone⟩
  | stopSandbox =>
    simp only [Act.perform, Option.some.injEq] at performed
    subst performed
    rfl
  | joinSandbox =>
    simp only [Act.perform, Option.ite_none_left_eq_some, Option.some.injEq] at performed
    obtain ⟨ended, rfl⟩ := performed
    simpa [Act.Done] using ended

/-- What holds in every state of the process. -/
structure Inv (s : Process) : Prop where
  done : ∃ done, program = done ++ s.main ∧ ∀ a ∈ done, a.Done s
  formed : ∀ k, (s.server k).Formed k
  unstarted : ∀ k, .start k ∈ s.main → s.server k = {}

theorem formed_set {s : Process} {k : ServerName} {v : Server}
    (formed : ∀ j, (s.server j).Formed j) (here : v.Formed k) :
    ∀ j, ((s.set k v).server j).Formed j := by
  intro j
  by_cases same : j = k
  · subst same
    simpa using here
  · simpa [same] using formed j

theorem perform_formed {s t : Process} {a : Act} (performed : a.perform s = some t)
    (formed : ∀ k, (s.server k).Formed k)
    (unstarted : ∀ k, a = .start k → s.server k = {}) : ∀ k, (t.server k).Formed k := by
  cases a with
  | start k =>
    simp only [Act.perform, Option.some.injEq] at performed
    subst performed
    apply formed_set formed
    simp only [unstarted k rfl]
    exact ⟨fun _ => rfl, by simp, fun _ => rfl⟩
  | clearRunning k =>
    simp only [Act.perform, Option.some.injEq] at performed
    subst performed
    apply formed_set formed
    exact ⟨(formed k).closed, (formed k).threaded, (formed k).plain⟩
  | closeListener k =>
    simp only [Act.perform, Option.some.injEq] at performed
    subst performed
    apply formed_set formed
    exact ⟨fun _ => rfl, (formed k).threaded, (formed k).plain⟩
  | closeClients k =>
    simp only [Act.perform, Option.some.injEq] at performed
    subst performed
    apply formed_set formed
    exact ⟨(formed k).closed, (formed k).threaded, fun plain => by simp [(formed k).plain plain]⟩
  | stopSandbox =>
    simp only [Act.perform, Option.some.injEq] at performed
    subst performed
    exact formed
  | joinAcceptor _ | joinSessions _ =>
    simp only [Act.perform, Option.ite_none_right_eq_some, Option.some.injEq] at performed
    obtain ⟨-, rfl⟩ := performed
    exact formed
  | awaitSignal | joinSandbox =>
    simp only [Act.perform, Option.ite_none_left_eq_some, Option.some.injEq] at performed
    obtain ⟨-, rfl⟩ := performed
    exact formed

theorem start_others {s t : Process} {a : Act} {k : ServerName}
    (performed : a.perform s = some t) (start : a.isStart = true) (other : a ≠ .start k) :
    t.server k = s.server k := by
  cases a with
  | start j =>
    simp only [Act.perform, Option.some.injEq] at performed
    subst performed
    have differs : k ≠ j := by
      rintro rfl
      exact other rfl
    simp [differs]
  | _ => simp [Act.isStart] at start

theorem inv_main {s t : Process} {a : Act} {rest : List Act} (inv : Inv s)
    (acts : s.main = a :: rest) (performed : a.perform s = some t) :
    Inv { t with main := rest } := by
  obtain ⟨⟨done, split, reached⟩, formed, unstarted⟩ := inv
  rw [acts] at split unstarted
  constructor
  · refine ⟨done ++ [a], by simp [split], ?_⟩
    intro b member
    simp only [List.mem_append, List.mem_singleton] at member
    have kept : b.Done t := by
      obtain earlier | rfl := member
      · cases start : a.isStart with
        | false => exact (reached b earlier).winds (perform_winds performed start)
        | true =>
          -- nothing but starts comes before a start
          obtain ⟨before, after, rfl⟩ := List.append_of_mem earlier
          cases a with
          | start k =>
            have first : b.isStart = true := by
              have earliest : program = before ++ b :: (after ++ .start k :: rest) := by
                simpa using split
              exact @start_first _ _ _ k earliest (by simp)
            cases b with
            | start j => trivial
            | _ => simp [Act.isStart] at first
          | _ => simp [Act.isStart] at start
      · exact perform_done performed fun c needed => reached c (needs_done split needed)
    exact kept
  · have shapes : ∀ k, (t.server k).Formed k :=
      perform_formed performed formed fun k same => unstarted k (by simp [same])
    exact shapes
  · intro k later
    have start := start_first split later
    have other : a ≠ .start k := by
      rintro rfl
      have nodup := program_nodup
      rw [split] at nodup
      have apart := (List.nodup_cons.mp (List.nodup_append.mp nodup).2.1).1
      exact apart later
    calc t.server k = s.server k := start_others performed start other
      _ = {} := unstarted k (by simp [later])

theorem inv_server {s : Process} {k : ServerName} {v : Server} (inv : Inv s)
    (winds : (s.server k).Winds v) (formed : v.Formed k) (started : s.server k ≠ {}) :
    Inv (s.set k v) := by
  obtain ⟨⟨done, split, reached⟩, shapes, unstarted⟩ := inv
  constructor
  · exact ⟨done, split, fun a member => (reached a member).winds (.set winds)⟩
  · exact formed_set shapes formed
  · intro j later
    have other : j ≠ k := by
      rintro rfl
      exact started (unstarted j later)
    simpa [other] using unstarted j later

theorem Server.Own.started {k : ServerName} {v w : Server} (own : Server.Own k v w) : v ≠ {} := by
  rintro rfl
  cases own <;> simp_all

theorem Server.Client.started {k : ServerName} {v w : Server} (client : Server.Client k v w) :
    v ≠ {} := by
  rintro rfl
  cases client <;> simp_all

theorem inv_thread {s t : Process} (inv : Inv s) (step : ThreadStep s t) : Inv t := by
  cases step with
  | main acts performed => exact inv_main inv acts performed
  | own own => exact inv_server inv own.winds (own.formed (inv.formed _)) own.started
  | sandbox stopped =>
    obtain ⟨⟨done, split, reached⟩, formed, unstarted⟩ := inv
    have winds : s.Winds { s with sandboxWorker := false } :=
      ⟨fun k => Server.Winds.refl _, id, id, fun _ => rfl⟩
    exact ⟨⟨done, split, fun a member => (reached a member).winds winds⟩, formed, unstarted⟩

end EmailServer.Main
