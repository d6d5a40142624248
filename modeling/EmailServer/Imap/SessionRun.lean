import EmailServer.Imap.ImapSession
import Mathlib.Logic.Function.Iterate

/-! # `ImapSession::run`, turn by turn

Other threads go on between two turns of a session, so that its turns count as steps.
However the session ends, it has closed its socket at most once, and exactly once if
`run` returns.
-/

namespace EmailServer.Imap

open EmailServer.Core

/-- Where `run` is. -/
inductive SessionRun where
  /-- Before a turn of the loop. -/
  | looping (c : Conn)
  /-- Behind the loop. -/
  | leaving (c : Conn)
  | returned (c : Conn)
  /-- An exception has left `run`. -/
  | threw (c : Conn)

/-- How often a session has closed its socket. -/
def Conn.closes (c : Conn) : Nat := c.env.log.count .socketClosed

namespace SessionRun

/-- Where a call of `run` ends. -/
def ended : Ended → SessionRun
  | .ok c => .returned c
  | .error c => .threw c

def conn : SessionRun → Conn
  | .looping c | .leaving c | .returned c | .threw c => c

/-- `run` is called. -/
def start (domain : Bytes) (ssl : Option TlsConnection) (env : Env) : SessionRun :=
  .looping (greet domain (.fresh ssl env))

def next : SessionRun → SessionRun
  | .looping c =>
      let (line, rest) := readFrom [] c.env.input
      let c := { c with env := { c.env with input := rest } }
      match line with
      | none => .leaving c
      | some [] => .looping c
      | some line =>
          match handleCommand line c with
          | .error c => .threw c
          | .ok c => if c.session.sockOpen then .looping c else .leaving c
  | .leaving c => .returned (if c.session.sockOpen then c.closeSocket else c)
  | .returned c => .returned c
  | .threw c => .threw c

/-- The next turn closes the socket. -/
def closing (run : SessionRun) : Bool := decide (run.conn.closes < run.next.conn.closes)

/-- The loop goes on with an open socket, and `run` returns with a closed one. It was
    closed once if it is closed. -/
structure Kept (run : SessionRun) : Prop where
  looping : ∀ c, run = .looping c → c.session.sockOpen = true
  returned : ∀ c, run = .returned c → c.session.sockOpen = false
  once : run.conn.closes = if run.conn.session.sockOpen then 0 else 1

end SessionRun

/-! ## What a command takes and closes -/

theorem readFrom_shorter {input rest : List Smtp.Recv} {out line : Bytes}
    (read : readFrom out input = (some line, rest)) : rest.length < input.length := by
  fun_induction readFrom out input with
  | case1 out later ih => exact (ih read).trans (Nat.lt_succ_self _)
  | case2 out later =>
      obtain ⟨-, rfl⟩ := Prod.mk.inj read
      exact Nat.lt_succ_self _
  | case3 out c later _ _ ih => exact (ih read).trans (Nat.lt_succ_self _)
  | case4 | case5 => cases read

/-- The input and the socket are left as they are. -/
structure Conn.Spares (c d : Conn) : Prop where
  input : d.env.input = c.env.input
  sockOpen : d.session.sockOpen = c.session.sockOpen
  closes : d.closes = c.closes

/-- The socket is closed once, and the input left as it is. -/
structure Conn.Closes (c d : Conn) : Prop where
  input : d.env.input = c.env.input
  sockOpen : d.session.sockOpen = false
  closes : d.closes = c.closes + 1

section Commands

variable {tag args line : Bytes} {c d : Conn}

theorem Conn.Spares.of_eq (spares : c.Spares d) {e : Conn} (input : e.env.input = d.env.input)
    (sockOpen : e.session.sockOpen = d.session.sockOpen) (log : e.env.log = d.env.log) :
    c.Spares e := by
  refine ⟨input.trans spares.input, sockOpen.trans spares.sockOpen, ?_⟩
  rw [Conn.closes, log]
  exact spares.closes

theorem Conn.Spares.record (spares : c.Spares d) {event : Event} (other : event ≠ .socketClosed) :
    c.Spares (d.record event) := by
  refine ⟨spares.input, spares.sockOpen, ?_⟩
  rw [← spares.closes]
  exact List.count_cons_of_ne (by simpa using other)

theorem Conn.Spares.sendLine (spares : c.Spares d) (text : Bytes) : c.Spares (d.sendLine text) :=
  spares.record (by simp)

theorem Conn.Spares.closeSocket (spares : c.Spares d) : c.Closes d.closeSocket := by
  refine ⟨spares.input, rfl, ?_⟩
  rw [← spares.closes]
  exact List.count_cons_self

theorem handleCapability_spares : c.Spares (handleCapability tag c) :=
  (Conn.Spares.sendLine ⟨rfl, rfl, rfl⟩ _).sendLine _

theorem handleStarttls_spares : c.Spares (handleStarttls tag c).conn := by
  have begun : c.Spares (c.sendLine (tag ++ ascii " OK Begin TLS negotiation")) :=
    .sendLine ⟨rfl, rfl, rfl⟩ _
  unfold handleStarttls
  dsimp only
  split
  · exact begun.of_eq rfl rfl rfl
  · refine Conn.Spares.sendLine ?_ _
    exact begun.of_eq rfl rfl rfl
  · refine Conn.Spares.sendLine ?_ _
    exact begun.of_eq rfl rfl rfl
  · rename_i version cipherBits _
    have accepted : c.Spares ((c.sendLine (tag ++ ascii " OK Begin TLS negotiation")).record
        (.handshaken ⟨version, cipherBits⟩)) := begun.record (by simp)
    exact (accepted.sendLine (ascii "* OK TLS active - resend CAPABILITY")).of_eq rfl rfl rfl

theorem handleLogin_spares : c.Spares (handleLogin tag args c).conn := by
  have same : c.Spares c := ⟨rfl, rfl, rfl⟩
  have asked : ∀ answer, c.Spares (c.record (.validate c.session (stripQuotes (word args).1)
      (stripQuotes (word (word args).2).1) answer)) :=
    fun answer => same.record (by simp)
  unfold handleLogin
  split
  · exact same.sendLine _
  dsimp only
  split
  · exact same.sendLine _
  split
  · exact same.sendLine _
  split
  · exact (asked _).of_eq rfl rfl rfl
  · refine Conn.Spares.sendLine ?_ _
    exact (asked _).of_eq rfl rfl rfl
  · refine Conn.Spares.sendLine ?_ _
    exact (asked _).of_eq rfl rfl rfl

theorem handleCommand_socket :
    c.Spares (handleCommand line c).conn ∨ c.Closes (handleCommand line c).conn := by
  unfold handleCommand
  dsimp only
  split
  · exact .inl handleCapability_spares
  split
  · exact .inl handleStarttls_spares
  split
  · split
    · exact .inl handleLogin_spares
    · exact .inl (Conn.Spares.sendLine ⟨rfl, rfl, rfl⟩ _)
  split
  · exact .inr (Conn.Spares.closeSocket (.sendLine (.sendLine ⟨rfl, rfl, rfl⟩ _) _))
  · exact .inl (Conn.Spares.sendLine ⟨rfl, rfl, rfl⟩ _)

theorem handleCommand_input : (handleCommand line c).conn.env.input = c.env.input :=
  handleCommand_socket.elim Conn.Spares.input Conn.Closes.input

end Commands

/-! ## The turns are those of `run` -/

section Turns

variable {domain : Bytes} {ssl : Option TlsConnection} {env : Env}

theorem runLoop_turns {fuel : Nat} {c : Conn} (enough : c.env.input.length < fuel) :
    ∃ turns, SessionRun.next^[turns] (.looping c) =
      match runLoop fuel c with
      | .ok d => .leaving d
      | .error d => .threw d := by
  induction fuel generalizing c with
  | zero => omega
  | succ fuel ih =>
      -- The next turn, and from there as the shorter run goes.
      have goes : ∀ {d : Conn}, SessionRun.next (.looping c) = .looping d →
          d.env.input.length < fuel → ∃ turns, SessionRun.next^[turns] (.looping c) =
            match runLoop fuel d with
            | .ok d => .leaving d
            | .error d => .threw d := by
        intro d turn shorter
        obtain ⟨turns, ends⟩ := ih shorter
        exact ⟨turns + 1, by rw [Function.iterate_succ_apply, turn, ends]⟩
      rcases read : readFrom [] c.env.input with ⟨_ | ⟨_ | ⟨b, line⟩⟩, rest⟩
      · exact ⟨1, by simp [SessionRun.next, runLoop, read]⟩
      · have shorter := readFrom_shorter read
        simp only [runLoop, read]
        exact goes (by simp only [SessionRun.next, read]) (by dsimp only; omega)
      · have shorter := readFrom_shorter read
        have input := @handleCommand_input (b :: line)
          { c with env := { c.env with input := rest } }
        rcases handled : handleCommand (b :: line) { c with env := { c.env with input := rest } }
          with d | d
        · exact ⟨1, by simp [SessionRun.next, runLoop, read, handled]⟩
        · rw [handled] at input
          cases opened : d.session.sockOpen
          · exact ⟨1, by simp [SessionRun.next, runLoop, read, handled, opened]⟩
          · simp only [runLoop, read, handled, opened, if_true]
            refine goes (by simp [SessionRun.next, read, handled, opened]) ?_
            rw [show d.env.input = rest from input]
            omega

/-- The turns come to where a call of `run` does. -/
theorem run_turns : ∃ turns, SessionRun.next^[turns] (.start domain ssl env) =
    .ended (run domain (.fresh ssl env)) := by
  have input : (greet domain (.fresh ssl env)).env.input = env.input := by
    unfold greet
    split <;> rfl
  obtain ⟨turns, ends⟩ := @runLoop_turns (env.input.length + 1) (greet domain (.fresh ssl env))
    (by rw [input]; exact Nat.lt_succ_self _)
  have whole : run domain (.fresh ssl env) = (runLoop (env.input.length + 1)
      (greet domain (.fresh ssl env))).map fun c =>
        if c.session.sockOpen then c.closeSocket else c := rfl
  rw [whole]
  rcases ended : runLoop (env.input.length + 1) (greet domain (.fresh ssl env)) with d | d
  · rw [ended] at ends
    exact ⟨turns, ends⟩
  · rw [ended] at ends
    exact ⟨turns + 1, by rw [Function.iterate_succ_apply', SessionRun.start, ends]; rfl⟩

end Turns

/-! ## The socket is closed once -/

namespace SessionRun

variable {domain : Bytes} {ssl : Option TlsConnection} {env : Env} {run : SessionRun}

theorem start_kept : (start domain ssl env).Kept := by
  have greeted : (Conn.fresh ssl env).Spares (greet domain (.fresh ssl env)) := by
    unfold greet
    split <;> exact Conn.Spares.sendLine ⟨rfl, rfl, rfl⟩ _
  refine ⟨?_, ?_, ?_⟩
  · rintro c same
    cases same
    exact greeted.sockOpen
  · rintro c same
    cases same
  · change (greet domain (.fresh ssl env)).closes = _
    rw [greeted.closes]
    exact (if_pos greeted.sockOpen).symm

theorem handled_once {line : Bytes} {c : Conn} (opened : c.session.sockOpen = true)
    (once : c.closes = 0) : (handleCommand line c).conn.closes =
      if (handleCommand line c).conn.session.sockOpen then 0 else 1 := by
  rcases @handleCommand_socket line c with spares | closes
  · rw [spares.closes, spares.sockOpen, opened, once]
    rfl
  · rw [closes.closes, closes.sockOpen, once]
    rfl

theorem Kept.next (kept : run.Kept) : run.next.Kept := by
  cases run with
  | looping c =>
      have opened := kept.looping c rfl
      have zero : c.closes = 0 := kept.once.trans (if_pos opened)
      rcases read : readFrom [] c.env.input with ⟨_ | ⟨_ | ⟨b, line⟩⟩, rest⟩
      · simp only [SessionRun.next, read]
        exact ⟨by simp, by simp, kept.once⟩
      · simp only [SessionRun.next, read]
        exact ⟨by rintro d same; cases same; exact opened, by simp, kept.once⟩
      · have once := @handled_once (b :: line) { c with env := { c.env with input := rest } }
          opened zero
        simp only [SessionRun.next, read]
        rcases handled : handleCommand (b :: line) { c with env := { c.env with input := rest } }
          with d | d
        · rw [handled] at once
          exact ⟨by simp, by simp, once⟩
        · rw [handled] at once
          cases still : d.session.sockOpen with
          | false =>
              simp only [still]
              exact ⟨by simp, by simp, once⟩
          | true =>
              simp only [still, if_true]
              exact ⟨by rintro e same; cases same; exact still, by simp, once⟩
  | leaving c =>
      have once : c.closes = if c.session.sockOpen then 0 else 1 := kept.once
      simp only [SessionRun.next]
      cases opened : c.session.sockOpen with
      | false =>
          rw [opened] at once
          exact ⟨by simp, by rintro d same; cases same; exact opened, by simpa [conn, opened]⟩
      | true =>
          rw [opened] at once
          have closed := Conn.Spares.closeSocket (show c.Spares c from ⟨rfl, rfl, rfl⟩)
          refine ⟨by simp, by rintro d same; cases same; exact closed.sockOpen, ?_⟩
          change c.closeSocket.closes = 1
          rw [closed.closes, once]
          rfl
  | returned c | threw c => exact kept

theorem Kept.turns (kept : run.Kept) (turns : Nat) : (SessionRun.next^[turns] run).Kept := by
  induction turns with
  | zero => exact kept
  | succ turns ih =>
      rw [Function.iterate_succ_apply']
      exact ih.next

theorem Kept.shut (kept : run.Kept) (closed : run.conn.session.sockOpen = false) :
    run.next.conn.session.sockOpen = false := by
  cases run with
  | looping c =>
      have opened : c.session.sockOpen = true := kept.looping c rfl
      rw [show c.session.sockOpen = false from closed] at opened
      cases opened
  | leaving c => exact kept.next.returned _ rfl
  | returned c | threw c => exact closed

theorem Kept.closing (kept : run.Kept) :
    run.closing = (run.conn.session.sockOpen && !run.next.conn.session.sockOpen) := by
  rw [SessionRun.closing, kept.once, kept.next.once]
  cases opened : run.conn.session.sockOpen with
  | false => simp [kept.shut opened]
  | true => cases run.next.conn.session.sockOpen <;> simp

theorem Kept.not_closing (kept : run.Kept) (quiet : run.closing = false) :
    run.next.conn.session.sockOpen = run.conn.session.sockOpen := by
  have turn := kept.closing
  rw [quiet] at turn
  cases opened : run.conn.session.sockOpen with
  | false => exact kept.shut opened
  | true => simpa [opened] using turn.symm

end SessionRun

/-- `run` returns with the socket closed, and has closed it once. -/
theorem run_closes_once {domain : Bytes} {ssl : Option TlsConnection} {env : Env} {c : Conn}
    (returned : run domain (.fresh ssl env) = .ok c) :
    c.session.sockOpen = false ∧ c.closes = 1 := by
  obtain ⟨turns, ends⟩ := @run_turns domain ssl env
  have kept := (@SessionRun.start_kept domain ssl env).turns turns
  rw [ends, returned] at kept
  have closed : c.session.sockOpen = false := kept.returned c rfl
  have once : c.closes = if c.session.sockOpen then 0 else 1 := kept.once
  rw [closed] at once
  exact ⟨closed, once⟩

end EmailServer.Imap
