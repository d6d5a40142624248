import EmailServer.Imap.LoginArguments
import EmailServer.Imap.SessionRun

/-! # IMAP dialogues

What the client sees of a session: the greeting, and then an answer to each command in turn. An
answer ends with the one reply that bears the command's tag, except that the outcome of a handshake
is reported after the command was completed, and that a login is left open when `validate` throws.
-/

namespace EmailServer.Imap

open Smtp (Recv Handshake)

/-! ## Replies and commands -/

def Event.text : Event → Option Bytes
  | .reply line => some line
  | _ => none

/-- The lines sent so far, oldest first. -/
def Conn.replies (c : Conn) : List Bytes := c.env.log.reverse.filterMap Event.text

/-- The lines that the loop of `readLine` comes to, until the connection ends. -/
def linesFrom (out : Bytes) : List Recv → List Bytes
  | .byte c :: rest =>
      if c = Bytes.cr then linesFrom out rest
      else if c = Bytes.lf then out :: linesFrom [] rest
      else linesFrom (out ++ [c]) rest
  | _ => []

/-- A command with the connection it meets. -/
structure Exchange where
  line : Bytes
  before : Conn

namespace Exchange

variable (x : Exchange)

def tag : Bytes := (splitImap x.line).tag

def verb : Bytes := (splitImap x.line).cmd.map Bytes.toUpper

def ended : Ended := handleCommand x.line x.before

/-- The lines sent in answer. -/
def replies : List Bytes := x.ended.conn.replies.drop x.before.replies.length

def throws : Bool :=
  match x.ended with
  | .error _ => true
  | .ok _ => false

/-- No further command is read. -/
def stops : Bool := x.throws || !x.ended.conn.session.sockOpen

/-- The handshake that comes next. -/
def handshake : Handshake := x.before.env.handshakes.headD .noSsl

/-- A handshake is begun, and fails. -/
def RefusesTls : Prop :=
  x.verb = ascii "STARTTLS" ∧ (x.handshake = .noSsl ∨ x.handshake = .notAccepted)

/-- A handshake is begun, and accepted. -/
def StartsTls : Prop :=
  x.verb = ascii "STARTTLS" ∧ ∃ version cipherBits, x.handshake = .accepted version cipherBits

/-- `validate` throws. -/
def LosesLogin : Prop := x.verb = ascii "LOGIN" ∧ x.throws = true

end Exchange

/-- The commands that the loop comes to. -/
def exchanges : Nat → Conn → List Exchange
  | 0, _ => []
  | fuel + 1, c =>
      let (line, rest) := readFrom [] c.env.input
      let c := { c with env := { c.env with input := rest } }
      match line with
      | none => []
      | some [] => exchanges fuel c
      | some line =>
          ⟨line, c⟩ :: match handleCommand line c with
            | .error _ => []
            | .ok c => if c.session.sockOpen then exchanges fuel c else []

/-- The commands of a session. -/
def dialogue (domain : Bytes) (ssl : Option TlsConnection) (env : Env) : List Exchange :=
  exchanges (env.input.length + 1) (greet domain (.fresh ssl env))

abbrev Untagged (reply : Bytes) : Prop := ascii "* " <+: reply

def Tagged (tag reply : Bytes) : Prop := tag ++ ascii " " <+: reply

/-- The last line completes the command, and the others are data. -/
def Completed (tag : Bytes) (answer : List Bytes) : Prop :=
  ∃ data reply, answer = data ++ [reply] ∧ Tagged tag reply ∧ ∀ line ∈ data, Untagged line

/-- The last line bears the tag, and no other line does. -/
def CompletedOnce (tag : Bytes) (answer : List Bytes) : Prop :=
  ∃ data reply, answer = data ++ [reply] ∧ Tagged tag reply ∧ ∀ line ∈ data, ¬ Tagged tag line

/-- The line is not broken. -/
abbrev Whole (reply : Bytes) : Prop := Bytes.cr ∉ reply ∧ Bytes.lf ∉ reply

/-! ## One command -/

/-- How a command is answered. -/
inductive Answer (x : Exchange) : List Bytes → Prop
  | completed {answer} : ¬ x.RefusesTls → ¬ x.StartsTls → ¬ x.LosesLogin → Completed x.tag answer →
      Answer x answer
  | refused : x.RefusesTls →
      Answer x [x.tag ++ ascii " OK Begin TLS negotiation", x.tag ++ ascii " NO TLS negotiation failed"]
  | started : x.StartsTls →
      Answer x [x.tag ++ ascii " OK Begin TLS negotiation", ascii "* OK TLS active - resend CAPABILITY"]
  | lost : x.LosesLogin → Answer x []

section Answers

variable {tag text : Bytes} {x : Exchange} {answer : List Bytes}

theorem tagged (tag text : Bytes) : Tagged tag (tag ++ (ascii " " ++ text)) := by
  rw [← List.append_assoc]
  exact List.prefix_append _ _

theorem Completed.single {reply : Bytes} (tagged : Tagged tag reply) : Completed tag [reply] :=
  ⟨[], reply, rfl, tagged, by simp⟩

theorem tag_solid : Solid x.tag := word_solid

theorem whole_tagged (clean : Whole text) : Whole (x.tag ++ text) := by
  have solid : ∀ c, Bytes.isSpace c = true → c ∉ x.tag := by
    intro c space member
    have other := @tag_solid x c member
    rw [space] at other
    cases other
  exact ⟨by simp [clean.1, solid Bytes.cr rfl], by simp [clean.2, solid Bytes.lf rfl]⟩

theorem whole_around {before after : Bytes} (first : Whole before) (last : Whole after) :
    Whole (before ++ text ++ after) ↔ Whole text := by
  simp [Whole, first.1, first.2, last.1, last.2]

theorem Tagged.not_untagged {reply : Bytes} (tagged : Tagged x.tag reply) (other : x.tag ≠ ascii "*") :
    ¬ Untagged reply := by
  intro untagged
  have solid := @tag_solid x
  obtain ⟨rest, rfl⟩ := tagged
  obtain ⟨data, same⟩ := untagged
  rw [show ascii "* " = [42, 32] by decide, show ascii " " = [32] by decide] at same
  match tag : x.tag with
  | [] =>
      rw [tag] at same
      exact absurd (List.cons.inj same).1 (by decide)
  | [c] =>
      rw [tag] at same
      obtain ⟨rfl, -⟩ := List.cons.inj same
      exact other tag
  | c :: d :: more =>
      rw [tag] at same
      obtain ⟨rfl, -⟩ := List.cons.inj (List.cons.inj same).2
      exact absurd (solid 32 (by simp [tag])) (by decide)

theorem completedOnce_pair {first last : Bytes} (once : CompletedOnce tag [first, last]) :
    ¬ Tagged tag first ∧ Tagged tag last := by
  obtain ⟨data, reply, same, tagged, others⟩ := once
  obtain ⟨rfl, single⟩ := List.append_inj' (show [first] ++ [last] = data ++ [reply] from same) rfl
  obtain rfl : last = reply := List.singleton_inj.mp single
  exact ⟨others _ (List.mem_singleton_self _), tagged⟩

theorem Answer.completedOnce_iff (answered : Answer x answer) (other : x.tag ≠ ascii "*") :
    CompletedOnce x.tag answer ↔ ¬ x.RefusesTls ∧ ¬ x.StartsTls ∧ ¬ x.LosesLogin := by
  have begun : Tagged x.tag (x.tag ++ ascii " OK Begin TLS negotiation") :=
    tagged _ (ascii "OK Begin TLS negotiation")
  cases answered with
  | completed kept plain given completed =>
      obtain ⟨data, reply, same, bears, untagged⟩ := completed
      refine iff_of_true ⟨data, reply, same, bears, fun line member bears => ?_⟩ ⟨kept, plain, given⟩
      exact bears.not_untagged other (untagged line member)
  | refused refuses =>
      exact iff_of_false (fun once => (completedOnce_pair once).1 begun) fun kept => kept.1 refuses
  | started starts =>
      exact iff_of_false (fun once => (completedOnce_pair once).1 begun) fun kept => kept.2.1 starts
  | lost loses =>
      refine iff_of_false ?_ fun kept => kept.2.2 loses
      rintro ⟨data, reply, same, -⟩
      simp at same

end Answers

section Commands

variable {tag args : Bytes} {c : Conn} {x : Exchange}

theorem replies_log {d : Conn} (new : List Event) (log : d.env.log = new ++ c.env.log)
    {answer : List Bytes} (texts : new.reverse.filterMap Event.text = answer) :
    d.replies = c.replies ++ answer := by
  rw [Conn.replies, log, List.reverse_append, List.filterMap_append, texts]
  rfl

/-- The lines by which a command is answered. -/
structure Answers (x : Exchange) (d : Conn) (answer : List Bytes) : Prop where
  replies : d.replies = x.before.replies ++ answer
  kind : Answer x answer
  whole : ∀ reply ∈ answer, Whole reply

theorem Exchange.not_refuses {verb : Bytes} (this : x.verb = verb) (other : verb ≠ ascii "STARTTLS") :
    ¬ x.RefusesTls := fun refuses => other (this.symm.trans refuses.1)

theorem Exchange.not_starts {verb : Bytes} (this : x.verb = verb) (other : verb ≠ ascii "STARTTLS") :
    ¬ x.StartsTls := fun starts => other (this.symm.trans starts.1)

theorem Exchange.not_loses {verb : Bytes} (this : x.verb = verb) (other : verb ≠ ascii "LOGIN") :
    ¬ x.LosesLogin := fun loses => other (this.symm.trans loses.1)

theorem answers_single (text : Bytes) (kept : ¬ x.RefusesTls) (plain : ¬ x.StartsTls)
    (given : ¬ x.LosesLogin) {d : Conn} (sent : d.replies = x.before.replies ++ [x.tag ++ (ascii " " ++ text)])
    (clean : Whole (ascii " " ++ text)) : ∃ answer, Answers x d answer := by
  refine ⟨_, sent, .completed kept plain given (.single (tagged _ _)), ?_⟩
  exact List.forall_mem_singleton.mpr (whole_tagged clean)

theorem answers_data (data text : Bytes) (kept : ¬ x.RefusesTls) (plain : ¬ x.StartsTls)
    (given : ¬ x.LosesLogin) {d : Conn} (sent : d.replies = x.before.replies ++ [data, x.tag ++ (ascii " " ++ text)])
    (untagged : Untagged data) (line : Whole data) (clean : Whole (ascii " " ++ text)) :
    ∃ answer, Answers x d answer := by
  refine ⟨_, sent, .completed kept plain given ⟨[data], _, rfl, tagged _ _, by simpa using untagged⟩, ?_⟩
  have second := @whole_tagged _ x clean
  simpa using ⟨line, second⟩

theorem handleCapability_answers (verb : x.verb = ascii "CAPABILITY") :
    ∃ answer, Answers x (handleCapability x.tag x.before) answer := by
  apply answers_data _ (ascii "OK CAPABILITY completed") (Exchange.not_refuses verb (by decide))
    (Exchange.not_starts verb (by decide)) (Exchange.not_loses verb (by decide))
  · exact replies_log [_, _] rfl rfl
  · exact List.prefix_append_of_prefix (by decide)
  · split <;> decide
  · decide

theorem handleStarttls_answers (verb : x.verb = ascii "STARTTLS") :
    ∃ answer, Answers x (handleStarttls x.tag x.before).conn answer := by
  have given : ¬ x.LosesLogin := Exchange.not_loses verb (by decide)
  have begun : Whole (x.tag ++ ascii " OK Begin TLS negotiation") := whole_tagged (by decide)
  have refused : Whole (x.tag ++ ascii " NO TLS negotiation failed") := whole_tagged (by decide)
  unfold handleStarttls
  dsimp only
  split
  · rename_i threw
    have here : x.handshake = .threw := threw
    have kept : ¬ x.RefusesTls := by
      rintro ⟨-, fails | fails⟩
      all_goals rw [here] at fails; cases fails
    have plain : ¬ x.StartsTls := by
      rintro ⟨-, version, cipherBits, accepted⟩
      rw [here] at accepted
      cases accepted
    apply answers_single (ascii "OK Begin TLS negotiation") kept plain given
    · exact replies_log [_] rfl rfl
    · decide
  · rename_i noSsl
    refine ⟨_, ?_, .refused ⟨verb, .inl noSsl⟩, by simpa using ⟨begun, refused⟩⟩
    exact replies_log [_, _] rfl rfl
  · rename_i notAccepted
    refine ⟨_, ?_, .refused ⟨verb, .inr notAccepted⟩, by simpa using ⟨begun, refused⟩⟩
    exact replies_log [_, _] rfl rfl
  · rename_i version cipherBits accepted
    have active : Whole (ascii "* OK TLS active - resend CAPABILITY") := by decide
    refine ⟨_, ?_, .started ⟨verb, version, cipherBits, accepted⟩, ?_⟩
    · exact replies_log [_, _, _] rfl rfl
    · simp only [List.forall_mem_cons, List.not_mem_nil, false_implies, implies_true, and_true]
      exact ⟨begun, active⟩

theorem handleLogin_answers (verb : x.verb = ascii "LOGIN")
    (here : x.ended = handleLogin x.tag (splitImap x.line).args x.before) :
    ∃ answer, Answers x x.ended.conn answer := by
  have kept : ¬ x.RefusesTls := Exchange.not_refuses verb (by decide)
  have plain : ¬ x.StartsTls := Exchange.not_starts verb (by decide)
  have given : ∀ d, x.ended = .ok d → ¬ x.LosesLogin := by
    rintro d ended ⟨-, throws⟩
    rw [Exchange.throws, ended] at throws
    cases throws
  have one : ∀ text (d : Conn), x.ended = .ok (d.sendLine (x.tag ++ (ascii " " ++ text))) →
      d.replies = x.before.replies ++ [] → Whole (ascii " " ++ text) →
        ∃ answer, Answers x x.ended.conn answer := by
    intro text d ended same clean
    apply answers_single text kept plain (given _ ended)
    · rw [← List.append_nil x.before.replies, ← same, ended]
      exact replies_log [_] rfl rfl
    · exact clean
  unfold handleLogin at here
  split at here
  · exact one (ascii "BAD Already authenticated") _ here (replies_log [] rfl rfl)
      (by decide)
  dsimp only at here
  split at here
  · exact one (ascii "BAD LOGIN requires username and password") _ here (replies_log [] rfl rfl)
      (by decide)
  split at here
  · exact one (ascii "NO LOGIN failed - invalid username") _ here (replies_log [] rfl rfl)
      (by decide)
  split at here
  · refine ⟨[], ?_, .lost ⟨verb, by rw [Exchange.throws, here]⟩, by simp⟩
    rw [here]
    exact replies_log [_] rfl rfl
  · exact one (ascii "NO LOGIN failed") _ here (replies_log [_] rfl rfl) (by decide)
  · exact one (ascii "OK LOGIN completed") _ here (replies_log [_] rfl rfl) (by decide)

theorem Exchange.answers (x : Exchange) : ∃ answer, Answers x x.ended.conn answer := by
  have ended : x.ended = handleCommand x.line x.before := rfl
  unfold handleCommand at ended
  dsimp only at ended
  split at ended
  · rename_i verb
    rw [ended]
    exact handleCapability_answers verb
  split at ended
  · rename_i verb
    rw [ended]
    exact handleStarttls_answers verb
  split at ended
  · rename_i verb
    split at ended
    · exact handleLogin_answers verb ended
    · refine answers_single (ascii "BAD STARTTLS required first")
        (Exchange.not_refuses verb (by decide)) (Exchange.not_starts verb (by decide)) ?_
        (by rw [ended]; exact replies_log [_] rfl rfl) (by decide)
      rintro ⟨-, throws⟩
      rw [Exchange.throws, ended] at throws
      cases throws
  rename_i notStarttls notLogin
  split at ended
  · rename_i verb
    rw [ended]
    apply answers_data (ascii "* BYE Logging out") (ascii "OK LOGOUT completed")
      (Exchange.not_refuses verb (by decide)) (Exchange.not_starts verb (by decide))
      (Exchange.not_loses verb (by decide))
    · exact replies_log [_, _, _] rfl rfl
    · decide
    · decide
    · decide
  · rw [ended]
    exact answers_single (ascii "BAD Unknown or unsupported command")
      (fun refuses => notStarttls refuses.1) (fun starts => notStarttls starts.1)
      (fun loses => notLogin loses.1) (replies_log [_] rfl rfl) (by decide)

/-- What a command sends is its answer. -/
theorem Exchange.answered (x : Exchange) : Answers x x.ended.conn x.replies := by
  obtain ⟨answer, answers⟩ := x.answers
  have same : x.replies = answer := by
    rw [Exchange.replies, answers.replies, List.drop_left]
  rw [same]
  exact answers

end Commands

/-! ## The loop -/

section Loop

variable {domain : Bytes} {ssl : Option TlsConnection} {env : Env}

theorem linesFrom_readFrom (out : Bytes) (input : List Recv) : linesFrom out input =
    match readFrom out input with
    | (some line, rest) => line :: linesFrom [] rest
    | (none, _) => [] := by
  fun_induction readFrom out input with
  | case1 out rest ih => simpa [linesFrom] using ih
  | case2 out rest other => simp [linesFrom, other]
  | case3 out c rest notCr notLf ih => simpa [linesFrom, notCr, notLf] using ih
  | case4 out other rest notByte =>
      cases other with
      | byte c => exact absurd rfl (notByte c)
      | failed | closed | threw | escaped => rfl
  | case5 => rfl

theorem Exchange.stops_error {x : Exchange} {d : Conn} (ended : x.ended = .error d) :
    x.stops = true := by
  simp [Exchange.stops, Exchange.throws, ended]

theorem Exchange.stops_ok {x : Exchange} {d : Conn} (ended : x.ended = .ok d) :
    x.stops = !d.session.sockOpen := by
  simp [Exchange.stops, Exchange.throws, ended, Ended.conn]

theorem runLoop_replies (fuel : Nat) (c : Conn) : (runLoop fuel c).conn.replies =
    c.replies ++ (exchanges fuel c).flatMap Exchange.replies := by
  induction fuel generalizing c with
  | zero => exact (List.append_nil _).symm
  | succ fuel ih =>
      unfold runLoop exchanges
      rcases read : readFrom [] c.env.input with ⟨_ | ⟨_ | ⟨b, line⟩⟩, rest⟩
      · exact (List.append_nil _).symm
      · exact ih _
      · have answered := (Exchange.answered ⟨b :: line, { c with env := { c.env with input := rest } }⟩).replies
        have ended : Exchange.ended ⟨b :: line, { c with env := { c.env with input := rest } }⟩ =
            handleCommand (b :: line) { c with env := { c.env with input := rest } } := rfl
        dsimp only
        rw [List.flatMap_cons]
        rw [ended] at answered
        generalize handleCommand (b :: line) { c with env := { c.env with input := rest } } = handled at answered ⊢
        rcases handled with d | d
        · rw [List.flatMap_nil, List.append_nil]
          exact answered
        · dsimp only
          split
          · rw [ih, ← List.append_assoc]
            congr 1
          · rw [List.flatMap_nil, List.append_nil]
            exact answered

/-- The commands are those that were received, up to one after which none is read. -/
theorem exchanges_lines {fuel : Nat} {c : Conn} (enough : c.env.input.length < fuel) :
    ∃ unread, (linesFrom [] c.env.input).filter (· ≠ []) =
        (exchanges fuel c).map Exchange.line ++ unread ∧
      (unread = [] ∨ ∃ last ∈ (exchanges fuel c).getLast?, last.stops = true) := by
  induction fuel generalizing c with
  | zero => omega
  | succ fuel ih =>
      unfold exchanges
      rw [linesFrom_readFrom]
      rcases read : readFrom [] c.env.input with ⟨_ | ⟨_ | ⟨b, line⟩⟩, rest⟩
      · exact ⟨[], rfl, .inl rfl⟩
      · have shorter := readFrom_shorter read
        exact @ih { c with env := { c.env with input := rest } } (show rest.length < fuel by omega)
      · have shorter := readFrom_shorter read
        have input := @handleCommand_input (b :: line) { c with env := { c.env with input := rest } }
        have ended : Exchange.ended ⟨b :: line, { c with env := { c.env with input := rest } }⟩ =
            handleCommand (b :: line) { c with env := { c.env with input := rest } } := rfl
        dsimp only
        rcases handled : handleCommand (b :: line) { c with env := { c.env with input := rest } } with d | d
        · exact ⟨_, rfl, .inr ⟨_, rfl, Exchange.stops_error (ended.trans handled)⟩⟩
        · rw [handled] at input
          dsimp only
          split
          · obtain ⟨unread, lines, last⟩ := @ih d (by rw [show d.env.input = rest from input]; omega)
            rw [show d.env.input = rest from input] at lines
            refine ⟨unread, by simp [← lines], last.imp_right ?_⟩
            rintro ⟨last, member, stopped⟩
            exact ⟨last, by simp [List.getLast?_cons, Option.mem_def.mp member], stopped⟩
          · rename_i closed
            refine ⟨_, rfl, .inr ⟨_, rfl, (Exchange.stops_ok (ended.trans handled)).trans ?_⟩⟩
            simpa using closed

theorem greet_replies : ∃ greeting, (greet domain (.fresh ssl env)).replies = [greeting] ∧
    Untagged greeting ∧ (Whole greeting ↔ Whole domain) := by
  unfold greet
  split
  · refine ⟨_, replies_log (c := .fresh ssl { env with log := [] }) [_] rfl rfl, ?_, ?_⟩
    · repeat apply List.prefix_append_of_prefix
      decide
    · exact whole_around (by decide) (by decide)
  · refine ⟨_, replies_log (c := .fresh ssl { env with log := [] }) [_] rfl rfl, ?_, ?_⟩
    · repeat apply List.prefix_append_of_prefix
      decide
    · exact whole_around (by decide) (by decide)

/-- In every session: what is sent is a greeting and the answers to the commands received, in
    their order. The greeting is one line if the domain is, and every line of an answer is one line,
    whatever was received. The last line of an answer bears the tag, and no other line does, unless
    a handshake is accepted or fails, or `validate` throws. With the tag `*` data look like
    completions, so that only the lines themselves are told. -/
theorem imap_dialogue (domain : Bytes) (ssl : Option TlsConnection) (env : Env) :
    ∃ greeting unread,
      (run domain (.fresh ssl env)).conn.replies =
        greeting :: (dialogue domain ssl env).flatMap Exchange.replies ∧
      Untagged greeting ∧ (Whole greeting ↔ Whole domain) ∧
      (linesFrom [] env.input).filter (· ≠ []) = (dialogue domain ssl env).map Exchange.line ++ unread ∧
      (unread = [] ∨ ∃ last ∈ (dialogue domain ssl env).getLast?, last.stops = true) ∧
      ∀ x ∈ dialogue domain ssl env, (∀ reply ∈ x.replies, Whole reply) ∧ Answer x x.replies ∧
        (x.tag ≠ ascii "*" →
          (CompletedOnce x.tag x.replies ↔ ¬ x.RefusesTls ∧ ¬ x.StartsTls ∧ ¬ x.LosesLogin)) := by
  obtain ⟨greeting, greeted, untagged, whole⟩ := @greet_replies domain ssl env
  have input : (greet domain (.fresh ssl env)).env.input = env.input := by
    unfold greet
    split <;> rfl
  obtain ⟨unread, lines, last⟩ := @exchanges_lines (env.input.length + 1)
    (greet domain (.fresh ssl env)) (by rw [input]; exact Nat.lt_succ_self _)
  refine ⟨greeting, unread, ?_, untagged, whole, by rw [← input]; exact lines, last, fun x _ => ?_⟩
  · have sent := runLoop_replies (env.input.length + 1) (greet domain (.fresh ssl env))
    rw [greeted] at sent
    have runs : run domain (.fresh ssl env) = (runLoop (env.input.length + 1)
        (greet domain (.fresh ssl env))).map fun c =>
          if c.session.sockOpen then c.closeSocket else c := rfl
    rw [runs]
    -- closing the socket sends nothing
    have closing : ∀ c : Conn, (if c.session.sockOpen then c.closeSocket else c).replies = c.replies := by
      intro c
      split
      · rw [← List.append_nil c.replies]
        exact replies_log [_] rfl rfl
      · rfl
    rcases ended : runLoop (env.input.length + 1) (greet domain (.fresh ssl env)) with d | d
    · rw [ended] at sent
      exact sent
    · rw [ended] at sent
      exact (closing d).trans sent
  · exact ⟨x.answered.whole, x.answered.kind, x.answered.kind.completedOnce_iff⟩

end Loop

end EmailServer.Imap
