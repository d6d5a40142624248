import EmailServer.Smtp.Body
import EmailServer.Smtp.Transcript

/-! # SMTP dialogues

What the client sees of a session: the greeting, the answers to its commands in turn, and perhaps
a last line. Every command is answered by one reply, with three exceptions that put a client out
of step: a handshake that fails, a line of a message that is too long, and a message that is
accepted before its log line throws.
-/

namespace EmailServer.Smtp

/-! ## Replies -/

def Event.text : Event → Option Bytes
  | .reply line => some line
  | _ => none

/-- The lines sent so far, oldest first. -/
def Conn.replies (c : Conn) : List Bytes := c.env.log.reverse.filterMap Event.text

/-- The lines sent in answer to a command, with that of the loop around it. -/
def Exchange.answer (x : Exchange) : List Bytes :=
  (isolate x.ended).replies.drop x.before.replies.length

def tooLong : Bytes := ascii "500 Line too long"

def askForData : Bytes := ascii "354 End data with <CR><LF>.<CR><LF>"

def sizeExceeded : Bytes := ascii "552 Message size exceeds maximum permitted"

def commandFailed : Bytes := ascii "451 Internal error - command failed"

/-- How the code below the read loop answers; `throws` is whether a log line throws. -/
inductive StoreAnswer (throws : Prop) : List Bytes → Prop
  | accepted : StoreAnswer throws [accepted]
  | failed : StoreAnswer throws [storageError]
  | crashed : throws → StoreAnswer throws [commandFailed]
  /-- The message has been stored and accepted, and a failure is reported all the same. -/
  | contradicted : throws → StoreAnswer throws [Smtp.accepted, storageError]
  | abandoned : throws → StoreAnswer throws [Smtp.accepted, commandFailed]

/-- How a message is answered. -/
inductive DataAnswer (throws : Prop) : List Bytes → Prop
  | stored (replies) : StoreAnswer throws replies → DataAnswer throws (askForData :: replies)
  /-- What has arrived is stored, and the rest taken for commands. -/
  | tooLong (replies) : StoreAnswer throws replies →
      DataAnswer throws (askForData :: tooLong :: replies)
  | sizeExceeded : DataAnswer throws [askForData, sizeExceeded]
  | crashed : DataAnswer throws [askForData, commandFailed]

/-- The codes with which the commands are answered. `EHLO` is answered without one. -/
def codes : Verb → List Bytes
  | .ehlo => []
  | .helo | .rset | .noop => [ascii "250 "]
  | .starttls => [ascii "220 ", ascii "454 ", ascii "503 "]
  | .auth => [ascii "235 ", ascii "451 ", ascii "503 ", ascii "530 ", ascii "535 "]
  | .mail => [ascii "250 ", ascii "503 ", ascii "530 "]
  | .rcpt => [ascii "250 ", ascii "503 ", ascii "530 "]
  | .data => [ascii "503 ", ascii "530 "]
  | .quit => [ascii "221 "]
  | .unknown => [ascii "502 "]

/-- How a command is answered. -/
inductive Answer (cfg : Config) (x : Exchange) : List Bytes → Prop
  | single (reply code) : ¬ EntersData cfg x.line x.before → code ∈ codes x.verb → code <+: reply →
      Answer cfg x [reply]
  | capabilities : x.verb = .ehlo →
      Answer cfg x (((capabilities cfg x.before.session.tlsActive).dropLast.map (· ++ ascii "-")) ++
        [ascii "HELP"])
  /-- A handshake was announced, and the connection is closed. -/
  | refusesTls (reply) : x.verb = .starttls → ascii "454 " <+: reply →
      x.after.session.sockOpen = false → Answer cfg x [ascii "220 Ready to start TLS", reply]
  | data (answer) : EntersData cfg x.line x.before →
      DataAnswer (true ∈ x.before.env.logs) answer → Answer cfg x answer

/-! ## What is recorded -/

section Logs

variable {c d : Conn}

theorem replies_log (new : List Event) (log : d.env.log = new ++ c.env.log) {answer : List Bytes}
    (texts : new.reverse.filterMap Event.text = answer) : d.replies = c.replies ++ answer := by
  rw [Conn.replies, log, List.reverse_append, List.filterMap_append, texts]
  rfl

theorem enter_replies (c : Conn) (state : SmtpState) : (c.enter state).replies = c.replies := rfl

theorem sendMultilineResponse_replies (c : Conn) (lines : List Bytes) (last : Bytes) :
    (c.sendMultilineResponse (lines ++ [last])).replies =
      c.replies ++ (lines.map (· ++ ascii "-") ++ [last]) := by
  induction lines generalizing c with
  | nil => exact replies_log [_] rfl rfl
  | cons line rest ih =>
      have sent : (c.sendLine (line ++ ascii "-")).replies = c.replies ++ [line ++ ascii "-"] :=
        replies_log [_] rfl rfl
      have goes : c.sendMultilineResponse (line :: rest ++ [last]) =
          (c.sendLine (line ++ ascii "-")).sendMultilineResponse (rest ++ [last]) := by
        cases rest <;> rfl
      rw [goes, ih, sent, List.append_assoc]
      rfl

theorem readLine_fails_replies (read : readLine c = (.failed, d)) : d.env.logs = c.env.logs ∧
    (d.replies = c.replies ++ [] ∨ d.replies = c.replies ++ [tooLong]) := by
  unfold readLine at read
  cases result : readFrom 0 [] c.env.input with
  | mk ended rest =>
    rw [result] at read
    cases ended with
    | line | escaped => cases read
    | closed | tooManyErrors | threw =>
        cases read
        exact ⟨rfl, .inl (replies_log [] rfl rfl)⟩
    | tooLong =>
        cases read
        exact ⟨rfl, .inr (replies_log [_] rfl rfl)⟩

end Logs

/-! ## A message -/

/-- What the read loop has sent in the end. -/
inductive LoopEnd : DataExit → List Bytes → Prop
  | whole (message) : LoopEnd (.store message) []
  | tooLong (message) : LoopEnd (.store message) [tooLong]
  | exceeds : LoopEnd .returned [sizeExceeded]
  | threw : LoopEnd .threw []

/-- The read loop from `c` on has sent that. It writes no log line that could be noticed. -/
structure LoopAnswer (c : Conn) (ended : DataExit × Conn) : Prop where
  logs : ended.2.env.logs = c.env.logs
  exists_finish : ∃ finish, ended.2.replies = c.replies ++ finish ∧ LoopEnd ended.1 finish

section Loop

variable {c d : Conn} {ended : DataExit × Conn}

theorem LoopAnswer.goesOn (logs : d.env.logs = c.env.logs) (replies : d.replies = c.replies)
    (later : LoopAnswer d ended) : LoopAnswer c ended := by
  obtain ⟨finish, sent, ends⟩ := later.exists_finish
  exact ⟨later.logs.trans logs, finish, by rw [sent, replies], ends⟩

/-- What the read loop sends. The copy that the memory check measures is no longer than what was
    counted. -/
theorem dataLoop_answer (cfg : Config) {fuel : Nat} {message : Message} {messageSize : Nat}
    (enough : c.env.input.length < fuel) (counted : message.text.length ≤ messageSize)
    (within : messageSize ≤ cfg.maxMessageSize) :
    LoopAnswer c (dataLoop cfg fuel message messageSize c) := by
  induction fuel generalizing message messageSize c with
  | zero => omega
  | succ fuel ih =>
      unfold dataLoop
      cases read : readLine c with
      | mk result c' =>
      cases result with
      | failed =>
          obtain ⟨logs, replies | replies⟩ := readLine_fails_replies read
          · exact ⟨logs, _, replies, .whole message.text⟩
          · exact ⟨logs, _, replies, .tooLong message.text⟩
      | escaped =>
          have after := (readLine_escapes read).2
          refine ⟨by rw [after], [], ?_, .threw⟩
          rw [after]
          exact replies_log [] rfl rfl
      | line line =>
      have shorter := readLine_shorter read
      have logs : c'.env.logs = c.env.logs := by rw [(readLine_line read).2]
      have silent : (c'.record (.bodyLine line)).replies = c.replies :=
        (replies_log (c := c) [_] (by rw [← readLine_quiet read]; rfl) rfl).trans (List.append_nil _)
      dsimp only
      split
      · exact ⟨logs, [], by rw [silent, List.append_nil], .whole message.text⟩
      split
      · refine ⟨logs, [sizeExceeded], ?_, .exceeds⟩
        rw [← silent]
        exact replies_log [_] rfl rfl
      rename_i fits
      have small : ¬ message.text.length > cfg.maxMessageSize * 2 := by omega
      have inserted := message.insert_length (unstuff line)
      have drawn : (nextAppend (c'.record (.bodyLine line))).2.env.logs = c.env.logs ∧
          (nextAppend (c'.record (.bodyLine line))).2.replies = c.replies ∧
          (nextAppend (c'.record (.bodyLine line))).2.env.input = c'.env.input :=
        ⟨logs, silent, rfl⟩
      generalize nextAppend (c'.record (.bodyLine line)) = next at drawn
      obtain ⟨answer, d⟩ := next
      obtain ⟨logs, silent, input⟩ := drawn
      apply LoopAnswer.goesOn (d := d) logs silent
      cases answer with
      | copyFailed => exact ⟨rfl, [], (List.append_nil _).symm, .threw⟩
      | done | lost =>
          dsimp only
          rw [if_neg small]
          refine ih ?_ ((inserted _).trans ?_) (Nat.not_lt.mp fits)
          · change d.env.input = c'.env.input at input
            rw [input]
            exact Nat.lt_of_lt_of_le shorter (Nat.le_of_lt_succ enough)
          · omega

end Loop

/-! ## Commands -/

section Commands

variable {cfg : Config} {x : Exchange} {d : Conn}

theorem isolate_error (c : Conn) : (isolate (.error c)).replies = c.replies ++ [commandFailed] :=
  replies_log [_] rfl rfl

theorem nextLog_throws {c : Conn} (next : nextLog c = (true, d)) :
    true ∈ c.env.logs ∧ d.replies = c.replies := by
  obtain ⟨throws, rfl⟩ := Prod.mk.inj next
  refine ⟨?_, rfl⟩
  cases logs : c.env.logs with
  | nil => simp [logs] at throws
  | cons answer rest =>
      have here : answer = true := by simpa [logs] using throws
      exact here ▸ List.mem_cons_self

/-- Only a log line that throws makes a command crash below the store's call. -/
theorem storageFailed_answer (c : Conn) :
    ∃ reply, (isolate ((storageFailed c).map afterData)).replies = c.replies ++ [reply] ∧
      (reply = storageError ∨ reply = commandFailed ∧ true ∈ c.env.logs) := by
  unfold storageFailed
  cases next : nextLog c with
  | mk throws d =>
  cases throws with
  | true =>
      obtain ⟨throws, same⟩ := nextLog_throws next
      exact ⟨commandFailed, same ▸ isolate_error d, .inr ⟨rfl, throws⟩⟩
  | false =>
      obtain ⟨-, rfl⟩ := Prod.mk.inj next
      exact ⟨storageError, replies_log [_] rfl rfl, .inl rfl⟩

theorem storageFailed_single {throws : Prop} {c d : Conn} (replies : d.replies = c.replies)
    (logs : true ∈ d.env.logs → throws) :
    ∃ answer, (isolate ((storageFailed d).map afterData)).replies = c.replies ++ answer ∧
      StoreAnswer throws answer := by
  obtain ⟨reply, sent, rfl | ⟨rfl, there⟩⟩ := storageFailed_answer d
  · exact ⟨_, by rw [sent, replies], .failed⟩
  · exact ⟨_, by rw [sent, replies], .crashed (logs there)⟩

theorem storeAsked_answer (message : Bytes) {c : Conn} (copy : CopySucceeds c) :
    ∃ answer, (isolate ((storeMessage message c).map afterData)).replies = c.replies ++ answer ∧
      StoreAnswer (true ∈ c.env.logs) answer := by
  have silent : (storeAsked message c).replies = c.replies :=
    (replies_log [_] rfl rfl).trans (List.append_nil _)
  rw [storeMessage_goes message copy]
  cases c.env.stores.headD none with
  | none => exact storageFailed_single silent id
  | some id =>
  cases id with
  | nil =>
      cases next : nextLog (storeAsked message c) with
      | mk throws d =>
      cases throws with
      | true =>
          obtain ⟨throws, same⟩ := nextLog_throws next
          exact storageFailed_single (same.trans silent) fun _ => throws
      | false =>
          obtain ⟨-, rfl⟩ := Prod.mk.inj next
          exact ⟨_, replies_log [_, _] rfl rfl, .failed⟩
  | cons b id =>
      have sent : ((storeAsked message c).sendLine accepted).replies = c.replies ++ [accepted] :=
        replies_log [_, _] rfl rfl
      cases next : nextLog ((storeAsked message c).sendLine accepted) with
      | mk throws d =>
      cases throws with
      | true =>
          obtain ⟨throws, same⟩ := nextLog_throws next
          obtain ⟨reply, more, rfl | ⟨rfl, -⟩⟩ := storageFailed_answer d
          · exact ⟨_, by rw [more, same, sent, List.append_assoc]; rfl, .contradicted throws⟩
          · exact ⟨_, by rw [more, same, sent, List.append_assoc]; rfl, .abandoned throws⟩
      | false =>
          obtain ⟨-, rfl⟩ := Prod.mk.inj next
          exact ⟨_, sent, .accepted⟩

theorem storeMessage_answer (message : Bytes) (c : Conn) :
    ∃ answer, (isolate ((storeMessage message c).map afterData)).replies = c.replies ++ answer ∧
      StoreAnswer (true ∈ c.env.logs) answer := by
  by_cases copy : CopySucceeds c
  · exact storeAsked_answer message copy
  · rw [storeMessage_copyFails message copy]
    exact storageFailed_single rfl id

/-- How `DATA` is answered, with what the loop of `run` adds to it. -/
theorem handleData_answer (cfg : Config) {c : Conn} (recipients : c.session.rcptTo ≠ []) :
    ∃ answer, (isolate ((handleData cfg c).map afterData)).replies = c.replies ++ answer ∧
      DataAnswer (true ∈ c.env.logs) answer := by
  have asked : (askedForBody c).replies = c.replies ++ [askForData] := replies_log [_, _] rfl rfl
  obtain ⟨logs, finish, looped, ends⟩ : LoopAnswer (askedForBody c) (bodyLoop cfg c) :=
    dataLoop_answer cfg (Nat.lt_succ_self _) (Nat.zero_le _) (Nat.zero_le _)
  rw [handleData_loop cfg recipients]
  generalize bodyLoop cfg c = ended at logs looped ends
  obtain ⟨exit, mid⟩ := ended
  have logs : mid.env.logs = c.env.logs := logs
  have sent : mid.replies = c.replies ++ (askForData :: finish) := by
    rw [looped, asked, List.append_assoc]
    rfl
  cases ends with
  | whole message =>
      obtain ⟨answer, more, stored⟩ := storeMessage_answer message mid
      rw [logs] at stored
      exact ⟨_, by rw [more, sent, List.append_assoc]; rfl, .stored answer stored⟩
  | tooLong message =>
      obtain ⟨answer, more, stored⟩ := storeMessage_answer message mid
      rw [logs] at stored
      exact ⟨_, by rw [more, sent, List.append_assoc]; rfl, .tooLong answer stored⟩
  | exceeds => exact ⟨_, sent, .sizeExceeded⟩
  | threw =>
      refine ⟨_, (isolate_error (afterData mid)).trans ?_, .crashed⟩
      rw [show (afterData mid).replies = mid.replies from rfl, sent, List.append_assoc]
      rfl

theorem Exchange.answer_ok {new : List Bytes} (ended : x.ended = .ok d)
    (sent : d.replies = x.before.replies ++ new) : x.answer = new := by
  rw [Exchange.answer, ended, isolate, sent, List.drop_left]

theorem answer_single (reply code : Bytes) (ended : x.ended = .ok d)
    (sent : d.replies = x.before.replies ++ [reply])
    (other : ¬ EntersData cfg x.line x.before) (member : code ∈ codes x.verb) (here : code <+: reply) :
    Answer cfg x x.answer := by
  rw [Exchange.answer_ok ended sent]
  exact .single reply code other member here

theorem not_entersData {line : Bytes} {c : Conn} {v : Verb} (verb : commandVerb line = v)
    (other : v ≠ .data) : ¬ EntersData cfg line c := fun enters => other (verb.symm.trans enters.verb)

theorem handleStarttls_answer (verb : x.verb = .starttls)
    (ran : x.ended = .ok (handleStarttls cfg x.before)) : Answer cfg x x.answer := by
  have other : ¬ EntersData cfg x.line x.before := not_entersData verb (by simp)
  have one : ∀ (d : Conn) (reply code : Bytes), handleStarttls cfg x.before = d →
      d.replies = x.before.replies ++ [reply] → code ∈ codes .starttls → code <+: reply →
      Answer cfg x x.answer := by
    intro d reply code same sent member here
    exact answer_single reply code (ran.trans (congrArg _ same)) sent other (verb ▸ member) here
  have refused : ∀ (d : Conn) (reply : Bytes), handleStarttls cfg x.before = refuseTls d reply →
      d.replies = x.before.replies ++ [ascii "220 Ready to start TLS"] → ascii "454 " <+: reply →
      Answer cfg x x.answer := by
    intro d reply same sent here
    have ended := ran.trans (congrArg _ same)
    have both : (refuseTls d reply).replies =
        x.before.replies ++ [ascii "220 Ready to start TLS", reply] := by
      have last : (refuseTls d reply).replies = d.replies ++ [reply] := replies_log [_, _] rfl rfl
      rw [last, sent, List.append_assoc]
      rfl
    rw [Exchange.answer_ok ended both]
    refine .refusesTls reply verb here ?_
    rw [Exchange.after, ended]
    rfl
  by_cases active : x.before.session.tlsActive = true
  · apply one _ (ascii "454 TLS already active") (ascii "454 ") (if_pos active) (replies_log [_] rfl rfl)
    · decide
    · decide
  · have goes : handleStarttls cfg x.before = _ := if_neg active
    dsimp only at goes
    split at goes
    · exact refused _ _ goes (replies_log [_] rfl rfl) (by decide)
    · exact refused _ _ goes (replies_log [_] rfl rfl) (by decide)
    · exact refused _ _ goes (replies_log [_] rfl rfl) (by decide)
    · split at goes
      · exact refused _ _ goes (replies_log [_] rfl rfl) (by decide)
      · apply one _ (ascii "220 Ready to start TLS") (ascii "220 ") goes (replies_log [_] rfl rfl)
        · decide
        · decide

theorem handleAuth_reply (args : Bytes) (c : Conn) : ∃ reply code,
    (handleAuth args c).replies = c.replies ++ [reply] ∧ code ∈ codes .auth ∧ code <+: reply := by
  unfold handleAuth
  split
  · exact ⟨_, ascii "503 ", replies_log [_] rfl rfl, by decide, by decide⟩
  dsimp only
  split
  · exact ⟨_, ascii "235 ", replies_log [_, _] rfl rfl, by decide, by decide⟩
  · exact ⟨_, ascii "535 ", replies_log [_, _] rfl rfl, by decide, by decide⟩
  · exact ⟨_, ascii "451 ", replies_log [_, _] rfl rfl, by decide, by decide⟩

theorem handleEhlo_answer (cfg : Config) (arg : Bytes) (c : Conn) : (handleEhlo cfg arg c).replies =
    c.replies ++ ((capabilities cfg c.session.tlsActive).dropLast.map (· ++ ascii "-") ++
      [ascii "HELP"]) := by
  have split : capabilities cfg c.session.tlsActive =
      (capabilities cfg c.session.tlsActive).dropLast ++ [ascii "HELP"] := by
    rw [capabilities, List.dropLast_concat]
  rw [handleEhlo, split, sendMultilineResponse_replies, List.dropLast_concat]
  rfl

theorem answer_reply {c : Conn} (reply code : Bytes) (ended : x.ended = .ok (c.sendLine reply))
    (same : c.replies = x.before.replies) (other : ¬ EntersData cfg x.line x.before)
    (member : code ∈ codes x.verb) (here : code <+: reply) : Answer cfg x x.answer := by
  apply answer_single reply code ended _ other member here
  rw [← same]
  exact replies_log [_] rfl rfl

section Verbs

variable (ran : x.ended = handleCommand cfg x.line x.before)
include ran

theorem ehlo_answer (verb : x.verb = .ehlo) : Answer cfg x x.answer := by
  unfold handleCommand at ran
  rw [show commandVerb x.line = .ehlo from verb] at ran
  have sent := handleEhlo_answer cfg (splitCommand x.line).2 x.before
  rw [← enter_replies _ .heloEhlo] at sent
  rw [Exchange.answer_ok ran sent]
  exact .capabilities verb

theorem starttls_answer (verb : x.verb = .starttls) : Answer cfg x x.answer := by
  have other : ¬ EntersData cfg x.line x.before := not_entersData verb (by simp)
  unfold handleCommand at ran
  rw [show commandVerb x.line = .starttls from verb] at ran
  dsimp only at ran
  split at ran
  · exact answer_reply _ (ascii "503 ") ran rfl other (by rw [verb]; decide) (by decide)
  · exact handleStarttls_answer verb ran

theorem auth_answer (verb : x.verb = .auth) : Answer cfg x x.answer := by
  have other : ¬ EntersData cfg x.line x.before := not_entersData verb (by simp)
  unfold handleCommand at ran
  rw [show commandVerb x.line = .auth from verb] at ran
  dsimp only at ran
  split at ran
  · exact answer_reply _ (ascii "503 ") ran rfl other (by rw [verb]; decide) (by decide)
  split at ran
  · exact answer_reply _ (ascii "530 ") ran rfl other (by rw [verb]; decide) (by decide)
  · obtain ⟨reply, code, sent, member, here⟩ := handleAuth_reply (splitCommand x.line).2 x.before
    refine answer_single reply code ran ?_ other (verb ▸ member) here
    rw [← sent]
    split <;> rfl

theorem mail_answer (verb : x.verb = .mail) : Answer cfg x x.answer := by
  have other : ¬ EntersData cfg x.line x.before := not_entersData verb (by simp)
  unfold handleCommand at ran
  rw [show commandVerb x.line = .mail from verb] at ran
  dsimp only at ran
  split at ran
  · exact answer_reply _ (ascii "503 ") ran rfl other (by rw [verb]; decide) (by decide)
  split at ran
  · exact answer_reply _ (ascii "530 ") ran rfl other (by rw [verb]; decide) (by decide)
  split at ran
  · exact answer_reply _ (ascii "530 ") ran rfl other (by rw [verb]; decide) (by decide)
  · exact answer_single (ascii "250 OK") (ascii "250 ") ran (replies_log [_] rfl rfl) other
      (by rw [verb]; decide) (by decide)

theorem rcpt_answer (verb : x.verb = .rcpt) : Answer cfg x x.answer := by
  have other : ¬ EntersData cfg x.line x.before := not_entersData verb (by simp)
  unfold handleCommand at ran
  rw [show commandVerb x.line = .rcpt from verb] at ran
  dsimp only at ran
  split at ran
  · exact answer_reply _ (ascii "503 ") ran rfl other (by rw [verb]; decide) (by decide)
  split at ran
  · exact answer_reply _ (ascii "530 ") ran rfl other (by rw [verb]; decide) (by decide)
  · exact answer_single (ascii "250 OK") (ascii "250 ") ran (replies_log [_] rfl rfl) other
      (by rw [verb]; decide) (by decide)

theorem data_answer (verb : x.verb = .data) : Answer cfg x x.answer := by
  by_cases enters : EntersData cfg x.line x.before
  · obtain ⟨answer, sent, kind⟩ := handleData_answer cfg enters.recipients
    have goes : x.ended = (handleData cfg x.before).map afterData := by
      rcases handleCommand_cases cfg x.line x.before with ⟨-, same⟩ | ⟨other, -⟩
      · exact ran.trans same
      · exact absurd enters other
    have same : x.answer = answer := by
      rw [Exchange.answer, goes, sent, List.drop_left]
    rw [same]
    exact .data answer enters kind
  unfold handleCommand at ran
  rw [show commandVerb x.line = .data from verb] at ran
  dsimp only at ran
  split at ran
  · exact answer_reply _ (ascii "503 ") ran rfl enters (by rw [verb]; decide) (by decide)
  split at ran
  · exact answer_reply _ (ascii "530 ") ran rfl enters (by rw [verb]; decide) (by decide)
  · rename_i early plain
    have none : x.before.session.rcptTo = [] := by
      by_contra some
      exact enters ⟨verb, not_not.mp early, by simpa using plain, some⟩
    rw [handleData, if_pos none] at ran
    exact answer_single (ascii "503 No recipients specified") (ascii "503 ") ran
      (replies_log [_] rfl rfl) enters (by rw [verb]; decide) (by decide)

theorem plain_answer (verb : x.verb ∈ [.helo, .quit, .rset, .noop, .unknown]) :
    Answer cfg x x.answer := by
  have other : ¬ EntersData cfg x.line x.before := by
    intro enters
    rw [show x.verb = .data from enters.verb] at verb
    simp at verb
  have one : ∀ {v : Verb} {d : Conn} (reply code : Bytes), x.verb = v → x.ended = .ok d →
      d.replies = x.before.replies ++ [reply] → code ∈ codes v → code <+: reply →
      Answer cfg x x.answer := by
    rintro v d reply code rfl ended sent member here
    exact answer_single reply code ended sent other member here
  unfold handleCommand at ran
  cases is : x.verb with
  | helo =>
      rw [show commandVerb x.line = .helo from is] at ran
      exact one (ascii "250 " ++ cfg.domain) (ascii "250 ") is ran (replies_log [_] rfl rfl)
        (by decide) (List.prefix_append _ _)
  | quit =>
      rw [show commandVerb x.line = .quit from is] at ran
      exact one (ascii "221 Bye") (ascii "221 ") is ran (replies_log [_, _] rfl rfl) (by decide)
        (by decide)
  | rset =>
      rw [show commandVerb x.line = .rset from is] at ran
      exact one (ascii "250 OK") (ascii "250 ") is ran (replies_log [_] rfl rfl) (by decide)
        (by decide)
  | noop =>
      rw [show commandVerb x.line = .noop from is] at ran
      exact one (ascii "250 OK") (ascii "250 ") is ran (replies_log [_] rfl rfl) (by decide)
        (by decide)
  | unknown =>
      rw [show commandVerb x.line = .unknown from is] at ran
      exact one (ascii "502 Command not implemented") (ascii "502 ") is ran (replies_log [_] rfl rfl)
        (by decide) (by decide)
  | ehlo | starttls | auth | mail | rcpt | data => simp [is] at verb

theorem Exchange.answered : Answer cfg x x.answer := by
  cases verb : x.verb with
  | ehlo => exact ehlo_answer ran verb
  | starttls => exact starttls_answer ran verb
  | auth => exact auth_answer ran verb
  | mail => exact mail_answer ran verb
  | rcpt => exact rcpt_answer ran verb
  | data => exact data_answer ran verb
  | helo | quit | rset | noop | unknown => exact plain_answer ran (by simp [verb])

end Verbs

end Commands

/-! ## The loop -/

/-- What is said to a client that is cut off. -/
def closings : List (List Bytes) := [[], [tooLong], [ascii "421 Timeout - closing connection"]]

section Loop

variable {cfg : Config}

theorem nextCommand_replies (cfg : Config) (c : Conn) :
    match nextCommand cfg c with
    | .ended d => ∃ closing ∈ closings, d.replies = c.replies ++ closing
    | .skipped d | .command _ d => d.replies = c.replies := by
  unfold nextCommand
  cases read : readLine c with
  | mk line d =>
  cases line with
  | failed =>
      obtain ⟨-, replies | replies⟩ := readLine_fails_replies read
      · exact ⟨_, by simp [closings], replies⟩
      · exact ⟨_, by simp [closings], replies⟩
  | escaped =>
      have after := (readLine_escapes read).2
      refine ⟨[], by simp [closings], ?_⟩
      rw [after]
      exact replies_log [] rfl rfl
  | line line =>
  have quiet : d.replies = c.replies := by rw [Conn.replies, readLine_quiet read, Conn.replies]
  cases line with
  | nil => exact quiet
  | cons b line =>
  dsimp only
  cases timeout : isTimeoutExceeded cfg d with
  | mk exceeded e =>
  obtain rfl : d.readClock.2 = e := congrArg Prod.snd timeout
  have read : d.readClock.2.replies = c.replies := quiet
  cases exceeded with
  | true =>
      refine ⟨[ascii "421 Timeout - closing connection"], by simp [closings], ?_⟩
      rw [← read]
      exact replies_log [_] rfl rfl
  | false =>
      change Conn.replies _ = c.replies
      rw [← read, ← List.append_nil d.readClock.2.replies]
      exact replies_log [_] rfl rfl

theorem Answer.sent {x : Exchange} (ran : x.ended = handleCommand cfg x.line x.before) :
    (isolate x.ended).replies = x.before.replies ++ x.answer := by
  obtain ⟨new, log, -⟩ : Logs (fun _ => True) x.before (isolate x.ended) := by
    have logs := handleCommand_logs cfg x.line x.before
    rw [← ran] at logs
    cases ended : x.ended with
    | ok d =>
        rw [ended] at logs
        exact logs
    | error d =>
        rw [ended] at logs
        exact logs.record trivial
  have sent := replies_log new log rfl
  rw [Exchange.answer, sent, List.drop_left]

theorem runLoop_replies (fuel : Nat) (c : Conn) : ∃ closing ∈ closings,
    (runLoop cfg fuel c).replies = c.replies ++ (exchanges cfg fuel c).flatMap Exchange.answer ++ closing := by
  induction fuel generalizing c with
  | zero => exact ⟨[], by simp [closings], by simp [runLoop, exchanges]⟩
  | succ fuel ih =>
      have replies := nextCommand_replies cfg c
      unfold runLoop exchanges
      generalize nextCommand cfg c = next at replies
      cases next with
      | ended d =>
          obtain ⟨closing, member, replies⟩ := replies
          exact ⟨closing, member, by simpa using replies⟩
      | skipped d =>
          obtain ⟨closing, member, sent⟩ := ih d
          exact ⟨closing, member, by rw [sent, replies]⟩
      | command line d =>
          have answered := @Answer.sent cfg ⟨line, d, handleCommand cfg line d⟩ rfl
          change (isolate (handleCommand cfg line d)).replies = d.replies ++ _ at answered
          rw [replies] at answered
          dsimp only
          split
          · obtain ⟨closing, member, sent⟩ := ih (isolate (handleCommand cfg line d))
            refine ⟨closing, member, ?_⟩
            rw [sent, answered, List.flatMap_cons]
            simp only [List.append_assoc]
          · exact ⟨[], by simp [closings], by simpa using answered⟩

end Loop

end EmailServer.Smtp
