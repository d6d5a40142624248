import EmailServer.Queue.Lease
import EmailServer.Delivery.SmtpClient

/-! # What becomes of a leased message

The outcome of a delivery depends on the first bytes of the replies alone. What
an earlier reply left in the buffer is never a 5, because every step that is
followed by another one was answered with a 2 or a 3.
-/

namespace EmailServer.Delivery

open Queue QueueState

/-! ## Replies -/

namespace Network

variable (net : Network)

/-- The first byte of what the `i`-th read returned, if it returned anything. -/
def reply (i : Nat) : Option UInt8 :=
  match net.recvs i with
  | .failed => none
  | .bytes data _ => data.head?

/-- The connection stands and the greeting was read. -/
structure Greets : Prop where
  resolves : net.resolves = true
  opens : net.opens = true
  connects : net.connects = true
  greeting : net.reply 0 ≠ none

/-- Every reply is the one that lets the client go on. -/
structure Accepts : Prop where
  greets : net.Greets
  ehlo : net.reply 1 = some (code '2')
  mail : net.reply 2 = some (code '2')
  rcpt : net.reply 3 = some (code '2')
  data : net.reply 4 = some (code '3')
  ended : net.reply 5 = some (code '2')

/-- The replies before MAIL, RCPT or the end of data let the client go on, and
    that one starts with a 5. -/
def Refuses : Prop :=
  net.Greets ∧ net.reply 1 = some (code '2') ∧
    (net.reply 2 = some (code '5') ∨
      (net.reply 2 = some (code '2') ∧
        (net.reply 3 = some (code '5') ∨
          (net.reply 3 = some (code '2') ∧ net.reply 4 = some (code '3') ∧
            net.reply 5 = some (code '5')))))

end Network

/-! ## One reply -/

section Reply

variable {net : Network} {c : Client} {expected : UInt8}

@[simp] theorem send_reads (data : Bytes) : (c.send data).reads = c.reads := rfl
@[simp] theorem send_first (data : Bytes) : (c.send data).first = c.first := rfl
@[simp] theorem terminate_reads : c.terminate.reads = c.reads := rfl

@[simp] theorem recv_reads : (c.recv net).reads = c.reads + 1 := by
  unfold Client.recv
  split <;> rfl

@[simp] theorem ask_reads (command : Bytes) : (c.ask net command).reads = c.reads + 1 := recv_reads

theorem recv_some {b : UInt8} (answered : net.reply c.reads = some b) :
    0 < (c.recv net).n ∧ (c.recv net).first = b := by
  cases received : net.recvs c.reads with
  | failed => simp [Network.reply, received] at answered
  | bytes data fits =>
      simp only [Network.reply, received] at answered
      simp only [Client.recv, received]
      cases data with
      | nil => cases answered
      | cons d rest =>
          cases answered
          simp only [List.length_cons]
          exact ⟨by omega, rfl⟩

theorem recv_none (silent : net.reply c.reads = none) :
    (c.recv net).n ≤ 0 ∧ (c.recv net).first = c.first := by
  cases received : net.recvs c.reads with
  | failed => simp [Client.recv, received, Client.first]
  | bytes data fits =>
      simp only [Network.reply, received] at silent
      simp only [Client.recv, received]
      obtain rfl := List.head?_eq_none_iff.mp silent
      exact ⟨le_rfl, rfl⟩

theorem recv_nonpos : (c.recv net).n ≤ 0 ↔ net.reply c.reads = none := by
  constructor
  · intro nonpos
    by_contra answered
    obtain ⟨b, answered⟩ := Option.ne_none_iff_exists'.mp answered
    have positive := (recv_some answered).1
    omega
  · intro silent
    exact (recv_none silent).1

/-- The check of a reply sees through the buffer. -/
theorem ask_unexpected {k : Nat} (turn : c.reads = k) (command : Bytes) :
    (c.ask net command).unexpected expected = true ↔ net.reply k ≠ some expected := by
  subst turn
  change ((c.send command).recv net).unexpected expected = true ↔ _
  cases answer : net.reply c.reads with
  | none =>
      have silent : net.reply (c.send command).reads = none := answer
      simp [Client.unexpected, recv_none silent]
  | some b =>
      have answered : net.reply (c.send command).reads = some b := answer
      obtain ⟨positive, first⟩ := recv_some answered
      simp [Client.unexpected, first, positive]

theorem ask_expected {k : Nat} (turn : c.reads = k) (answered : net.reply k = some expected)
    (command : Bytes) :
    ¬ (c.ask net command).unexpected expected = true ∧ (c.ask net command).reads = k + 1 ∧
      (c.ask net command).first = expected := by
  have passes : ¬ (c.ask net command).unexpected expected = true := by
    rw [ask_unexpected turn]
    exact not_not.mpr answered
  subst turn
  have answered : net.reply (c.send command).reads = some expected := answered
  exact ⟨passes, ask_reads command, (recv_some answered).2⟩

theorem caught_rejected_success (text : Bytes) : (caught (rejected net text c)).success = false := by
  unfold rejected
  cases c.reply net <;> rfl

/-- An unexpected reply is held to be final exactly when it starts with a 5:
    the byte left over from the reply before does not pass for it. -/
theorem caught_rejected {k : Nat} (turn : c.reads = k) (stale : c.first ≠ code '5')
    (text command : Bytes) :
    (caught (rejected net text (c.ask net command))).permanentFailure = true ↔
      net.reply k = some (code '5') := by
  subst turn
  cases answer : net.reply c.reads with
  | none =>
      have silent : net.reply (c.send command).reads = none := answer
      have left : (c.ask net command).first = c.first := (recv_none silent).2
      simp only [reduceCtorEq, iff_false]
      unfold rejected
      cases (c.ask net command).reply net with
      | error what => simp [caught, temporary, Except.map]
      | ok reply => simp [caught, Except.map, left, stale]
  | some b =>
      have answered : net.reply (c.send command).reads = some b := answer
      obtain ⟨positive, first⟩ := recv_some answered
      have text : (c.ask net command).reply net =
          .ok ((c.ask net command).buffer.take (c.ask net command).n.toNat) :=
        if_neg (not_lt.mpr (le_of_lt positive))
      have byte : (c.ask net command).first = b := first
      simp [rejected, text, caught, Except.map, byte]

end Reply

/-! ## The conversation -/

@[simp] theorem delivered_flags {net : Network} :
    (delivered net).success = true ∧ (delivered net).permanentFailure = false := by
  unfold delivered
  split <;> exact ⟨rfl, rfl⟩

theorem two_ne_five : code '2' ≠ code '5' := by decide
theorem three_ne_five : code '3' ≠ code '5' := by decide

section Conversation

variable {net : Network} {sender recipient raw : Bytes}

/-- The three outcomes of a conversation, read off the replies. -/
theorem converse_outcome {c : Client} (start : c.reads = 0) :
    ((caught (converse net sender recipient raw c).1).success = true ↔
      net.reply 0 ≠ none ∧ net.reply 1 = some (code '2') ∧ net.reply 2 = some (code '2') ∧
        net.reply 3 = some (code '2') ∧ net.reply 4 = some (code '3') ∧
        net.reply 5 = some (code '2')) ∧
    ((caught (converse net sender recipient raw c).1).permanentFailure = true ↔
      net.reply 0 ≠ none ∧ net.reply 1 = some (code '2') ∧
        (net.reply 2 = some (code '5') ∨
          (net.reply 2 = some (code '2') ∧
            (net.reply 3 = some (code '5') ∨
              (net.reply 3 = some (code '2') ∧ net.reply 4 = some (code '3') ∧
                net.reply 5 = some (code '5')))))) := by
  unfold converse
  dsimp only
  by_cases silent : net.reply 0 = none
  · rw [if_pos (recv_nonpos.mpr (by rwa [start]))]
    simp [caught, temporary, silent]
  rw [if_neg (mt recv_nonpos.mp (by rwa [start]))]
  have reads₁ : (c.recv net).terminate.reads = 1 := by simp [start]
  generalize (c.recv net).terminate = c₁ at reads₁ ⊢
  by_cases ehlo : net.reply 1 = some (code '2')
  swap
  · rw [if_pos ((ask_unexpected reads₁ _).mpr ehlo)]
    simp [caught, temporary, ehlo]
  obtain ⟨passes, reads₂, first₂⟩ :=
    ask_expected reads₁ ehlo (ascii "EHLO " ++ ascii "mailserver.local" ++ crlf)
  rw [if_neg passes]
  generalize c₁.ask net _ = c₂ at reads₂ first₂ ⊢
  by_cases mail : net.reply 2 = some (code '2')
  swap
  · rw [if_pos ((ask_unexpected reads₂ _).mpr mail)]
    simp [caught_rejected_success, caught_rejected reads₂ (first₂ ▸ two_ne_five), mail, silent, ehlo]
  obtain ⟨passes, reads₃, first₃⟩ :=
    ask_expected reads₂ mail (ascii "MAIL FROM:<" ++ sender ++ ascii ">" ++ crlf)
  rw [if_neg passes]
  generalize c₂.ask net _ = c₃ at reads₃ first₃ ⊢
  by_cases rcpt : net.reply 3 = some (code '2')
  swap
  · rw [if_pos ((ask_unexpected reads₃ _).mpr rcpt)]
    simp [caught_rejected_success, caught_rejected reads₃ (first₃ ▸ two_ne_five), mail, rcpt,
      silent, ehlo, two_ne_five]
  obtain ⟨passes, reads₄, first₄⟩ :=
    ask_expected reads₃ rcpt (ascii "RCPT TO:<" ++ recipient ++ ascii ">" ++ crlf)
  rw [if_neg passes]
  generalize c₃.ask net _ = c₄ at reads₄ first₄ ⊢
  by_cases data : net.reply 4 = some (code '3')
  swap
  · rw [if_pos ((ask_unexpected reads₄ _).mpr data)]
    simp [caught, temporary, ehlo, mail, rcpt, data, two_ne_five]
  obtain ⟨passes, reads₅, first₅⟩ := ask_expected reads₄ data (ascii "DATA" ++ crlf)
  rw [if_neg passes]
  replace reads₅ : ((c₄.ask net (ascii "DATA" ++ crlf)).send raw).reads = 5 := reads₅
  replace first₅ : ((c₄.ask net (ascii "DATA" ++ crlf)).send raw).first = code '3' := first₅
  generalize (c₄.ask net _).send raw = c₅ at reads₅ first₅ ⊢
  by_cases ended : net.reply 5 = some (code '2')
  · rw [if_neg (ask_expected reads₅ ended _).1]
    simp [caught, silent, ehlo, mail, rcpt, data, ended, two_ne_five]
  · rw [if_pos ((ask_unexpected reads₅ _).mpr ended)]
    simp [caught_rejected_success, caught_rejected reads₅ (first₅ ▸ three_ne_five), mail, rcpt,
      data, silent, ehlo, ended, two_ne_five]

end Conversation

/-! ## The delivery -/

section Deliver

variable {net : Network} {connections : Bytes → Nat → Network}
  {mxHost sender recipient raw : Bytes}

theorem temporary_outcome (fails : ¬ net.Greets) (text : Bytes) (wait : Nat) :
    ((temporary text wait).success = true ↔ net.Accepts) ∧
      ((temporary text wait).permanentFailure = true ↔ net.Refuses) := by
  constructor
  · exact iff_of_false (by simp [temporary]) fun accepts => fails accepts.greets
  · exact iff_of_false (by simp [temporary]) fun refuses => fails refuses.1

theorem connectAndDeliver_outcome :
    ((connectAndDeliver net mxHost sender recipient raw).1.success = true ↔ net.Accepts) ∧
      ((connectAndDeliver net mxHost sender recipient raw).1.permanentFailure = true ↔
        net.Refuses) := by
  unfold connectAndDeliver
  split
  · rename_i unresolved
    exact temporary_outcome (fun greets => by simp [greets.resolves] at unresolved) _ _
  split
  · rename_i unopened
    exact temporary_outcome (fun greets => by simp [greets.opens] at unopened) _ _
  split
  · rename_i refused
    exact temporary_outcome (fun greets => by simp [greets.connects] at refused) _ _
  rename_i resolves opens connects
  simp only [Bool.not_eq_true', Bool.not_eq_false] at resolves opens connects
  dsimp only
  rw [(converse_outcome rfl).1, (converse_outcome rfl).2]
  constructor
  · constructor
    · intro ⟨greeting, ehlo, mail, rcpt, data, ended⟩
      exact ⟨⟨resolves, opens, connects, greeting⟩, ehlo, mail, rcpt, data, ended⟩
    · intro accepts
      exact ⟨accepts.greets.greeting, accepts.ehlo, accepts.mail, accepts.rcpt, accepts.data,
        accepts.ended⟩
  · constructor
    · intro ⟨greeting, replies⟩
      exact ⟨⟨resolves, opens, connects, greeting⟩, replies⟩
    · intro ⟨greets, replies⟩
      exact ⟨greets.greeting, replies⟩

theorem Network.Accepts.not_refuses (accepts : net.Accepts) : ¬ net.Refuses := by
  intro ⟨_, _, replies⟩
  simp [accepts.mail, accepts.rcpt, accepts.ended, two_ne_five] at replies

/-- The server of the recipient's domain takes the message. -/
def Delivered (connections : Bytes → Nat → Network) (recipient : Bytes) : Prop :=
  code '@' ∈ recipient ∧ (connections (domainOf recipient) DEFAULT_SMTP_PORT).Accepts

/-- There is no such server, or it refuses the message for good. -/
def Refused (connections : Bytes → Nat → Network) (recipient : Bytes) : Prop :=
  code '@' ∉ recipient ∨ (connections (domainOf recipient) DEFAULT_SMTP_PORT).Refuses

theorem Delivered.not_refused (delivered : Delivered connections recipient) :
    ¬ Refused connections recipient := by
  intro refused
  cases refused with
  | inl noDomain => exact noDomain delivered.1
  | inr refuses => exact delivered.2.not_refuses refuses

theorem tryHosts_single (domain : Bytes) {result : DeliveryResult}
    (tried : (connectAndDeliver (connections mxHost DEFAULT_SMTP_PORT) mxHost sender recipient
      raw).1 = result) :
    (tryHosts connections domain sender recipient raw [mxHost]).success = result.success ∧
      (tryHosts connections domain sender recipient raw [mxHost]).permanentFailure =
        result.permanentFailure := by
  simp only [tryHosts, tried]
  split
  · exact ⟨rfl, rfl⟩
  split
  · exact ⟨rfl, rfl⟩
  rename_i failed retried
  simp only [Bool.not_eq_true] at failed retried
  exact ⟨failed.symm, retried.symm⟩

/-- With the domain looked up, or none to look up, the result is what the replies say. -/
theorem deliver_outcome {logs : LookupLogs} (looked : code '@' ∈ recipient → logs.lookingUp = true) :
    ∃ result, deliver connections logs sender recipient raw = .ok result ∧
      (result.success = true ↔ Delivered connections recipient) ∧
      (result.permanentFailure = true ↔ Refused connections recipient) := by
  unfold deliver
  by_cases hasDomain : code '@' ∈ recipient
  · rw [if_neg (not_not.mpr hasDomain)]
    simp only [lookupMX, looked hasDomain, if_true]
    rw [if_neg (List.cons_ne_nil _ _)]
    refine ⟨_, rfl, ?_⟩
    rw [(tryHosts_single _ rfl).1, (tryHosts_single _ rfl).2, connectAndDeliver_outcome.1,
      connectAndDeliver_outcome.2]
    simp [Delivered, Refused, hasDomain]
  · rw [if_pos hasDomain]
    refine ⟨_, rfl, ?_⟩
    simp [undeliverable, Delivered, Refused, hasDomain]

/-- With a lookup that is not logged no host is tried. -/
theorem deliver_unlooked {logs : LookupLogs} (hasDomain : code '@' ∈ recipient)
    (unlooked : logs.lookingUp = false) :
    deliver connections logs sender recipient raw =
      if logs.lookupFailed then
        .ok (undeliverable (ascii "No MX records found for " ++ domainOf recipient))
      else .error .filesystemError := by
  rw [deliver, if_neg (not_not.mpr hasDomain)]
  cases failed : logs.lookupFailed <;> simp [lookupMX, unlooked, failed]

end Deliver

end EmailServer.Delivery
