import EmailServer.Delivery.EhloReply
import EmailServer.Delivery.Segmentation
import EmailServer.Delivery.Transfer
import EmailServer.Smtp.Dialogue
import EmailServer.Smtp.Moves

/-! # Mail from one server to another

`SmtpDeliveryClient` in front of an `SmtpSession` of the same program. The client never
authenticates, and the session takes no mail from one that has not; so nothing that one server
relays to another is ever delivered, and as a rule it is not refused for good either.
-/

namespace EmailServer.Delivery

open Smtp

/-! ## The two sides -/

def ehloLine : Bytes := ascii "EHLO " ++ ascii "mailserver.local"

def mailLine (sender : Bytes) : Bytes := ascii "MAIL FROM:<" ++ sender ++ ascii ">"

/-- The session that has received `sent`, and is left waiting for more. `SmtpServer` starts
    every session with `tlsActive`, also without a handshake; `allowed` is the rate limiter's
    answer. -/
def peer (cfg : Config) (allowed : Bool) (env : Env) (sent : Bytes) : Conn :=
  run cfg allowed (.fresh true { env with input := arriving sent })

/-- How often the client has called `send` before a read; the message and its end go together. -/
def sendsBefore (i : Nat) : Nat := if i ≤ 4 then i else i + 1

/-- The client is connected to the session and hears the lines that it sends: every read gives
    some of the next lines, as far as what was sent before has been answered. -/
structure Hears (cfg : Config) (allowed : Bool) (env : Env) (net : Network) (sent : List Bytes)
    (lines : Nat → List Bytes) : Prop where
  data : ∀ i, (net.recvs i).data = wire (lines i)
  causal : ∀ i, (List.range (i + 1)).flatMap lines <+:
    (peer cfg allowed env (sent.take (sendsBefore i)).flatten).replies

/-! ## What the client sends -/

section Sending

variable {net : Network} {mxHost sender recipient raw : Bytes} {c : Client}

/-- The client sends two commands first, and no more until a second reply has begun with a 2. -/
theorem converse_start (start : c.reads = 0) (fresh : c.sent = []) :
    (converse net sender recipient raw c).2.sent.take 2 <+:
        [ehloLine ++ crlf, mailLine sender ++ crlf] ∧
      ((net.reply 0 ≠ none → net.reply 1 = some (code '2') → net.reply 2 ≠ some (code '2')) →
        (converse net sender recipient raw c).2.sent.length ≤ 2) := by
  unfold converse
  dsimp only
  have sent₁ : (c.recv net).terminate.sent = [] := by simp [fresh]
  have reads₁ : (c.recv net).terminate.reads = 1 := by simp [start]
  by_cases silent : net.reply 0 = none
  · rw [if_pos (recv_nonpos.mpr (by rwa [start])), recv_sent, fresh]
    exact ⟨List.nil_prefix, fun _ => Nat.zero_le _⟩
  rw [if_neg (mt recv_nonpos.mp (by rwa [start]))]
  generalize (c.recv net).terminate = c₁ at reads₁ sent₁ ⊢
  have sent₂ := @ask_sent net c₁ (ascii "EHLO " ++ ascii "mailserver.local" ++ crlf)
  rw [sent₁, List.nil_append] at sent₂
  by_cases ehlo : net.reply 1 = some (code '2')
  swap
  · rw [if_pos ((ask_unexpected reads₁ _).mpr ehlo), sent₂]
    exact ⟨List.prefix_append _ [mailLine sender ++ crlf], fun _ => by simp⟩
  obtain ⟨passes, reads₂, -⟩ :=
    ask_expected reads₁ ehlo (ascii "EHLO " ++ ascii "mailserver.local" ++ crlf)
  rw [if_neg passes]
  generalize c₁.ask net _ = c₂ at reads₂ sent₂ ⊢
  have sent₃ := @ask_sent net c₂ (ascii "MAIL FROM:<" ++ sender ++ ascii ">" ++ crlf)
  rw [sent₂, List.singleton_append] at sent₃
  by_cases mail : net.reply 2 = some (code '2')
  swap
  · rw [if_pos ((ask_unexpected reads₂ _).mpr mail), sent₃]
    exact ⟨List.prefix_refl _, fun _ => Nat.le_refl 2⟩
  rw [if_neg (ask_expected reads₂ mail _).1]
  generalize c₂.ask net _ = c₃ at sent₃ ⊢
  refine ⟨?_, fun stops => absurd mail (stops silent ehlo)⟩
  -- what is sent later goes behind
  split
  · simp [sent₃, ehloLine, mailLine]
  split
  · simp [sent₃, ehloLine, mailLine]
  split
  · simp [sent₃, ehloLine, mailLine]
  · simp [sent₃, ehloLine, mailLine]

theorem connectAndDeliver_start :
    (connectAndDeliver net mxHost sender recipient raw).2.take 2 <+:
        [ehloLine ++ crlf, mailLine sender ++ crlf] ∧
      ((net.reply 0 ≠ none → net.reply 1 = some (code '2') → net.reply 2 ≠ some (code '2')) →
        (connectAndDeliver net mxHost sender recipient raw).2.length ≤ 2) := by
  have nothing : ([] : List Bytes).take 2 <+: [ehloLine ++ crlf, mailLine sender ++ crlf] ∧
      ((net.reply 0 ≠ none → net.reply 1 = some (code '2') → net.reply 2 ≠ some (code '2')) →
        ([] : List Bytes).length ≤ 2) :=
    ⟨List.nil_prefix, fun _ => Nat.zero_le _⟩
  unfold connectAndDeliver
  split
  · exact nothing
  split
  · exact nothing
  split
  · exact nothing
  exact converse_start rfl rfl

end Sending

/-! ## What the session reads -/

section Reading

variable {text out : Bytes} {rest : List Recv}

theorem readFrom_text (lf : Bytes.lf ∉ text) :
    readFrom 0 out (arriving (text ++ [Bytes.lf]) ++ rest) =
        (.line (out ++ text.filter (· ≠ Bytes.cr)), rest) ∨
      ∃ left, readFrom 0 out (arriving (text ++ [Bytes.lf]) ++ rest) = (.tooLong, left) := by
  induction text generalizing out with
  | nil =>
      left
      rw [List.filter_nil, List.append_nil]
      rfl
  | cons b text ih =>
      obtain ⟨notLf, lf⟩ := List.ne_and_not_mem_of_not_mem_cons lf
      change readFrom 0 out (.byte b :: (arriving (text ++ [Bytes.lf]) ++ rest)) = _ ∨
        ∃ left, readFrom 0 out (.byte b :: (arriving (text ++ [Bytes.lf]) ++ rest)) = _
      rw [readFrom]
      by_cases isCr : b = Bytes.cr
      · rw [if_pos isCr, List.filter_cons_of_neg (by simpa using isCr)]
        exact ih lf
      · rw [if_neg isCr, if_neg (Ne.symm notLf), List.filter_cons_of_pos (by simpa using isCr)]
        split
        · exact .inr ⟨_, rfl⟩
        · rw [List.append_cons out b (text.filter _)]
          exact ih lf

/-- The lines with which the loop gives a client up. -/
def givingUp : List Bytes := [tooLong, ascii "421 Timeout - closing connection"]

theorem nextCommand_text (cfg : Config) {c : Conn} (lf : Bytes.lf ∉ text)
    (nonempty : text.filter (· ≠ Bytes.cr) ≠ [])
    (input : c.env.input = arriving (text ++ [Bytes.lf]) ++ rest) :
    (∃ d, nextCommand cfg c = .ended d ∧ ∃ line ∈ givingUp, d.env.log = .reply line :: c.env.log) ∨
      ∃ d unread, nextCommand cfg c = .command (text.filter (· ≠ Bytes.cr)) d ∧
        d.session = { c.session with lastActivity := d.session.lastActivity } ∧
        d.env.log = .command (text.filter (· ≠ Bytes.cr)) unread :: c.env.log ∧ d.env.input = rest := by
  obtain ⟨b, line, same⟩ := List.exists_cons_of_ne_nil nonempty
  unfold nextCommand readLine
  rcases @readFrom_text text [] rest lf with read | ⟨left, read⟩
  · rw [List.nil_append, same] at read
    rw [input, read, same]
    dsimp only
    rcases timeout : isTimeoutExceeded cfg { c with env := { c.env with input := rest } }
      with ⟨exceeded, e⟩
    obtain rfl := congrArg Prod.snd timeout
    cases exceeded with
    | true => exact .inl ⟨_, rfl, _, .tail _ (.head _), rfl⟩
    | false => exact .inr ⟨_, _, rfl, rfl, rfl, rfl⟩
  · rw [input, read]
    exact .inl ⟨_, rfl, _, .head _, rfl⟩

end Reading

/-! ## What the session answers -/

/-- Nothing is stored. -/
def Unstored : Event → Prop
  | .store _ _ _ => False
  | _ => True

/-- From `c` to `d` these lines are sent, and nothing is stored. -/
structure Speaks (c d : Conn) (more : List Bytes) : Prop where
  replies : d.replies = c.replies ++ more
  stores : Logs Unstored c d

/-- The line does not begin with a 2. -/
abbrev Uncoded (line : Bytes) : Prop := line.head? ≠ some (code '2')

section Answering

variable {cfg : Config} {fuel : Nat} {c d e : Conn} {more later : List Bytes}

theorem Speaks.of_log (new : List Event) (log : d.env.log = new ++ c.env.log)
    (unstored : ∀ event ∈ new, Unstored event) (texts : new.reverse.filterMap Event.text = more) :
    Speaks c d more :=
  ⟨replies_log new log texts, new, log, unstored⟩

theorem Speaks.trans (first : Speaks c d more) (second : Speaks d e later) : Speaks c e (more ++ later) :=
  ⟨by rw [second.replies, first.replies, List.append_assoc], first.stores.trans second.stores⟩

theorem runLoop_empty (input : c.env.input = []) : Speaks c (runLoop cfg fuel c) [] := by
  cases fuel with
  | zero => exact .of_log [] rfl (by simp) rfl
  | succ fuel =>
      unfold runLoop nextCommand readLine
      rw [input]
      exact .of_log [] rfl (by simp) rfl

theorem runLoop_text {text : Bytes} {rest : List Recv} (lf : Bytes.lf ∉ text)
    (nonempty : text.filter (· ≠ Bytes.cr) ≠ [])
    (input : c.env.input = arriving (text ++ [Bytes.lf]) ++ rest) :
    (∃ line ∈ givingUp, Speaks c (runLoop cfg (fuel + 1) c) [line]) ∨
      ∃ d, Speaks c d [] ∧ d.session = { c.session with lastActivity := d.session.lastActivity } ∧
        d.env.input = rest ∧ runLoop cfg (fuel + 1) c =
          if (isolate (handleCommand cfg (text.filter (· ≠ Bytes.cr)) d)).session.sockOpen then
            runLoop cfg fuel (isolate (handleCommand cfg (text.filter (· ≠ Bytes.cr)) d))
          else isolate (handleCommand cfg (text.filter (· ≠ Bytes.cr)) d) := by
  rw [runLoop]
  rcases nextCommand_text cfg lf nonempty input with
    ⟨d, next, line, member, log⟩ | ⟨d, unread, next, session, log, input⟩
  · rw [next]
    exact .inl ⟨line, member, .of_log [_] log (by simp [Unstored]) rfl⟩
  · rw [next]
    exact .inr ⟨d, .of_log [_] log (by simp [Unstored]) rfl, session, input, rfl⟩

theorem givingUp_uncoded : ∀ line ∈ givingUp, Uncoded line := by decide

theorem mailLine_verb (sender : Bytes) :
    commandVerb ((mailLine sender ++ [Bytes.cr]).filter (· ≠ Bytes.cr)) = .mail := by
  rw [mailLine, List.append_assoc, List.append_assoc, List.filter_append]
  rfl

theorem mail_refused {line : Bytes} (verb : commandVerb line = .mail) (unauthed : c.session.authed = false)
    (greeted : c.session.state ≠ .connected) :
    ∃ reply, handleCommand cfg line c = .ok (c.sendLine reply) ∧ Uncoded reply := by
  unfold handleCommand
  rw [verb]
  dsimp only
  rw [if_neg greeted, unauthed]
  split
  · exact ⟨_, rfl, by decide⟩
  · exact ⟨_, rfl, by decide⟩

theorem runLoop_mail {sender : Bytes} (lf : Bytes.lf ∉ sender) (unauthed : c.session.authed = false)
    (greeted : c.session.state ≠ .connected)
    (input : c.env.input = arriving (mailLine sender ++ crlf)) :
    ∃ more, Speaks c (runLoop cfg fuel c) more ∧ ∀ line ∈ more, Uncoded line := by
  cases fuel with
  | zero => exact ⟨[], .of_log [] rfl (by simp) rfl, by simp⟩
  | succ fuel =>
      have noLf : Bytes.lf ∉ mailLine sender ++ [Bytes.cr] := by
        simp only [mailLine, List.mem_append, not_or]
        exact ⟨⟨⟨by decide, lf⟩, by decide⟩, by decide⟩
      have nonempty : (mailLine sender ++ [Bytes.cr]).filter (· ≠ Bytes.cr) ≠ [] := by
        rw [mailLine, List.append_assoc, List.append_assoc, List.filter_append]
        exact List.cons_ne_nil _ _
      have input : c.env.input = arriving (mailLine sender ++ [Bytes.cr] ++ [Bytes.lf]) ++ [] := by
        rw [input, List.append_nil, List.append_assoc]
        rfl
      rcases @runLoop_text cfg fuel c _ _ noLf nonempty input with
        ⟨line, member, speaks⟩ | ⟨d, speaks, session, input, goes⟩
      · refine ⟨_, speaks, ?_⟩
        rw [List.forall_mem_singleton]
        exact givingUp_uncoded line member
      · obtain ⟨reply, handled, uncoded⟩ := @mail_refused cfg d _ (mailLine_verb sender)
          (by rw [session]; exact unauthed) (by rw [session]; exact greeted)
        have answered : Speaks d (d.sendLine reply) [reply] := .of_log [_] rfl (by simp [Unstored]) rfl
        rw [goes, handled]
        refine ⟨[reply], ?_, List.forall_mem_singleton.mpr uncoded⟩
        change Speaks c (if (d.sendLine reply).session.sockOpen then runLoop cfg fuel (d.sendLine reply)
          else d.sendLine reply) [reply]
        split
        · exact (speaks.trans answered).trans (runLoop_empty input)
        · exact speaks.trans answered

theorem sentLines_uncoded (cfg : Config) (tlsActive : Bool) :
    ∃ rest, sentLines (capabilities cfg tlsActive) = (cfg.domain ++ ascii "-") :: rest ∧
      ∀ line ∈ rest, Uncoded line := by
  have size : Uncoded (ascii "SIZE " ++ toDecimal cfg.maxMessageSize ++ ascii "-") := by
    have first : (ascii "SIZE " ++ toDecimal cfg.maxMessageSize ++ ascii "-").head? = some 83 := rfl
    rw [Uncoded, first]
    decide
  cases tlsActive with
  | true =>
      refine ⟨[_, _, _, _, _, _], rfl, ?_⟩
      simp only [List.forall_mem_cons, List.not_mem_nil, false_implies, implies_true, and_true]
      exact ⟨by decide, size, by decide, by decide, by decide, by decide⟩
  | false =>
      refine ⟨[_, _, _, _, _, _], rfl, ?_⟩
      simp only [List.forall_mem_cons, List.not_mem_nil, false_implies, implies_true, and_true]
      exact ⟨by decide, size, by decide, by decide, by decide, by decide⟩

theorem ehlo_speaks (cfg : Config) (c : Conn) : ∃ d, handleCommand cfg ehloLine c = .ok d ∧
    Speaks c d (sentLines (capabilities cfg c.session.tlsActive)) ∧ d.session.authed = c.session.authed ∧
    d.session.state = .heloEhlo ∧ d.session.sockOpen = c.session.sockOpen ∧ d.env.input = c.env.input := by
  have session : ∀ arg, (handleEhlo cfg arg c).session = { c.session with heloDomain := arg } :=
    fun arg => sendMultilineResponse_session _ _
  have input : ∀ arg, (handleEhlo cfg arg c).env.input = c.env.input := fun arg =>
    ((Aside.refl _).multiline _).input
  refine ⟨(handleEhlo cfg (splitCommand ehloLine).2 c).enter .heloEhlo, rfl, ?_, ?_, rfl, ?_, input _⟩
  · have log : ((handleEhlo cfg (splitCommand ehloLine).2 c).enter .heloEhlo).env.log =
        ((sentLines (capabilities cfg c.session.tlsActive)).map Event.reply).reverse ++ c.env.log :=
      sendMultilineResponse_log _ _
    apply Speaks.of_log _ log
    · intro event member
      rw [List.mem_reverse, List.mem_map] at member
      obtain ⟨line, -, rfl⟩ := member
      trivial
    · rw [List.reverse_reverse, List.filterMap_map]
      exact List.filterMap_some
  · rw [Conn.enter, session]
  · rw [Conn.enter, session]

/-- The lines of the session behind its greeting: only the first can begin with a 2, and only if
    the domain does. -/
structure Lines (cfg : Config) (more : List Bytes) : Prop where
  first : ∀ line ∈ more.head?, line.head? = some (code '2') → cfg.domain.head? = some (code '2')
  later : ∀ line ∈ more.tail, Uncoded line

theorem runLoop_ehlo {sender : Bytes} {rest : List Recv} (lf : Bytes.lf ∉ sender)
    (unauthed : c.session.authed = false)
    (left : rest = [] ∨ rest = arriving (mailLine sender ++ crlf))
    (input : c.env.input = arriving (ehloLine ++ crlf) ++ rest) :
    ∃ more, Speaks c (runLoop cfg fuel c) more ∧ Lines cfg more := by
  cases fuel with
  | zero => exact ⟨[], .of_log [] rfl (by simp) rfl, by simp, by simp⟩
  | succ fuel =>
      have text : (ehloLine ++ [Bytes.cr]).filter (· ≠ Bytes.cr) = ehloLine := by decide
      rcases @runLoop_text cfg fuel c (ehloLine ++ [Bytes.cr]) rest (by decide)
        (by rw [text]; exact List.cons_ne_nil _ _) input with
        ⟨line, member, speaks⟩ | ⟨d, speaks, session, input, goes⟩
      · refine ⟨_, speaks, ?_, by simp⟩
        rintro _ ⟨rfl⟩ coded
        exact absurd coded (givingUp_uncoded line member)
      · rw [text] at goes
        obtain ⟨e, handled, answered, authed, greeted, opened, kept⟩ := ehlo_speaks cfg d
        obtain ⟨caps, lines, uncoded⟩ := sentLines_uncoded cfg d.session.tlsActive
        have first : ∀ line ∈ (sentLines (capabilities cfg d.session.tlsActive)).head?,
            line.head? = some (code '2') → cfg.domain.head? = some (code '2') := by
          rw [lines]
          rintro _ ⟨rfl⟩ coded
          cases domain : cfg.domain with
          | nil =>
              rw [domain] at coded
              exact absurd coded (by decide)
          | cons b rest =>
              rw [domain] at coded
              exact coded
        have heard := speaks.trans answered
        rw [goes, handled]
        change ∃ more, Speaks c (if e.session.sockOpen then runLoop cfg fuel e else e) more ∧ _
        rw [lines] at first heard
        have whole : ∀ last, (∀ line ∈ last, Uncoded line) →
            Lines cfg ([] ++ (cfg.domain ++ ascii "-") :: caps ++ last) :=
          fun last also => ⟨first, List.forall_mem_append.mpr ⟨uncoded, also⟩⟩
        split
        · rcases left with rfl | rfl
          · have rest : Speaks e (runLoop cfg fuel e) [] := runLoop_empty (kept.trans input)
            exact ⟨_, heard.trans rest, whole [] (by simp)⟩
          · obtain ⟨more, rest, also⟩ := @runLoop_mail cfg fuel e sender lf
              (by rw [authed, session]; exact unauthed) (by rw [greeted]; simp) (kept.trans input)
            exact ⟨_, heard.trans rest, whole more also⟩
        · have same := heard.trans (.of_log [] rfl (by simp) rfl)
          exact ⟨_, same, whole [] (by simp)⟩

end Answering

/-! ## Nothing is relayed -/

section Relay

variable {cfg : Config} {allowed : Bool} {env : Env} {net : Network} {lines : Nat → List Bytes}
  {mxHost sender recipient raw : Bytes}

/-- What the client can have sent by its third read. -/
inductive Opening (sender : Bytes) : Bytes → Prop
  | nothing : Opening sender []
  | ehlo : Opening sender (ehloLine ++ crlf)
  | mail : Opening sender (ehloLine ++ crlf ++ (mailLine sender ++ crlf))

theorem opening_of_start {sent : List Bytes}
    (start : sent <+: [ehloLine ++ crlf, mailLine sender ++ crlf]) : Opening sender sent.flatten := by
  rcases List.prefix_cons_iff.mp start with rfl | ⟨rest, rfl, later⟩
  · exact .nothing
  rcases List.prefix_cons_iff.mp later with rfl | ⟨rest, rfl, last⟩
  · rw [List.flatten_singleton]
    exact .ehlo
  · obtain rfl := List.prefix_nil.mp last
    rw [List.flatten_cons, List.flatten_singleton]
    exact .mail

theorem run_speaks {env : Env} {more : List Bytes}
    (loop : Speaks (greet cfg (.fresh true env))
      (runLoop cfg (env.input.length + 1) (greet cfg (.fresh true env))) more) :
    Speaks (.fresh true env) (run cfg true (.fresh true env))
      ((ascii "220 " ++ cfg.domain ++ ascii " ESMTP ready") :: more) := by
  have greeting : Speaks (.fresh true env) (greet cfg (.fresh true env))
      [ascii "220 " ++ cfg.domain ++ ascii " ESMTP ready"] := .of_log [_] rfl (by simp [Unstored]) rfl
  have heard := greeting.trans loop
  change Speaks _ (if (runLoop cfg (env.input.length + 1) (greet cfg (.fresh true env))).session.sockOpen
    then (runLoop cfg (env.input.length + 1) (greet cfg (.fresh true env))).record .socketClosed
    else runLoop cfg (env.input.length + 1) (greet cfg (.fresh true env))) _
  split
  · rw [← List.append_nil (_ :: more)]
    exact heard.trans (.of_log [_] rfl (by simp [Unstored]) rfl)
  · exact heard

def greeting (cfg : Config) : Bytes := ascii "220 " ++ cfg.domain ++ ascii " ESMTP ready"

def tooMany : Bytes := ascii "421 Too many connections"

theorem peer_speaks {sent : Bytes} (lf : Bytes.lf ∉ sender) (opening : Opening sender sent) :
    ∃ more, (peer cfg allowed env sent).replies = greeting cfg :: more ∧ Lines cfg more ∧
      ∀ session msg answer, .store session msg answer ∉ (peer cfg allowed env sent).env.log := by
  cases allowed with
  | false =>
      refine ⟨[tooMany], rfl, ⟨?_, by simp⟩, fun session msg answer stored => ?_⟩
      · rintro _ ⟨rfl⟩ coded
        exact absurd coded (by decide)
      · have log : (peer cfg false env sent).env.log =
            [.socketClosed, .reply tooMany, .reply (greeting cfg)] := rfl
        simp [log] at stored
  | true =>
  obtain ⟨more, loop, said⟩ : ∃ more, Speaks (greet cfg (.fresh true { env with input := arriving sent }))
      (runLoop cfg ((arriving sent).length + 1)
        (greet cfg (.fresh true { env with input := arriving sent }))) more ∧ Lines cfg more := by
    cases opening with
    | nothing => exact ⟨[], runLoop_empty rfl, by simp, by simp⟩
    | ehlo => exact runLoop_ehlo lf rfl (.inl rfl) (List.append_nil _).symm
    | mail => exact runLoop_ehlo lf rfl (.inr rfl) (arriving_append _ _)
  have speaks := run_speaks loop
  refine ⟨more, speaks.replies, said, fun session msg answer stored => ?_⟩
  obtain ⟨new, log, each⟩ := speaks.stores
  rw [show (Conn.fresh true { env with input := arriving sent }).env.log = [] from rfl,
    List.append_nil] at log
  exact each _ (log ▸ stored)

theorem peer_empty : (peer cfg allowed env []).replies =
    greeting cfg :: if allowed then [] else [tooMany] := by
  cases allowed with
  | false => rfl
  | true => exact (run_speaks (runLoop_empty rfl)).replies

theorem Hears.reply {sent : List Bytes} (hears : Hears cfg allowed env net sent lines) (i : Nat) :
    net.reply i = (wire (lines i)).head? := by
  rw [← hears.data i, Network.reply]
  cases net.recvs i <;> rfl

theorem coded_line {heard : List Bytes} (coded : (wire heard).head? = some (code '2')) :
    ∃ line rest, heard = line :: rest ∧ ¬ Uncoded line := by
  cases heard with
  | nil => cases coded
  | cons line rest =>
      refine ⟨line, rest, rfl, not_not.mpr ?_⟩
      rw [wire, List.flatMap_cons] at coded
      cases line with
      | nil =>
          change some Bytes.cr = some (code '2') at coded
          exact absurd coded (by decide)
      | cons b line => exact coded

/-- A client that goes on after its first command has read the greeting only. A refusal would
    have come next. -/
theorem Hears.first {sent : List Bytes} (hears : Hears cfg allowed env net sent lines)
    (greeted : net.reply 0 ≠ none) (ehlo : net.reply 1 = some (code '2')) :
    lines 0 = [greeting cfg] := by
  rw [hears.reply] at greeted ehlo
  have causal := hears.causal 0
  rw [show (sent.take (sendsBefore 0)).flatten = [] from rfl, peer_empty] at causal
  have opened : lines 0 <+: greeting cfg :: if allowed then [] else [tooMany] := by
    simpa using causal
  rcases List.prefix_cons_iff.mp opened with silent | ⟨rest, same, last⟩
  · rw [silent] at greeted
    exact absurd rfl greeted
  cases allowed with
  | true => rw [same, List.prefix_nil.mp last]
  | false =>
      obtain ⟨line, more, second, coded⟩ := coded_line ehlo
      have both : lines 0 ++ lines 1 <+: [greeting cfg, tooMany] := by
        have causal := hears.causal 1
        rw [show (peer cfg false env (sent.take (sendsBefore 1)).flatten).replies =
          [greeting cfg, tooMany] from rfl] at causal
        simpa [List.range_succ] using causal
      rw [same, second, List.cons_append, List.cons_prefix_cons] at both
      cases rest with
      | nil =>
          have refusal : line = tooMany := (List.cons_prefix_cons.mp both.2).1
          rw [refusal] at coded
          exact absurd (by decide : Uncoded tooMany) coded
      | cons other rest =>
          have none_ := (List.cons_prefix_cons.mp both.2).2
          simp at none_

/-- The second command is never answered by a 2 on its first read. -/
theorem Hears.second {sent : List Bytes} (hears : Hears cfg allowed env net sent lines)
    (lf : Bytes.lf ∉ sender) (start : sent.take 2 <+: [ehloLine ++ crlf, mailLine sender ++ crlf])
    (greeting : net.reply 0 ≠ none) (ehlo : net.reply 1 = some (code '2')) :
    net.reply 2 ≠ some (code '2') ∧ cfg.domain.head? = some (code '2') := by
  obtain ⟨more, replies, said, -⟩ :=
    @peer_speaks cfg allowed env sender (sent.take 2).flatten lf (opening_of_start start)
  have first := hears.first greeting ehlo
  have heard : lines 0 ++ (lines 1 ++ lines 2) <+: Delivery.greeting cfg :: more := by
    have causal := hears.causal 2
    rw [show sendsBefore 2 = 2 from rfl, replies] at causal
    simpa [List.range_succ] using causal
  rw [hears.reply] at ehlo ⊢
  obtain ⟨line, rest, second, coded⟩ := coded_line ehlo
  rw [first, List.singleton_append, List.prefix_cons_inj, second, List.cons_append] at heard
  obtain ⟨unheard, all⟩ := heard
  have inside : more = line :: (rest ++ lines 2 ++ unheard) := all.symm
  constructor
  · intro third
    obtain ⟨line', rest', answer, coded'⟩ := coded_line third
    apply coded'
    apply said.later
    rw [inside, answer]
    simp
  · apply said.first line (by rw [inside]; rfl)
    exact not_not.mp coded

/-- Whatever the configuration of the other server, its rate limiter and clock, the network and
    the message: what is relayed is never delivered. The other side is told no more than two
    commands and stores nothing, and it does not refuse the message for good unless its domain
    begins with a 2. -/
theorem relay_fails {sent : List Bytes} (lf : Bytes.lf ∉ sender)
    (sends : sent = (connectAndDeliver net mxHost sender recipient raw).2)
    (hears : Hears cfg allowed env net sent lines) :
    (connectAndDeliver net mxHost sender recipient raw).1.success = false ∧
      ((connectAndDeliver net mxHost sender recipient raw).1.permanentFailure = true →
        cfg.domain.head? = some (code '2')) ∧
      sent <+: [ehloLine ++ crlf, mailLine sender ++ crlf] ∧
      ∀ session msg answer, .store session msg answer ∉ (peer cfg allowed env sent.flatten).env.log := by
  have starts := @connectAndDeliver_start net mxHost sender recipient raw
  rw [← sends] at starts
  obtain ⟨start, short⟩ := starts
  have stops : net.reply 0 ≠ none → net.reply 1 = some (code '2') →
      net.reply 2 ≠ some (code '2') := fun greeting ehlo => (hears.second lf start greeting ehlo).1
  have outcome := @connectAndDeliver_outcome net mxHost sender recipient raw
  refine ⟨?_, ?_, ?_⟩
  · rw [← Bool.not_eq_true, outcome.1]
    intro accepts
    exact stops accepts.greets.greeting accepts.ehlo accepts.mail
  · intro refused
    obtain ⟨greets, ehlo, -⟩ := outcome.2.mp refused
    exact (hears.second lf start greets.greeting ehlo).2
  · rw [List.take_of_length_le (short stops)] at start
    obtain ⟨-, -, -, unstored⟩ := @peer_speaks cfg allowed env sender sent.flatten lf (opening_of_start start)
    exact ⟨start, unstored⟩

end Relay

/-! ## A server of the default domain -/

def defaultConfig : Config := { minTlsVersion := TLS1_2_VERSION }

/-- The greeting, the capabilities, and nothing more. -/
def said : Nat → List Bytes
  | 0 => [ascii "220 example.com ESMTP ready"]
  | 1 => sentLines (capabilities defaultConfig true)
  | _ => []

theorem said_fits (i : Nat) : (wire (said i)).length ≤ bufferSize - 1 := by
  match i with
  | 0 => decide
  | 1 => decide
  | _ + 2 => exact Nat.zero_le _

def toDefault : Network where
  resolves := true
  opens := true
  connects := true
  recvs i := .bytes (wire (said i)) (said_fits i)
  uninitialized := []
  lengthError := []

theorem toDefault_sent (raw : Bytes) : [ehloLine ++ crlf] =
    (connectAndDeliver toDefault (ascii "mx") (ascii "a@x") (ascii "b@y") raw).2 := rfl

theorem said_all (i : Nat) : (List.range (i + 2)).flatMap said = said 0 ++ said 1 := by
  induction i with
  | zero => rfl
  | succ i ih =>
      rw [List.range_succ, List.flatMap_append, ih, List.flatMap_singleton]
      exact List.append_nil _

theorem toDefault_hears :
    Hears defaultConfig true { input := [] } toDefault [ehloLine ++ crlf] said where
  data _ := rfl
  causal i := by
    cases i with
    | zero => decide
    | succ i =>
        have one : [ehloLine ++ crlf].take (sendsBefore (i + 1)) = [ehloLine ++ crlf] := by
          apply List.take_of_length_le
          unfold sendsBefore
          split <;> simp
        rw [said_all, one]
        decide

/-- The client takes the second reply for a temporary failure, and gives up for now. -/
theorem relay_fails_default :
    (connectAndDeliver toDefault (ascii "mx") (ascii "a@x") (ascii "b@y") []).1.success = false ∧
      ((connectAndDeliver toDefault (ascii "mx") (ascii "a@x") (ascii "b@y") []).1.permanentFailure =
          true → defaultConfig.domain.head? = some (code '2')) ∧
      [ehloLine ++ crlf] <+: [ehloLine ++ crlf, mailLine (ascii "a@x") ++ crlf] ∧
      ∀ session msg answer, .store session msg answer ∉
        (peer defaultConfig true { input := [] } [ehloLine ++ crlf].flatten).env.log :=
  relay_fails (by decide) (toDefault_sent []) toDefault_hears

end EmailServer.Delivery
