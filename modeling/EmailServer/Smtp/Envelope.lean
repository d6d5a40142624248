import EmailServer.Smtp.Moves

/-! # Envelope addresses

`MAIL` and `RCPT` keep their argument as it is: the keyword and the brackets around an
address become a part of it, and an argument of any other form is taken as well.
-/

namespace EmailServer.Smtp

/-- No space, angle bracket or line end. -/
def IsAddress (a : Bytes) : Prop :=
  ∀ b ∈ a, b ≠ Bytes.space ∧ b ≠ 60 ∧ b ≠ 62 ∧ b ≠ Bytes.cr ∧ b ≠ Bytes.lf

instance (a : Bytes) : Decidable (IsAddress a) :=
  decidable_of_iff
    (a.all fun b => b != Bytes.space && b != 60 && b != 62 && b != Bytes.cr && b != Bytes.lf)
    (by simp [IsAddress, and_assoc])

/-- The keyword in front of the address. -/
def Verb.keyword : Verb → Bytes
  | .mail => ascii "FROM:"
  | _ => ascii "TO:"

/-- The argument that names an address. -/
def Verb.argument (v : Verb) (a : Bytes) : Bytes := v.keyword ++ ascii "<" ++ a ++ ascii ">"

/-- The command gets as far as `handleMailFrom` or `handleRcptTo`. -/
def LetThrough (cfg : Config) (line : Bytes) (s : SmtpSession) : Verb → Prop
  | .mail => Admitted cfg line s .mail ∧ s.authed = true
  | .rcpt => Admitted cfg line s .rcpt
  | _ => False

/-- The only answer is a 5xx, and the envelope and the state are as they were. -/
structure TurnedDown (c d : Conn) : Prop where
  answer : ∃ text, since c d = [.reply text] ∧ text.head? = some (53 : UInt8)
  mailFrom : d.session.mailFrom = c.session.mailFrom
  rcptTo : d.session.rcptTo = c.session.rcptTo
  state : d.session.state = c.session.state

/-- The command is parsed: an address is taken out of its argument, and an argument without
    one is turned down. -/
structure ParsesEnvelope (cfg : Config) (line : Bytes) (c : Conn) : Prop where
  mail : ∀ a, IsAddress a → (splitCommand line).2 = Verb.mail.argument a →
    LetThrough cfg line c.session .mail → (handleCommand cfg line c).conn.session.mailFrom = a
  rcpt : ∀ a, IsAddress a → (splitCommand line).2 = Verb.rcpt.argument a →
    LetThrough cfg line c.session .rcpt →
    (handleCommand cfg line c).conn.session.rcptTo = c.session.rcptTo ++ [a]
  other : ∀ v, v = .mail ∨ v = .rcpt → commandVerb line = v →
    (∀ a, IsAddress a → (splitCommand line).2 ≠ v.argument a) →
    TurnedDown c (handleCommand cfg line c).conn

variable {cfg : Config} {line : Bytes} {c : Conn}

theorem argument_ne (v : Verb) (a : Bytes) : v.argument a ≠ a := by
  intro same
  have longer := congrArg List.length same
  have bracket : 0 < (ascii "<").length := by decide
  simp only [Verb.argument, List.length_append] at longer
  omega

theorem turnedDown_sendLine {text : Bytes} (refusal : text.head? = some (53 : UInt8)) :
    TurnedDown c (c.sendLine text) where
  answer := ⟨text, @since_eq c (c.sendLine text) [.reply text] rfl, refusal⟩
  mailFrom := rfl
  rcptTo := rfl
  state := rfl

theorem handleCommand_turnedDown {v : Verb} (verb : commandVerb line = v)
    (isEnvelope : v = .mail ∨ v = .rcpt) (stopped : ¬ LetThrough cfg line c.session v) :
    TurnedDown c (handleCommand cfg line c).conn := by
  subst verb
  have moves := handleCommand_moves cfg line c
  generalize handleCommand cfg line c = ended at moves ⊢
  cases moves with
  | outOfSequence | insecure | unauthenticated => exact turnedDown_sendLine rfl
  | mails admitted authed =>
      rw [admitted.verb] at stopped
      exact absurd ⟨admitted, authed⟩ stopped
  | recipient admitted =>
      rw [admitted.verb] at stopped
      exact absurd admitted stopped
  | greets verb | replies _ verb =>
      rcases verb with verb | verb <;> simp [verb] at isEnvelope
  | hangsUp verb =>
      rcases verb with admitted | verb
      · simp [admitted.verb] at isEnvelope
      · simp [verb] at isEnvelope
  | hasTls admitted | startsTls admitted | hasAuth admitted | authenticates _ admitted
  | noRecipients admitted | receives admitted =>
      simp [admitted.verb] at isEnvelope
  | resets verb => simp [verb] at isEnvelope

theorem handleCommand_mail (through : LetThrough cfg line c.session .mail) :
    handleCommand cfg line c = .ok ((handleMailFrom (splitCommand line).2 c).enter .mailFrom) := by
  obtain ⟨⟨verb, sequence, secure⟩, authed⟩ := through
  simp only [outOfSequence, beq_eq_false_iff_ne] at sequence
  simp only [insecure] at secure
  simp only [handleCommand, verb]
  rw [if_neg sequence, if_neg (by simp [secure]), if_neg (by simp [authed])]

theorem handleCommand_rcpt (through : LetThrough cfg line c.session .rcpt) :
    handleCommand cfg line c = .ok ((handleRcptTo (splitCommand line).2 c).enter .rcptTo) := by
  obtain ⟨verb, sequence, secure⟩ := through
  have inside : ¬ (c.session.state ≠ .mailFrom ∧ c.session.state ≠ .rcptTo) := by
    simp only [outOfSequence, SmtpSession.transacting, Bool.not_eq_false', Bool.or_eq_true,
      beq_iff_eq] at sequence
    tauto
  simp only [insecure] at secure
  simp only [handleCommand, verb]
  rw [if_neg inside, if_neg (by simp [secure])]

theorem not_turnedDown {d : Conn}
    (log : d.env.log = .reply (ascii "250 OK") :: c.env.log) : ¬ TurnedDown c d := by
  rintro ⟨⟨text, answer, refusal⟩, -⟩
  rw [@since_eq c d [.reply (ascii "250 OK")] log] at answer
  obtain rfl : ascii "250 OK" = text := by simpa using answer
  exact absurd refusal (by decide)

theorem ParsesEnvelope.named (parses : ParsesEnvelope cfg line c) {v : Verb}
    (isEnvelope : v = .mail ∨ v = .rcpt) (verb : commandVerb line = v)
    (log : (handleCommand cfg line c).conn.env.log = .reply (ascii "250 OK") :: c.env.log) :
    ∃ a, IsAddress a ∧ (splitCommand line).2 = v.argument a := by
  by_contra unnamed
  refine not_turnedDown log (parses.other v isEnvelope verb ?_)
  exact fun a isAddress argument => unnamed ⟨a, isAddress, argument⟩

/-- For every configuration, session and command: the envelope is parsed if and only if the
    command is stopped before its argument is looked at. -/
theorem parses_envelope_iff (cfg : Config) (line : Bytes) (c : Conn) :
    ParsesEnvelope cfg line c ↔ ∀ v, ¬ LetThrough cfg line c.session v := by
  constructor
  · intro parses v through
    cases v with
    | mail =>
        have done := handleCommand_mail through
        obtain ⟨a, isAddress, argument⟩ := parses.named (.inl rfl) through.1.verb (by rw [done]; rfl)
        have kept := parses.mail a isAddress argument through
        rw [done] at kept
        have whole : (splitCommand line).2 = a := kept
        exact argument_ne .mail a (argument.symm.trans whole)
    | rcpt =>
        have done := handleCommand_rcpt through
        obtain ⟨a, isAddress, argument⟩ := parses.named (.inr rfl) through.verb (by rw [done]; rfl)
        have kept := parses.rcpt a isAddress argument through
        rw [done] at kept
        have kept : c.session.rcptTo ++ [(splitCommand line).2] = c.session.rcptTo ++ [a] := kept
        have whole : (splitCommand line).2 = a := by simpa using kept
        exact argument_ne .rcpt a (argument.symm.trans whole)
    | _ => exact through
  · intro stopped
    refine ⟨fun a _ _ through => absurd through (stopped _),
      fun a _ _ through => absurd through (stopped _), fun v isEnvelope verb _ => ?_⟩
    exact handleCommand_turnedDown verb isEnvelope (stopped v)

/-- `MAIL FROM:<alice@x>` in front of an authenticated session, then `RCPT TO:<bob@x>`: the
    brackets become a part of the sender, and of the name of the mailbox. -/
theorem brackets_kept :
    let cfg : Config := { minTlsVersion := TLS1_2_VERSION }
    let c : Conn := ⟨{ SmtpSession.fresh true 0 with state := .auth, authed := true }, { input := [] }⟩
    let mailed := (handleCommand cfg (ascii "MAIL FROM:<alice@x>") c).conn
    let named := (handleCommand cfg (ascii "RCPT TO:<bob@x>") mailed).conn
    ¬ ParsesEnvelope cfg (ascii "MAIL FROM:<alice@x>") c ∧
      mailed.session.mailFrom = ascii "FROM:<alice@x>" ∧
      (messageOf named.session []).mailboxUser = ascii "TO:<bob@x>" := by
  intro cfg c mailed named
  have mailFrom : mailed.session.mailFrom = ascii "FROM:<alice@x>" := by decide
  refine ⟨fun parses => ?_, mailFrom, by decide⟩
  have parsed := parses.mail (ascii "alice@x") (by decide) (by decide)
    ⟨by decide, rfl⟩
  exact absurd (mailFrom.symm.trans parsed) (by decide)

end EmailServer.Smtp
