import EmailServer.Smtp.Steps

/-! # Message bodies

What `handleData` makes of the bytes that follow its 354. The stream is read
here in lines, by `readLines`, so that what the loop does can be compared with
what a client sent: a body that breaks off is stored like a complete one, and a
body the loop gives up on is left unread.
-/

namespace EmailServer.Smtp

/-- What `readLine` delivers until it first delivers no line. -/
structure Reading where
  lines : List Bytes
  /-- An exception is what ends it. -/
  escapes : Bool
  unread : List Recv

/-- `readLine`, called again and again. -/
def readLines (consecutiveErrors : Nat) (out : Bytes) : List Recv → Reading
  | [] => ⟨[], false, []⟩
  | .closed :: rest | .threw :: rest => ⟨[], false, rest⟩
  | .escaped :: rest => ⟨[], true, rest⟩
  | .failed :: rest =>
      if consecutiveErrors + 1 > 3 then ⟨[], false, rest⟩
      else readLines (consecutiveErrors + 1) out rest
  | .byte c :: rest =>
      if c = Bytes.cr then readLines 0 out rest
      else if c = Bytes.lf then
        let more := readLines 0 [] rest
        { more with lines := out :: more.lines }
      else if (out ++ [c]).length > 1024 then ⟨[], false, rest⟩
      else readLines 0 (out ++ [c]) rest

theorem readLines_readFrom (errors : Nat) (out : Bytes) (input : List Recv) :
    readLines errors out input =
      match readFrom errors out input with
      | (.line line, rest) =>
          { readLines 0 [] rest with lines := line :: (readLines 0 [] rest).lines }
      | (.escaped, rest) => ⟨[], true, rest⟩
      | (_, rest) => ⟨[], false, rest⟩ := by
  induction input generalizing errors out with
  | nil => rfl
  | cons r rest ih =>
      cases r with
      | closed | threw | escaped => rfl
      | failed =>
          simp only [readLines, readFrom]
          split
          · rfl
          · exact ih _ _
      | byte c =>
          simp only [readLines, readFrom]
          split
          · exact ih _ _
          split
          · rfl
          split
          · rfl
          · exact ih _ _

/-- What the lines count for against the size limit. -/
def bodySize (lines : List Bytes) : Nat := (lines.map fun line => (unstuff line).length + 2).sum

/-- The loop survives these lines: they keep to the size limit, and there is
    memory for the copies made on the way. -/
structure Fits (cfg : Config) (messageSize : Nat) (lines : List Bytes) (appends : List Append) :
    Prop where
  size : messageSize + bodySize lines ≤ cfg.maxMessageSize
  memory : .copyFailed ∉ appends.take lines.length

instance (cfg : Config) (messageSize : Nat) (lines : List Bytes) (appends : List Append) :
    Decidable (Fits cfg messageSize lines appends) :=
  decidable_of_iff
    (messageSize + bodySize lines ≤ cfg.maxMessageSize ∧ .copyFailed ∉ appends.take lines.length)
    ⟨fun ⟨size, memory⟩ => ⟨size, memory⟩, fun h => ⟨h.size, h.memory⟩⟩

theorem Fits.nil {cfg : Config} {messageSize : Nat} {appends : List Append}
    (size : messageSize ≤ cfg.maxMessageSize) : Fits cfg messageSize [] appends :=
  ⟨by simpa [bodySize] using size, by simp⟩

theorem fits_cons {cfg : Config} {messageSize : Nat} {line : Bytes} {lines : List Bytes}
    {appends : List Append} :
    Fits cfg messageSize (line :: lines) appends ↔
      appends.headD .done ≠ .copyFailed ∧
        Fits cfg (messageSize + ((unstuff line).length + 2)) lines appends.tail := by
  have sizes : messageSize + bodySize (line :: lines) =
      messageSize + ((unstuff line).length + 2) + bodySize lines := by
    simp only [bodySize, List.map_cons, List.sum_cons]
    omega
  have copies : .copyFailed ∉ appends.take (line :: lines).length ↔
      appends.headD .done ≠ .copyFailed ∧ .copyFailed ∉ appends.tail.take lines.length := by
    cases appends with
    | nil => simp
    | cons answer rest => simp [eq_comm]
  constructor
  · intro fits
    obtain ⟨here, later⟩ := copies.mp fits.memory
    exact ⟨here, sizes ▸ fits.size, later⟩
  · rintro ⟨here, fits⟩
    exact ⟨sizes ▸ fits.size, copies.mpr ⟨here, fits.memory⟩⟩

/-! ## The read loop, line by line -/

theorem readLine_delivers {c c' : Conn} {line : Bytes} (read : readLine c = (.line line, c')) :
    readLines 0 [] c.env.input =
        { readLines 0 [] c'.env.input with lines := line :: (readLines 0 [] c'.env.input).lines } ∧
      c' = { c with env := { c.env with input := c'.env.input } } := by
  obtain ⟨result, left⟩ := readLine_line read
  rw [readLines_readFrom, result]
  exact ⟨rfl, left⟩

theorem readLine_fails {c c' : Conn} (read : readLine c = (.failed, c')) :
    readLines 0 [] c.env.input = ⟨[], false, c'.env.input⟩ ∧ c'.env.appends = c.env.appends ∧
      Logs (· ≠ .bodyLine terminator) c c' := by
  rw [readLines_readFrom]
  unfold readLine at read
  cases result : readFrom 0 [] c.env.input with
  | mk ended rest =>
    rw [result] at read
    cases ended with
    | line | escaped => cases read
    | closed | tooManyErrors | threw =>
        cases read
        exact ⟨rfl, rfl, .of_eq rfl⟩
    | tooLong =>
        cases read
        exact ⟨rfl, rfl, (Logs.of_eq rfl).record (by simp)⟩

theorem readLine_escapes {c c' : Conn} (read : readLine c = (.escaped, c')) :
    readLines 0 [] c.env.input = ⟨[], true, c'.env.input⟩ ∧
      c' = { c with env := { c.env with input := c'.env.input } } := by
  rw [readLines_readFrom]
  unfold readLine at read
  cases result : readFrom 0 [] c.env.input with
  | mk ended rest =>
    rw [result] at read
    cases ended with
    | line | closed | tooManyErrors | threw | tooLong => cases read
    | escaped =>
        cases read
        exact ⟨rfl, rfl⟩

theorem Message.insert_length (message : Message) (line : Bytes) (answer : Append) :
    (message.insert line answer).text.length ≤ message.text.length + (line.length + 1) := by
  cases bad : message.bad with
  | true => cases answer <;> simp [Message.insert, bad]
  | false =>
      cases answer with
      | done | copyFailed =>
          simp only [Message.insert, bad, Bool.false_eq_true, if_false, List.length_append,
            List.length_singleton]
          omega
      | lost kept =>
          simp only [Message.insert, bad, Bool.false_eq_true, if_false, List.length_append,
            List.length_take, List.length_singleton]
          omega

/-- After a line other than the terminator, the loop goes on if the line fits
    and is left above the store code if it does not. The memory check in between
    cannot fail, because the message is no longer than what was counted. -/
theorem dataLoop_line (cfg : Config) (fuel : Nat) {message : Message} {messageSize : Nat}
    {c c' : Conn} {line : Bytes} (read : readLine c = (.line line, c')) (more : line ≠ terminator)
    (counted : message.text.length ≤ messageSize) :
    (∃ message' d,
      message'.text.length ≤ messageSize + ((unstuff line).length + 2) ∧
      messageSize + ((unstuff line).length + 2) ≤ cfg.maxMessageSize ∧
      c.env.appends.headD .done ≠ .copyFailed ∧
      dataLoop cfg (fuel + 1) message messageSize c =
        dataLoop cfg fuel message' (messageSize + ((unstuff line).length + 2)) d ∧
      d.env.input = c'.env.input ∧ d.env.appends = c.env.appends.tail ∧
      Logs (· ≠ .bodyLine terminator) c d) ∨
    ((∀ lines, ¬ Fits cfg messageSize (line :: lines) c.env.appends) ∧
      ∀ m, (dataLoop cfg (fuel + 1) message messageSize c).1 ≠ .store m) := by
  have after := (readLine_delivers read).2
  have appends : c'.env.appends = c.env.appends := by rw [after]
  have delivered : Logs (· ≠ .bodyLine terminator) c (c'.record (.bodyLine line)) :=
    (Logs.of_eq (by rw [after])).record (by simpa using more)
  have step : dataLoop cfg (fuel + 1) message messageSize c = _ := dataLoop.eq_2 ..
  rw [read] at step
  dsimp only at step
  rw [if_neg more] at step
  split at step
  · rename_i large
    refine .inr ⟨fun lines fits => ?_, by simp [step]⟩
    have size := (fits_cons.mp fits).2.size
    omega
  rename_i size
  have small : ¬ message.text.length > cfg.maxMessageSize * 2 := by omega
  have inserted := message.insert_length (unstuff line)
  rw [← appends]
  cases answer : c'.env.appends.headD .done with
  | copyFailed =>
      simp only [nextAppend, Conn.record_appends, answer] at step
      exact .inr ⟨fun lines fits => (fits_cons.mp fits).1 answer, by simp [step]⟩
  | done | lost =>
      simp only [nextAppend, Conn.record_appends, answer, if_neg small] at step
      refine .inl ⟨_, _, (inserted _).trans ?_, Nat.not_lt.mp size, by simp, step, rfl, rfl,
        delivered.trans (.of_eq rfl)⟩
      omega

/-! ## Bodies that break off -/

/-- `readLine` returns false before it has delivered the terminator, nothing
    makes the loop give up before that, and the store is asked. -/
structure CutShort (cfg : Config) (c : Conn) : Prop where
  ends : terminator ∉ (readLines 0 [] c.env.input).lines
  returns : (readLines 0 [] c.env.input).escapes = false
  fits : Fits cfg 0 (readLines 0 [] c.env.input).lines c.env.appends
  copy : (c.env.appends.drop (readLines 0 [] c.env.input).lines.length).headD .done ≠ .copyFailed

/-- The loop reaches the store code without having seen the terminator exactly
    when the stream breaks off before it and everything up to there fits. -/
theorem dataLoop_truncates {cfg : Config} {fuel : Nat} {message : Message} {messageSize : Nat}
    {c : Conn} (enough : c.env.input.length < fuel) (counted : message.text.length ≤ messageSize)
    (size : messageSize ≤ cfg.maxMessageSize) :
    ∃ new, (dataLoop cfg fuel message messageSize c).2.env.log = new ++ c.env.log ∧
      ((∃ m, (dataLoop cfg fuel message messageSize c).1 = .store m) ∧
          CopySucceeds (dataLoop cfg fuel message messageSize c).2 ∧ .bodyLine terminator ∉ new ↔
        terminator ∉ (readLines 0 [] c.env.input).lines ∧
          (readLines 0 [] c.env.input).escapes = false ∧
          Fits cfg messageSize (readLines 0 [] c.env.input).lines c.env.appends ∧
          (c.env.appends.drop (readLines 0 [] c.env.input).lines.length).headD .done ≠
            .copyFailed) := by
  induction fuel generalizing message messageSize c with
  | zero => exact absurd enough (Nat.not_lt_zero _)
  | succ fuel ih =>
      cases read : readLine c with
      | mk result c' =>
      cases result with
      | failed =>
          obtain ⟨lines, appends, new, log, each⟩ := readLine_fails read
          have stops : dataLoop cfg (fuel + 1) message messageSize c = (.store message.text, c') := by
            rw [dataLoop, read]
          rw [stops, lines]
          refine ⟨new, log, ?_⟩
          rw [CopySucceeds, appends]
          constructor
          · exact fun h => ⟨by simp, rfl, .nil size, h.2.1⟩
          · exact fun h => ⟨⟨message.text, rfl⟩, h.2.2.2, fun member => each _ member rfl⟩
      | escaped =>
          obtain ⟨lines, after⟩ := readLine_escapes read
          have stops : dataLoop cfg (fuel + 1) message messageSize c = (.threw, c') := by
            rw [dataLoop, read]
          rw [stops, lines]
          exact ⟨[], by rw [after]; rfl, by simp⟩
      | line line =>
      obtain ⟨lines, after⟩ := readLine_delivers read
      by_cases more : line = terminator
      · subst more
        have stops : dataLoop cfg (fuel + 1) message messageSize c =
            (.store message.text, c'.record (.bodyLine terminator)) := by
          rw [dataLoop, read]
          exact if_pos rfl
        rw [stops, lines]
        refine ⟨[.bodyLine terminator], ?_, by simp⟩
        rw [Conn.record_log, after]
        rfl
      rcases dataLoop_line cfg fuel read more counted with
        ⟨message', d, counted', size', memory, step, input, appends, logs⟩ | ⟨unfit, left⟩
      · have shorter := readLine_shorter read
        obtain ⟨new, log, truncates⟩ := ih (by rw [input]; omega) counted' size'
        obtain ⟨between, log', each⟩ := logs
        rw [step, lines, fits_cons]
        refine ⟨new ++ between, by rw [log, log', List.append_assoc], ?_⟩
        rw [input, appends] at truncates
        have silent : .bodyLine terminator ∉ new ++ between ↔ .bodyLine terminator ∉ new := by
          rw [List.mem_append, not_or]
          exact ⟨fun h => h.1, fun h => ⟨h, fun member => each _ member rfl⟩⟩
        have later : terminator ∉ line :: (readLines 0 [] c'.env.input).lines ↔
            terminator ∉ (readLines 0 [] c'.env.input).lines := by
          rw [List.mem_cons, not_or]
          exact ⟨fun h => h.2, fun h => ⟨Ne.symm more, h⟩⟩
        rw [silent, truncates, later, List.length_cons, ← List.drop_tail]
        exact ⟨fun h => ⟨h.1, h.2.1, ⟨memory, h.2.2.1⟩, h.2.2.2⟩,
          fun h => ⟨h.1, h.2.1, h.2.2.1.2, h.2.2.2⟩⟩
      · obtain ⟨new, log, -⟩ := (dataLoop_receives cfg (fuel + 1) message messageSize c).log
        refine ⟨new, log, ?_⟩
        rw [lines]
        exact ⟨fun h => absurd h.1.choose_spec (left _), fun h => absurd h.2.2.1 (unfit _)⟩

theorem bodyLoop_truncates (cfg : Config) (c : Conn) :
    ∃ new, (bodyLoop cfg c).2.env.log = new ++ (askedForBody c).env.log ∧
      ((∃ m, (bodyLoop cfg c).1 = .store m) ∧ CopySucceeds (bodyLoop cfg c).2 ∧
          .bodyLine terminator ∉ new ↔ CutShort cfg c) := by
  obtain ⟨new, log, truncates⟩ := @dataLoop_truncates cfg (c.env.input.length + 1) {} 0
    (askedForBody c) (Nat.lt_succ_self _) (Nat.zero_le _) (Nat.zero_le _)
  refine ⟨new, log, truncates.trans ?_⟩
  exact ⟨fun h => ⟨h.1, h.2.1, h.2.2.1, h.2.2.2⟩, fun h => ⟨h.ends, h.returns, h.fits, h.copy⟩⟩

/-- `handleData` stores a message, or accepts it, only if the terminator came. -/
def StoresWhole (cfg : Config) (c : Conn) : Prop :=
  (∃ session msg answer, .store session msg answer ∈ since c (handleData cfg c).conn) ∨
      .reply accepted ∈ since c (handleData cfg c).conn →
    .bodyLine terminator ∈ since c (handleData cfg c).conn

theorem storesWhole_unstored {cfg : Config} {c : Conn}
    (received : Receives (askedForBody c) (handleData cfg c).conn) : StoresWhole cfg c := by
  obtain ⟨new, log, each⟩ := received.log
  have other : accepted ≠ ascii "354 End data with <CR><LF>.<CR><LF>" := by decide
  have unstored : ∀ session msg answer, .store session msg answer ∉ new := fun _ _ _ => each _
  have unanswered : .reply accepted ∉ new := fun member => each _ member rfl
  simp [StoresWhole, since_received log, asking, unstored, unanswered, other]

/-- For every stream and every way reading it can fail: only whole messages are
    stored, unless the body is cut short in this way. -/
theorem stores_whole_iff (cfg : Config) (c : Conn) :
    StoresWhole cfg c ↔ ¬ (c.session.rcptTo ≠ [] ∧ CutShort cfg c) := by
  by_cases recipients : c.session.rcptTo = []
  · have refused := handleData_refused cfg recipients
    have other : accepted ≠ ascii "503 No recipients specified" := by decide
    simp [StoresWhole, refused, recipients, other]
  obtain ⟨new, log, truncates⟩ := bodyLoop_truncates cfg c
  have received : Receives (askedForBody c) (bodyLoop cfg c).2 := dataLoop_receives ..
  have loop := handleData_loop cfg recipients
  generalize bodyLoop cfg c = ended at log truncates received loop
  obtain ⟨exit, mid⟩ := ended
  have unstored : Receives (askedForBody c) (handleData cfg c).conn → ¬ CutShort cfg c →
      (StoresWhole cfg c ↔ ¬ (c.session.rcptTo ≠ [] ∧ CutShort cfg c)) := by
    intro received whole
    simp [storesWhole_unstored received, whole]
  cases exit with
  | store message =>
      by_cases copy : CopySucceeds mid
      · obtain ⟨answer, replies, events, -⟩ := since_stored message copy log
        rw [← show handleData cfg c = storeMessage message mid from loop] at events
        have stored : ∃ session msg answer, .store session msg answer ∈
            since c (handleData cfg c).conn := ⟨mid.session, _, answer, by
              rw [events]
              exact List.mem_append_right _ (.head _)⟩
        have seen : .bodyLine terminator ∈ since c (handleData cfg c).conn ↔
            .bodyLine terminator ∈ new := by simp [events, asking]
        have delivered : .bodyLine terminator ∈ new ↔ ¬ CutShort cfg c := by
          rw [← truncates]
          simp [copy]
        simp only [StoresWhole, stored, seen, delivered, true_or, forall_const, ne_eq, recipients,
          not_false_iff, true_and]
      · apply unstored
        · rw [loop]
          exact received.replies (storeMessage_unasked message copy)
        · exact fun cut => copy (truncates.mpr cut).2.1
  | returned | threw =>
      apply unstored
      · rw [loop]
        exact received
      · exact fun cut => absurd (truncates.mpr cut).1 (by simp)

/-- The connection ends in the middle of a message: what came is stored and
    accepted. -/
theorem truncated_message_accepted :
    let c : Conn := ⟨{ SmtpSession.fresh true 0 with state := .rcptTo, rcptTo := [ascii "bob"] },
      { input := arriving (ascii "hello\r\n"), stores := [some (ascii "1")] }⟩
    let events := since c (handleData { minTlsVersion := TLS1_2_VERSION } c).conn
    (∃ session msg answer, .store session msg answer ∈ events) ∧ .reply accepted ∈ events ∧
      .bodyLine terminator ∉ events := by
  refine ⟨⟨{ SmtpSession.fresh true 0 with state := .rcptTo, rcptTo := [ascii "bob"] },
    ⟨[], [], [ascii "bob"], ascii "hello\n", ascii "bob"⟩, some (ascii "1"), ?_⟩, ?_, ?_⟩ <;> decide

end EmailServer.Smtp
