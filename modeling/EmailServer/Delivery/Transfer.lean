import EmailServer.Delivery.Outcome
import EmailServer.Smtp.Body

/-! # From the client's DATA to the server's

What `connectAndDeliver` sends after the reply to `DATA`, as `handleData` reads it. The
client sends the message as it is, where the server takes a dot away from each line
that begins with one; and it begins the end of the data on a line of its own.
-/

namespace EmailServer.Delivery

open Smtp

/-! ## What is sent -/

/-- The network lets the client go on up to the reply to `DATA`. -/
structure Network.AsksForData (net : Network) : Prop where
  greets : net.Greets
  ehlo : net.reply 1 = some (code '2')
  mail : net.reply 2 = some (code '2')
  rcpt : net.reply 3 = some (code '2')
  data : net.reply 4 = some (code '3')

/-- What is sent between the reply to `DATA`, the fourth command, and the next reply. -/
def sentAsData (sent : List Bytes) : Bytes := ((sent.drop 4).take 2).flatten

section Sending

variable {net : Network} {c : Client}

@[simp] theorem recv_sent : (c.recv net).sent = c.sent := by
  unfold Client.recv
  split <;> rfl

@[simp] theorem ask_sent (command : Bytes) : (c.ask net command).sent = c.sent ++ [command] :=
  recv_sent

@[simp] theorem send_sent (data : Bytes) : (c.send data).sent = c.sent ++ [data] := rfl

@[simp] theorem terminate_sent : c.terminate.sent = c.sent := rfl

theorem converse_sent {sender recipient raw : Bytes} (asks : net.AsksForData) (start : c.reads = 0)
    (fresh : c.sent = []) :
    sentAsData (converse net sender recipient raw c).2.sent =
      raw ++ (crlf ++ ascii "." ++ crlf) := by
  unfold converse
  dsimp only
  rw [if_neg (mt recv_nonpos.mp (by rw [start]; exact asks.greets.greeting))]
  have reads₁ : (c.recv net).terminate.reads = 1 := by simp [start]
  have sent₁ : (c.recv net).terminate.sent = [] := by simp [fresh]
  generalize (c.recv net).terminate = c₁ at reads₁ sent₁ ⊢
  obtain ⟨passes, reads₂, _⟩ :=
    ask_expected reads₁ asks.ehlo (ascii "EHLO " ++ ascii "mailserver.local" ++ crlf)
  rw [if_neg passes]
  obtain ⟨passes, reads₃, _⟩ :=
    ask_expected reads₂ asks.mail (ascii "MAIL FROM:<" ++ sender ++ ascii ">" ++ crlf)
  rw [if_neg passes]
  obtain ⟨passes, reads₄, _⟩ :=
    ask_expected reads₃ asks.rcpt (ascii "RCPT TO:<" ++ recipient ++ ascii ">" ++ crlf)
  rw [if_neg passes]
  rw [if_neg (ask_expected reads₄ asks.data (ascii "DATA" ++ crlf)).1]
  split
  · simp [sentAsData, sent₁]
  · simp [sentAsData, sent₁]

theorem connectAndDeliver_sent {mxHost sender recipient raw : Bytes} (asks : net.AsksForData) :
    sentAsData (connectAndDeliver net mxHost sender recipient raw).2 =
      raw ++ (crlf ++ ascii "." ++ crlf) := by
  have sent := @converse_sent net ⟨net.uninitialized, 0, 0, []⟩ sender recipient raw asks rfl rfl
  simp [connectAndDeliver, asks.greets.resolves, asks.greets.opens, asks.greets.connects, sent]

end Sending

/-! ## What is read -/

/-- A line of at most 1000 characters, without CR and LF in it. -/
structure PlainLine (line : Bytes) : Prop where
  length : line.length ≤ 1000
  cr : Bytes.cr ∉ line
  lf : Bytes.lf ∉ line

/-- A line that `readLine` takes as a whole. -/
structure ReadableLine (line : Bytes) : Prop where
  length : line.length ≤ 1024
  cr : Bytes.cr ∉ line
  lf : Bytes.lf ∉ line

theorem PlainLine.readable {line : Bytes} (plain : PlainLine line) : ReadableLine line :=
  ⟨plain.length.trans (by decide), plain.cr, plain.lf⟩

theorem terminator_readable : ReadableLine terminator := ⟨by decide, by decide, by decide⟩

/-- The message made of the lines. -/
def rawMessage (lines : List Bytes) : Bytes := lines.flatMap (· ++ crlf)

/-- The lines as they are stored. -/
def storedLines (lines : List Bytes) : Bytes := lines.flatMap (· ++ [Bytes.lf])

theorem readFrom_line {line out : Bytes} {rest : List Recv} (cr : Bytes.cr ∉ line)
    (lf : Bytes.lf ∉ line) (short : out.length + line.length ≤ 1024) :
    readFrom 0 out (arriving (line ++ crlf) ++ rest) = (.line (out ++ line), rest) := by
  induction line generalizing out with
  | nil =>
      rw [List.append_nil]
      rfl
  | cons b line ih =>
      obtain ⟨notCr, cr⟩ := List.ne_and_not_mem_of_not_mem_cons cr
      obtain ⟨notLf, lf⟩ := List.ne_and_not_mem_of_not_mem_cons lf
      rw [List.length_cons] at short
      have fits : ¬ (out ++ [b]).length > 1024 := by
        rw [List.length_append, List.length_singleton]
        omega
      change readFrom 0 out (.byte b :: (arriving (line ++ crlf) ++ rest)) = _
      rw [readFrom, if_neg (Ne.symm notCr), if_neg (Ne.symm notLf), if_neg fits,
        ih cr lf (by rw [List.length_append, List.length_singleton]; omega), List.append_assoc]
      rfl

theorem readLine_line {c : Conn} {line : Bytes} {rest : List Recv} (readable : ReadableLine line)
    (input : c.env.input = arriving (line ++ crlf) ++ rest) :
    readLine c = (.line line, { c with env := { c.env with input := rest } }) := by
  have length := readable.length
  rw [readLine, input, readFrom_line readable.cr readable.lf (by rw [List.length_nil]; omega)]
  rfl

/-- Memory does not run out while the message is read. -/
def MemorySuffices (c : Conn) : Prop := ∀ answer ∈ c.env.appends, answer = .done

theorem MemorySuffices.copySucceeds {c d : Conn} (memory : MemorySuffices c)
    (later : d.env.appends <:+ c.env.appends) : CopySucceeds d := by
  unfold CopySucceeds
  cases answers : d.env.appends with
  | nil => simp
  | cons answer rest =>
      have done : answer = .done := memory answer (later.subset (by simp [answers]))
      simp [done]

section Reading

variable {cfg : Config} {c : Conn} {message line : Bytes} {messageSize fuel : Nat}
  {lines : List Bytes} {rest : List Recv}

theorem dataLoop_append (readable : ReadableLine line) (other : line ≠ terminator)
    (memory : MemorySuffices c) (counted : message.length ≤ messageSize)
    (input : c.env.input = arriving (line ++ crlf) ++ rest) :
    (messageSize + ((unstuff line).length + 2) ≤ cfg.maxMessageSize ∧ ∃ d : Conn,
      dataLoop cfg (fuel + 1) ⟨message, false⟩ messageSize c =
        dataLoop cfg fuel ⟨message ++ (unstuff line ++ [Bytes.lf]), false⟩
          (messageSize + ((unstuff line).length + 2)) d ∧
      d.env.input = rest ∧ MemorySuffices d) ∨
    (cfg.maxMessageSize < messageSize + ((unstuff line).length + 2) ∧ ∃ d,
      dataLoop cfg (fuel + 1) ⟨message, false⟩ messageSize c = (.returned, d)) := by
  have read := readLine_line readable input
  have done : c.env.appends.headD .done = .done := by
    cases answers : c.env.appends with
    | nil => rfl
    | cons answer later => exact memory answer (by simp [answers])
  have step : dataLoop cfg (fuel + 1) ⟨message, false⟩ messageSize c = _ := dataLoop.eq_2 ..
  rw [read] at step
  dsimp only at step
  rw [if_neg other] at step
  by_cases large : messageSize + ((unstuff line).length + 2) > cfg.maxMessageSize
  · rw [if_pos large] at step
    exact .inr ⟨large, _, step⟩
  · have small : ¬ message.length > cfg.maxMessageSize * 2 := by omega
    simp only [if_neg large, nextAppend, Conn.record_appends, done, if_neg small] at step
    have inserted : Message.insert ⟨message, false⟩ (unstuff line) .done =
        ⟨message ++ (unstuff line ++ [Bytes.lf]), false⟩ := by
      rw [← List.append_assoc]
      rfl
    rw [inserted] at step
    refine .inl ⟨Nat.not_lt.mp large, _, step, rfl, ?_⟩
    exact fun answer member => memory answer (List.mem_of_mem_tail member)

theorem dataLoop_terminator (input : c.env.input = arriving (terminator ++ crlf) ++ rest) :
    ∃ d, dataLoop cfg (fuel + 1) ⟨message, false⟩ messageSize c = (.store message, d) ∧
      d.env.input = rest := by
  have read := readLine_line terminator_readable input
  have stops : dataLoop cfg (fuel + 1) ⟨message, false⟩ messageSize c = _ := dataLoop.eq_2 ..
  rw [read] at stops
  exact ⟨_, stops.trans (if_pos rfl), rfl⟩

theorem rawMessage_cons : rawMessage (line :: lines) = line ++ crlf ++ rawMessage lines :=
  List.flatMap_cons

theorem storedLines_cons : storedLines (line :: lines) = line ++ [Bytes.lf] ++ storedLines lines :=
  List.flatMap_cons

theorem arriving_append (s t : Bytes) : arriving (s ++ t) = arriving s ++ arriving t :=
  List.map_append

/-- The loop in front of readable lines and the terminator. It stores them all without
    their dots; or a terminator is among them, and it stores what comes before and leaves
    the rest unread; or they are too much. -/
theorem dataLoop_lines (readable : ∀ line ∈ lines, ReadableLine line) (memory : MemorySuffices c)
    (counted : message.length ≤ messageSize) (size : messageSize ≤ cfg.maxMessageSize)
    (enough : lines.length < fuel)
    (input : c.env.input = arriving (rawMessage (lines ++ [terminator])) ++ rest) :
    (terminator ∉ lines ∧ messageSize + bodySize lines ≤ cfg.maxMessageSize ∧ ∃ d,
      dataLoop cfg fuel ⟨message, false⟩ messageSize c =
        (.store (message ++ storedLines (lines.map unstuff)), d) ∧ d.env.input = rest) ∨
    ((terminator ∈ lines ∨ cfg.maxMessageSize < messageSize + bodySize lines) ∧ ∃ d,
      dataLoop cfg fuel ⟨message, false⟩ messageSize c = (.returned, d) ∨
      ∃ m, dataLoop cfg fuel ⟨message, false⟩ messageSize c = (.store m, d) ∧
        rest.length < d.env.input.length) := by
  induction lines generalizing fuel message messageSize c with
  | nil =>
      obtain ⟨fuel, rfl⟩ := Nat.exists_eq_succ_of_ne_zero (Nat.ne_of_gt enough)
      obtain ⟨d, stores, left⟩ := dataLoop_terminator input
      refine .inl ⟨List.not_mem_nil, ?_, d, ?_, left⟩
      · simpa [bodySize] using size
      · simpa [storedLines] using stores
  | cons line lines ih =>
      obtain ⟨first, later⟩ := List.forall_mem_cons.mp readable
      obtain ⟨fuel, rfl⟩ := Nat.exists_eq_succ_of_ne_zero (Nat.ne_of_gt (Nat.zero_lt_of_lt enough))
      have sizes : bodySize (line :: lines) = (unstuff line).length + 2 + bodySize lines := rfl
      have input : c.env.input =
          arriving (line ++ crlf) ++ (arriving (rawMessage (lines ++ [terminator])) ++ rest) := by
        rw [input, List.cons_append, rawMessage_cons, arriving_append, List.append_assoc]
      by_cases ended : line = terminator
      · subst ended
        obtain ⟨d, stores, left⟩ := dataLoop_terminator input
        refine .inr ⟨.inl List.mem_cons_self, d, .inr ⟨message, stores, ?_⟩⟩
        rw [left, List.length_append]
        have unread : 0 < (arriving (rawMessage (lines ++ [terminator]))).length := by
          simp [arriving, rawMessage, crlf]
        omega
      · rcases dataLoop_append first ended memory counted input with
          ⟨fits, d, step, unread, memory⟩ | ⟨large, d, step⟩
        · have counted : (message ++ (unstuff line ++ [Bytes.lf])).length ≤
              messageSize + ((unstuff line).length + 2) := by
            simp only [List.length_append, List.length_singleton]
            omega
          have tail := ih later memory counted fits (Nat.lt_of_succ_lt_succ enough) unread
          rw [step, sizes]
          rcases tail with ⟨absent, whole, d, stores, left⟩ | ⟨cause, d, ends⟩
          · refine .inl ⟨?_, by omega, d, ?_, left⟩
            · rw [List.mem_cons, not_or]
              exact ⟨Ne.symm ended, absent⟩
            · rw [stores, List.map_cons, storedLines_cons, List.append_assoc]
          · refine .inr ⟨cause.imp (List.mem_cons_of_mem _) ?_, d, ends⟩
            intro large
            omega
        · exact .inr ⟨.inr (by omega), d, .inl step⟩

end Reading

/-! ## What is stored -/

/-- A line that the server takes a dot away from. -/
abbrev Dotted (line : Bytes) : Prop := line.head? = some Bytes.dot

section Storing

variable {lines : List Bytes}

theorem map_unstuff (dots : ∀ line ∈ lines, ¬ Dotted line) : lines.map unstuff = lines := by
  have same : ∀ line ∈ lines, unstuff line = id line := fun line member => if_neg (dots line member)
  rw [List.map_congr_left same, List.map_id]

theorem bodySize_rawMessage (dots : ∀ line ∈ lines, ¬ Dotted line) :
    bodySize lines = (rawMessage lines).length := by
  rw [bodySize, rawMessage, List.length_flatMap]
  congr 1
  refine List.map_congr_left fun line member => ?_
  rw [unstuff, if_neg (dots line member), List.length_append]
  rfl

theorem count_storedLines (lf : ∀ line ∈ lines, Bytes.lf ∉ line) :
    (storedLines lines).count Bytes.lf = lines.length := by
  induction lines with
  | nil => rfl
  | cons line lines ih =>
      obtain ⟨first, later⟩ := List.forall_mem_cons.mp lf
      rw [storedLines_cons, List.count_append, List.count_append, List.count_eq_zero_of_not_mem first,
        ih later, List.length_cons]
      exact Nat.add_comm 1 _

theorem length_storedLines : (storedLines (lines.map unstuff)).length +
    lines.countP (Dotted ·) = (storedLines lines).length := by
  induction lines with
  | nil => rfl
  | cons line lines ih =>
      have lengths : (unstuff line).length + (if Dotted line then 1 else 0) = line.length := by
        unfold unstuff
        split
        · rename_i dotted
          cases line with
          | nil => cases dotted
          | cons => rfl
        · rfl
      simp only [List.map_cons, storedLines_cons, List.length_append, List.countP_cons,
        decide_eq_true_eq, List.length_singleton]
      omega

theorem mem_unstuff {line : Bytes} {b : UInt8} (member : b ∈ unstuff line) : b ∈ line := by
  unfold unstuff at member
  split at member
  · exact List.mem_of_mem_tail member
  · exact member

/-- The lines are found again in what is stored, up to an empty one in the end,
    when none of them begins with a dot. -/
theorem storedLines_unstuff_iff (lf : ∀ line ∈ lines, Bytes.lf ∉ line) :
    (storedLines ((lines ++ [[]]).map unstuff) = storedLines lines ∨
      storedLines ((lines ++ [[]]).map unstuff) = storedLines (lines ++ [[]])) ↔
      ∀ line ∈ lines, ¬ Dotted line := by
  constructor
  · rintro (short | same)
    · have feeds : ∀ line ∈ (lines ++ [[]]).map unstuff, Bytes.lf ∉ line := by
        intro line member
        obtain ⟨whole, sent, rfl⟩ := List.mem_map.mp member
        rcases List.mem_append.mp sent with sent | last
        · exact mt mem_unstuff (lf whole sent)
        · rw [List.mem_singleton.mp last]
          exact List.not_mem_nil
      have counts := congrArg (List.count Bytes.lf) short
      rw [count_storedLines feeds, count_storedLines lf, List.length_map,
        List.length_append] at counts
      exact absurd counts (Nat.succ_ne_self _)
    · have none_ : (lines ++ [[]]).countP (Dotted ·) = 0 := by
        have lengths := @length_storedLines (lines ++ [[]])
        rw [same] at lengths
        omega
      intro line member
      simpa using List.countP_eq_zero.mp none_ line (List.mem_append_left _ member)
  · intro dots
    refine .inr (congrArg storedLines (map_unstuff ?_))
    exact List.forall_mem_append.mpr ⟨dots, by simp⟩

end Storing

section Agreement

variable {cfg : Config} {c : Conn}

theorem handleData_stores {message : Bytes} (recipients : c.session.rcptTo ≠ [])
    (memory : MemorySuffices c) :
    (∃ session msg answer, .store session msg answer ∈ since c (handleData cfg c).conn ∧
      msg.rawData = message) ↔ (bodyLoop cfg c).1 = .store message := by
  have received : Receives (askedForBody c) (bodyLoop cfg c).2 := dataLoop_receives ..
  obtain ⟨new, log, each⟩ := received.log
  have unstored : ∀ session msg answer, .store session msg answer ∉ new := fun _ _ _ => each _
  have copy : CopySucceeds (bodyLoop cfg c).2 := memory.copySucceeds received.appends
  rw [handleData_loop cfg recipients]
  generalize bodyLoop cfg c = ended at log copy
  obtain ⟨exit, mid⟩ := ended
  cases exit with
  | store stored =>
      obtain ⟨answer, replies, events, -⟩ := since_stored stored copy log
      simp only [events, DataExit.store.injEq]
      constructor
      · rintro ⟨session, msg, answer', member, same⟩
        simp only [asking, List.mem_cons, List.mem_append, List.mem_map, unstored, reduceCtorEq,
          List.not_mem_nil, Event.store.injEq, and_false, exists_false, or_false, false_or]
          at member
        rw [← same, member.2.1]
        rfl
      · rintro rfl
        exact ⟨_, _, _, List.mem_append_right _ (.head _), rfl⟩
  | returned | threw =>
      have events := since_received log
      simp [Ended.conn, events, asking, unstored]

theorem handleData_unread (recipients : c.session.rcptTo ≠ []) :
    (handleData cfg c).conn.env.input = (bodyLoop cfg c).2.env.input := by
  rw [handleData_loop cfg recipients]
  generalize bodyLoop cfg c = ended
  obtain ⟨exit, mid⟩ := ended
  cases exit with
  | store message => exact storeMessage_input message mid
  | returned | threw => rfl

variable {lines : List Bytes} {rest : List Recv}

/-- `handleData` stores the lines, with at most an empty one more, and reads up to the rest. -/
def StoredAsSent (cfg : Config) (c : Conn) (lines : List Bytes) (rest : List Recv) : Prop :=
  (∃ session msg answer, .store session msg answer ∈ since c (handleData cfg c).conn ∧
    (msg.rawData = storedLines lines ∨ msg.rawData = storedLines (lines ++ [[]]))) ∧
  (handleData cfg c).conn.env.input = rest

theorem rawMessage_append (xs ys : List Bytes) :
    rawMessage (xs ++ ys) = rawMessage xs ++ rawMessage ys := List.flatMap_append

theorem length_le_rawMessage : lines.length ≤ (rawMessage lines).length := by
  induction lines with
  | nil => exact Nat.le_refl 0
  | cons line lines ih =>
      rw [rawMessage_cons, List.length_append, List.length_append, List.length_cons]
      change lines.length + 1 ≤ line.length + 2 + (rawMessage lines).length
      omega

theorem rawMessage_terminated :
    rawMessage lines ++ (crlf ++ ascii "." ++ crlf) = rawMessage (lines ++ [[]] ++ [terminator]) := by
  rw [rawMessage_append, rawMessage_append, List.append_assoc, List.append_assoc]
  rfl

theorem forall_mem_withEmpty {p : Bytes → Prop} (empty : p []) (each : ∀ line ∈ lines, p line) :
    ∀ line ∈ lines ++ [[]], p line := by
  intro line member
  rcases List.mem_append.mp member with sent | last
  · exact each line sent
  · rw [List.mem_singleton.mp last]
    exact empty

/-- The read loop of `handleData` in front of readable lines and the terminator. -/
theorem bodyLoop_stores_iff {message : Bytes} (readable : ∀ line ∈ lines, ReadableLine line)
    (memory : MemorySuffices c)
    (input : c.env.input = arriving (rawMessage (lines ++ [terminator])) ++ rest) :
    (bodyLoop cfg c).1 = .store message ∧ (bodyLoop cfg c).2.env.input = rest ↔
      (terminator ∉ lines ∧ bodySize lines ≤ cfg.maxMessageSize) ∧
        message = storedLines (lines.map unstuff) := by
  have enough : lines.length < c.env.input.length + 1 := by
    have counted := @length_le_rawMessage lines
    rw [input, rawMessage_append, arriving_append, List.length_append, List.length_append,
      arriving, List.length_map]
    omega
  have reading := @dataLoop_lines cfg (askedForBody c) [] 0 (c.env.input.length + 1) lines rest
    readable memory (Nat.zero_le _) (Nat.zero_le _) enough input
  rw [Nat.zero_add, List.nil_append] at reading
  unfold bodyLoop
  rcases reading with ⟨absent, size, d, stores, consumed⟩ | ⟨cause, d, returned | ⟨m, early, unread⟩⟩
  · rw [stores]
    simp only [DataExit.store.injEq, consumed, absent, size, not_false_iff, true_and, and_true]
    exact eq_comm
  · rw [returned]
    constructor
    · rintro ⟨stored, -⟩
      cases stored
    · rintro ⟨⟨absent, size⟩, -⟩
      rcases cause with present | large
      · exact absurd present absent
      · exact absurd size (Nat.not_le.mpr large)
  · rw [early]
    constructor
    · rintro ⟨-, consumed⟩
      exact absurd (congrArg List.length consumed) (Nat.ne_of_gt unread)
    · rintro ⟨⟨absent, size⟩, -⟩
      rcases cause with present | large
      · exact absurd present absent
      · exact absurd size (Nat.not_le.mpr large)

/-- Whatever the message of plain lines, and whatever comes behind it: what the client
    sends after the reply to `DATA` is stored as it was when no line begins with a dot,
    and the size limit leaves room for one more empty line. -/
theorem stored_as_sent_iff {net : Network} {mxHost sender recipient : Bytes}
    (asks : net.AsksForData) (plain : ∀ line ∈ lines, PlainLine line)
    (recipients : c.session.rcptTo ≠ []) (memory : MemorySuffices c)
    (input : c.env.input = arriving (sentAsData
      (connectAndDeliver net mxHost sender recipient (rawMessage lines)).2) ++ rest) :
    StoredAsSent cfg c lines rest ↔
      (∀ line ∈ lines, ¬ Dotted line) ∧ (rawMessage lines).length + 2 ≤ cfg.maxMessageSize := by
  rw [connectAndDeliver_sent asks, rawMessage_terminated] at input
  have handed : StoredAsSent cfg c lines rest ↔ ∃ message,
      ((bodyLoop cfg c).1 = .store message ∧ (bodyLoop cfg c).2.env.input = rest) ∧
        (message = storedLines lines ∨ message = storedLines (lines ++ [[]])) := by
    rw [StoredAsSent, handleData_unread recipients]
    constructor
    · rintro ⟨⟨session, msg, answer, stored, content⟩, consumed⟩
      have loop := (handleData_stores recipients memory).mp ⟨session, msg, answer, stored, rfl⟩
      exact ⟨msg.rawData, ⟨loop, consumed⟩, content⟩
    · rintro ⟨message, ⟨loop, consumed⟩, content⟩
      obtain ⟨session, msg, answer, stored, rfl⟩ := (handleData_stores recipients memory).mpr loop
      exact ⟨⟨session, msg, answer, stored, content⟩, consumed⟩
  have readable := forall_mem_withEmpty ⟨by decide, by decide, by decide⟩
    fun line member => (plain line member).readable
  have lf : ∀ line ∈ lines, Bytes.lf ∉ line := fun line member => (plain line member).lf
  simp only [handed, bodyLoop_stores_iff readable memory input]
  have sizes : (rawMessage (lines ++ [[]])).length = (rawMessage lines).length + 2 := by
    rw [rawMessage_append, List.length_append]
    rfl
  constructor
  · rintro ⟨_, ⟨⟨absent, size⟩, rfl⟩, content⟩
    have dots := (storedLines_unstuff_iff lf).mp content
    rw [bodySize_rawMessage (forall_mem_withEmpty (by decide) dots), sizes] at size
    exact ⟨dots, size⟩
  · rintro ⟨dots, size⟩
    have dots' : ∀ line ∈ lines ++ [[]], ¬ Dotted line := forall_mem_withEmpty (by decide) dots
    refine ⟨_, ⟨⟨fun ended => dots' _ ended rfl, ?_⟩, rfl⟩, (storedLines_unstuff_iff lf).mpr dots⟩
    rw [bodySize_rawMessage dots', sizes]
    exact size

end Agreement

theorem go_fits : (ascii "354 go").length ≤ bufferSize - 1 := by decide

theorem ok_fits : (ascii "250 ok").length ≤ bufferSize - 1 := by decide

/-- A server that asks for the message and accepts it. -/
def obliging : Network where
  resolves := true
  opens := true
  connects := true
  recvs i := if i = 4 then .bytes (ascii "354 go") go_fits else .bytes (ascii "250 ok") ok_fits
  uninitialized := []
  lengthError := []

theorem obliging_asksForData : obliging.AsksForData :=
  ⟨⟨rfl, rfl, rfl, by decide⟩, by decide, by decide, by decide, by decide⟩

/-- A session with a recipient, in front of what the client sends as a message. -/
def receiving (raw : Bytes) : Conn where
  session := { SmtpSession.fresh true 0 with state := .rcptTo, rcptTo := [ascii "bob"] }
  env :=
    { input := arriving (sentAsData
        (connectAndDeliver obliging (ascii "mx") (ascii "a@x") (ascii "b@y") raw).2) ++ [] }

theorem stored_as_sent_iff_hello :
    StoredAsSent { minTlsVersion := TLS1_2_VERSION } (receiving (rawMessage [ascii "hello"]))
        [ascii "hello"] [] ↔
      (∀ line ∈ [ascii "hello"], ¬ Dotted line) ∧
        (rawMessage [ascii "hello"]).length + 2 ≤ 10485760 :=
  stored_as_sent_iff obliging_asksForData
    (List.forall_mem_singleton.mpr ⟨by decide, by decide, by decide⟩) (by decide)
    (fun _ member => absurd member List.not_mem_nil) rfl

/-- `.hello` is sent and `hello` stored. -/
theorem leading_dot_lost : obliging.AsksForData ∧ PlainLine (ascii ".hello") ∧
    (receiving (rawMessage [ascii ".hello"])).session.rcptTo ≠ [] ∧
    (bodyLoop { minTlsVersion := TLS1_2_VERSION } (receiving (rawMessage [ascii ".hello"]))).1 =
      .store (ascii "hello\n\n") ∧
    ¬ StoredAsSent { minTlsVersion := TLS1_2_VERSION } (receiving (rawMessage [ascii ".hello"]))
      [ascii ".hello"] [] := by
  have stored : (bodyLoop { minTlsVersion := TLS1_2_VERSION }
      (receiving (rawMessage [ascii ".hello"]))).1 = .store (ascii "hello\n\n") := by decide
  refine ⟨obliging_asksForData, ⟨by decide, by decide, by decide⟩, by decide, stored, ?_⟩
  rintro ⟨⟨session, msg, answer, member, content⟩, -⟩
  have loop := (handleData_stores (by decide) (fun _ there => absurd there List.not_mem_nil)).mp ⟨session, msg, answer, member, rfl⟩
  rw [← DataExit.store.inj (stored.symm.trans loop)] at content
  exact absurd content (by decide)

end EmailServer.Delivery
