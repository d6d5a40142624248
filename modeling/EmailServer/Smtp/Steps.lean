import EmailServer.Smtp.Commands

/-! # What a command can do

Every command leaves a trail of events. Only `DATA`, and only when it gets as
far as asking for a body, can reach the mail store; it then stores one message,
built from the session as it was when the command came in.
-/

namespace EmailServer.Smtp

open Storage (StoredMessage)

/-- The log of `c'` continues that of `c` with events that satisfy `P`. -/
def Logs (P : Event → Prop) (c c' : Conn) : Prop :=
  ∃ new, c'.env.log = new ++ c.env.log ∧ ∀ e ∈ new, P e

namespace Logs

variable {P Q : Event → Prop} {a b c : Conn}

theorem refl (c : Conn) : Logs P c c := ⟨[], rfl, by simp⟩

theorem of_eq (same : b.env.log = a.env.log) : Logs P a b := ⟨[], same, by simp⟩

theorem trans (first : Logs P a b) (second : Logs P b c) : Logs P a c := by
  obtain ⟨new, log, each⟩ := first
  obtain ⟨new', log', each'⟩ := second
  refine ⟨new' ++ new, by rw [log', log, List.append_assoc], ?_⟩
  intro e member
  exact (List.mem_append.mp member).elim (each' e) (each e)

theorem record {event : Event} (first : Logs P a b) (holds : P event) :
    Logs P a (b.record event) := by
  obtain ⟨new, log, each⟩ := first
  refine ⟨event :: new, by simp [Conn.record, log], ?_⟩
  intro e member
  rcases List.mem_cons.mp member with rfl | old
  · exact holds
  · exact each e old

theorem mono (first : Logs P a b) (weaken : ∀ e, P e → Q e) : Logs Q a b := by
  obtain ⟨new, log, each⟩ := first
  exact ⟨new, log, fun e member => weaken e (each e member)⟩

end Logs

/-- The events between two connections. -/
def since (c c' : Conn) : List Event := c'.env.log.take (c'.env.log.length - c.env.log.length)

theorem since_eq {c c' : Conn} {new : List Event} (log : c'.env.log = new ++ c.env.log) :
    since c c' = new := by
  simp [since, log]

namespace Conn

variable (c : Conn) (event : Event) (line : Bytes)

@[simp] theorem record_session : (c.record event).session = c.session := rfl
@[simp] theorem record_input : (c.record event).env.input = c.env.input := rfl
@[simp] theorem record_appends : (c.record event).env.appends = c.env.appends := rfl
@[simp] theorem record_log : (c.record event).env.log = event :: c.env.log := rfl
@[simp] theorem sendLine_session : (c.sendLine line).session = c.session := rfl
@[simp] theorem sendLine_input : (c.sendLine line).env.input = c.env.input := rfl
@[simp] theorem sendLine_log : (c.sendLine line).env.log = .reply line :: c.env.log := rfl

end Conn

/-! ## Reading -/

theorem readFrom_suffix (errors : Nat) (out : Bytes) (input : List Recv) :
    (readFrom errors out input).2 <:+ input := by
  induction input generalizing errors out with
  | nil => exact List.suffix_rfl
  | cons r rest ih =>
      cases r with
      | closed | threw | escaped => exact List.suffix_cons _ _
      | failed =>
          simp only [readFrom]
          split
          · exact List.suffix_cons _ _
          · exact (ih _ _).trans (List.suffix_cons _ _)
      | byte b =>
          simp only [readFrom]
          split
          · exact (ih _ _).trans (List.suffix_cons _ _)
          split
          · exact List.suffix_cons _ _
          split
          · exact List.suffix_cons _ _
          · exact (ih _ _).trans (List.suffix_cons _ _)

theorem readFrom_shorter {errors : Nat} {out line : Bytes} {input rest : List Recv}
    (read : readFrom errors out input = (.line line, rest)) : rest.length < input.length := by
  induction input generalizing errors out with
  | nil => cases read
  | cons r tail ih =>
      rw [List.length_cons]
      cases r with
      | closed | threw | escaped => cases read
      | failed =>
          simp only [readFrom] at read
          split at read
          · cases read
          · exact Nat.lt_succ_of_lt (ih read)
      | byte b =>
          simp only [readFrom] at read
          split at read
          · exact Nat.lt_succ_of_lt (ih read)
          split at read
          · cases read
            exact Nat.lt_succ_self _
          split at read
          · cases read
          · exact Nat.lt_succ_of_lt (ih read)

/-- Events while a body is read. -/
def Event.receiving : Event → Prop
  | .reply line => line ≠ accepted
  | .bodyLine _ => True
  | _ => False

/-- From `c` to `c'` a body may have been read, and nothing else. -/
structure Receives (c c' : Conn) : Prop where
  session : c'.session = c.session
  log : Logs Event.receiving c c'
  input : c'.env.input <:+ c.env.input
  stores : c'.env.stores = c.env.stores
  appends : c'.env.appends <:+ c.env.appends

namespace Receives

variable {a b c : Conn}

theorem refl (c : Conn) : Receives c c :=
  ⟨rfl, .refl c, List.suffix_rfl, rfl, List.suffix_rfl⟩

theorem trans (first : Receives a b) (second : Receives b c) : Receives a c :=
  ⟨second.session.trans first.session, first.log.trans second.log,
    second.input.trans first.input, second.stores.trans first.stores,
    second.appends.trans first.appends⟩

theorem record {event : Event} (first : Receives a b) (receiving : event.receiving) :
    Receives a (b.record event) :=
  ⟨first.session, first.log.record receiving, first.input, first.stores, first.appends⟩

theorem reply {line : Bytes} (first : Receives a b) (other : line ≠ accepted) :
    Receives a (b.sendLine line) := first.record other

end Receives

theorem readLine_receives (c : Conn) : Receives c (readLine c).2 := by
  have suffix := readFrom_suffix 0 [] c.env.input
  unfold readLine
  generalize readFrom 0 [] c.env.input = read at suffix
  obtain ⟨result, rest⟩ := read
  cases result with
  | line | closed | tooManyErrors | threw | escaped =>
      exact ⟨rfl, .refl c, suffix, rfl, List.suffix_rfl⟩
  | tooLong =>
      exact ⟨rfl, (Logs.of_eq rfl).record (show _ ≠ accepted by decide), suffix, rfl,
        List.suffix_rfl⟩

theorem nextAppend_receives (c : Conn) : Receives c (nextAppend c).2 :=
  ⟨rfl, .of_eq rfl, List.suffix_rfl, rfl, List.tail_suffix _⟩

theorem dataLoop_receives (cfg : Config) (fuel : Nat) (message : Message) (messageSize : Nat)
    (c : Conn) : Receives c (dataLoop cfg fuel message messageSize c).2 := by
  induction fuel generalizing message messageSize c with
  | zero => exact .refl c
  | succ fuel ih =>
      unfold dataLoop
      have reading := readLine_receives c
      generalize readLine c = read at reading
      obtain ⟨line, c'⟩ := read
      cases line with
      | failed | escaped => exact reading
      | line line =>
      have delivered : Receives c (c'.record (.bodyLine line)) := reading.record trivial
      have taken := delivered.trans (nextAppend_receives _)
      dsimp only
      split
      · exact delivered
      split
      · exact delivered.reply (by decide)
      generalize nextAppend (c'.record (.bodyLine line)) = next at taken
      obtain ⟨answer, d⟩ := next
      cases answer with
      | copyFailed => exact taken
      | done | lost =>
          dsimp only
          split
          · exact taken.reply (by decide)
          · exact taken.trans (ih _ _ _)

/-! ## The fuel suffices -/

theorem readLine_line {c c' : Conn} {line : Bytes} (read : readLine c = (.line line, c')) :
    readFrom 0 [] c.env.input = (.line line, c'.env.input) ∧
      c' = { c with env := { c.env with input := c'.env.input } } := by
  unfold readLine at read
  cases result : readFrom 0 [] c.env.input with
  | mk ended rest =>
    rw [result] at read
    cases ended with
    | line out =>
        cases read
        exact ⟨rfl, rfl⟩
    | closed | tooManyErrors | threw | tooLong | escaped => cases read

theorem readLine_shorter {c c' : Conn} {line : Bytes} (read : readLine c = (.line line, c')) :
    c'.env.input.length < c.env.input.length := readFrom_shorter (readLine_line read).1

theorem readLine_quiet {c c' : Conn} {line : Bytes} (read : readLine c = (.line line, c')) :
    c'.env.log = c.env.log := by
  rw [(readLine_line read).2]

/-- With more fuel than input, the read loop of `handleData` never runs dry. -/
theorem dataLoop_fuel (cfg : Config) {fuel : Nat} {c : Conn} (enough : c.env.input.length < fuel)
    (message : Message) (messageSize : Nat) :
    dataLoop cfg (fuel + 1) message messageSize c = dataLoop cfg fuel message messageSize c := by
  induction fuel generalizing message messageSize c with
  | zero => exact absurd enough (Nat.not_lt_zero _)
  | succ fuel ih =>
      rw [dataLoop, dataLoop]
      cases read : readLine c with
      | mk result c' =>
      cases result with
      | failed | escaped => rfl
      | line line =>
      have shorter := readLine_shorter read
      have again : ∀ (d : Conn), d.env.input = c'.env.input → ∀ message messageSize,
          dataLoop cfg (fuel + 1) message messageSize d = dataLoop cfg fuel message messageSize d :=
        fun d same => ih (by rw [same]; omega)
      dsimp only
      split
      · rfl
      split
      · rfl
      have still : (nextAppend (c'.record (.bodyLine line))).2.env.input = c'.env.input := rfl
      generalize nextAppend (c'.record (.bodyLine line)) = next at still
      obtain ⟨answer, d⟩ := next
      cases answer with
      | copyFailed => rfl
      | done | lost =>
          dsimp only
          rw [again d still]

/-! ## Storing -/

/-- Events below the read loop. -/
def Event.storing : Event → Prop
  | .reply line => line = accepted ∨ line = storageError
  | .store _ _ _ => True
  | _ => False

/-- From `c` to the end of a command there are only replies, and whether they
    accept the message is `accepts`. -/
structure Replies (accepts : Prop) (c : Conn) (ended : Ended) : Prop where
  session : ended.conn.session = c.session
  input : ended.conn.env.input = c.env.input
  stores : ended.conn.env.stores = c.env.stores
  appends : ended.conn.env.appends <:+ c.env.appends
  logs : Logs Event.storing c ended.conn
  exists_replies : ∃ replies : List Bytes,
    ended.conn.env.log = replies.map .reply ++ c.env.log ∧ (accepted ∈ replies ↔ accepts)

theorem Replies.after {accepts : Prop} {c d : Conn} {ended : Ended} (later : Replies False d ended)
    (replies : List Bytes) (session : d.session = c.session) (input : d.env.input = c.env.input)
    (stores : d.env.stores = c.env.stores) (appends : d.env.appends <:+ c.env.appends)
    (log : d.env.log = replies.map .reply ++ c.env.log) (each : ∀ line ∈ replies, line = accepted)
    (here : accepted ∈ replies ↔ accepts) : Replies accepts c ended := by
  obtain ⟨more, whole, never⟩ := later.exists_replies
  refine ⟨later.session.trans session, later.input.trans input, later.stores.trans stores,
    later.appends.trans appends, ?_, more ++ replies, ?_, ?_⟩
  · refine Logs.trans ⟨_, log, fun e member => ?_⟩ later.logs
    obtain ⟨line, sent, rfl⟩ := List.mem_map.mp member
    exact .inl (each line sent)
  · rw [whole, log, List.map_append, List.append_assoc]
  · rw [List.mem_append, never, false_or, here]

theorem Replies.before {c d : Conn} {ended : Ended} (later : Replies False d ended)
    (session : d.session = c.session) (input : d.env.input = c.env.input)
    (stores : d.env.stores = c.env.stores) (appends : d.env.appends <:+ c.env.appends)
    (log : d.env.log = c.env.log) : Replies False c ended :=
  later.after [] session input stores appends log (by simp) (by simp)

theorem storageError_other : accepted ≠ storageError := by decide

theorem storageFailed_replies (c : Conn) : Replies False c (storageFailed c) := by
  unfold storageFailed
  cases throws : nextLog c with
  | mk answer d =>
  obtain ⟨-, rfl⟩ := Prod.mk.inj throws
  cases answer with
  | true => exact ⟨rfl, rfl, rfl, List.suffix_rfl, .of_eq rfl, [], rfl, by simp⟩
  | false =>
      exact ⟨rfl, rfl, rfl, List.suffix_rfl, (Logs.of_eq rfl).record (.inr rfl), [storageError], rfl,
        by simp [storageError_other]⟩

/-- There is memory for the copy that goes to the store. -/
def CopySucceeds (c : Conn) : Prop := c.env.appends.headD .done ≠ .copyFailed

instance (c : Conn) : Decidable (CopySucceeds c) := inferInstanceAs (Decidable (_ ≠ _))

/-- The store's answer is recorded with the call. -/
def storeAsked (message : Bytes) (c : Conn) : Conn :=
  { c with env :=
    { c.env with
      appends := c.env.appends.tail
      stores := c.env.stores.tail
      log := .store c.session (messageOf c.session message) (c.env.stores.headD none) :: c.env.log } }

theorem storeMessage_goes {c : Conn} (message : Bytes) (copy : CopySucceeds c) :
    storeMessage message c = match c.env.stores.headD none with
      | none => storageFailed (storeAsked message c)
      | some [] =>
          match nextLog (storeAsked message c) with
          | (true, c) => storageFailed c
          | (false, c) => .ok (c.sendLine storageError)
      | some _ =>
          match nextLog ((storeAsked message c).sendLine accepted) with
          | (true, c) => storageFailed c
          | (false, c) => .ok c := by
  unfold storeMessage nextAppend
  cases answer : c.env.appends.headD .done with
  | copyFailed => exact absurd answer copy
  | done | lost => rfl

theorem storeMessage_copyFails {c : Conn} (message : Bytes) (copy : ¬ CopySucceeds c) :
    storeMessage message c = storageFailed (nextAppend c).2 := by
  have failed : c.env.appends.headD .done = .copyFailed := by simpa [CopySucceeds] using copy
  unfold storeMessage nextAppend
  rw [failed]

theorem storeMessage_asked {c : Conn} (message : Bytes) (copy : CopySucceeds c) :
    Replies (∃ id, c.env.stores.headD none = some id ∧ id ≠ []) (storeAsked message c)
      (storeMessage message c) := by
  rw [storeMessage_goes message copy]
  have unaccepted : ∀ {d ended}, Replies False d ended →
      ∀ {id : Option Bytes}, (id = none ∨ id = some []) →
        Replies (∃ written, id = some written ∧ written ≠ []) d ended := by
    rintro d ended replies id (rfl | rfl)
    · simpa using replies
    · simpa using replies
  cases c.env.stores.headD none with
  | none => exact unaccepted (storageFailed_replies _) (.inl rfl)
  | some id =>
  cases id with
  | nil =>
      apply unaccepted _ (.inr rfl)
      cases throws : nextLog (storeAsked message c) with
      | mk answer d =>
      obtain ⟨-, rfl⟩ := Prod.mk.inj throws
      cases answer with
      | true => exact (storageFailed_replies _).before rfl rfl rfl List.suffix_rfl rfl
      | false =>
          exact ⟨rfl, rfl, rfl, List.suffix_rfl, (Logs.of_eq rfl).record (.inr rfl),
            [storageError], rfl, by simp [storageError_other]⟩
  | cons b id =>
      cases throws : nextLog ((storeAsked message c).sendLine accepted) with
      | mk answer d =>
      obtain ⟨-, rfl⟩ := Prod.mk.inj throws
      cases answer with
      | true =>
          exact (storageFailed_replies _).after [accepted] rfl rfl rfl List.suffix_rfl rfl (by simp)
            (by simp)
      | false =>
          exact ⟨rfl, rfl, rfl, List.suffix_rfl, (Logs.of_eq rfl).record (.inl rfl), [accepted], rfl,
            by simp⟩

theorem storeMessage_unasked {c : Conn} (message : Bytes) (copy : ¬ CopySucceeds c) :
    Replies False c (storeMessage message c) := by
  rw [storeMessage_copyFails message copy]
  exact (storageFailed_replies _).before rfl rfl rfl (List.tail_suffix _) rfl

theorem storeMessage_session (message : Bytes) (c : Conn) :
    (storeMessage message c).conn.session = c.session := by
  by_cases copy : CopySucceeds c
  · exact (storeMessage_asked message copy).session
  · exact (storeMessage_unasked message copy).session

theorem storeMessage_input (message : Bytes) (c : Conn) :
    (storeMessage message c).conn.env.input = c.env.input := by
  by_cases copy : CopySucceeds c
  · exact (storeMessage_asked message copy).input
  · exact (storeMessage_unasked message copy).input

theorem storeMessage_logs (message : Bytes) (c : Conn) :
    Logs Event.storing c (storeMessage message c).conn := by
  by_cases copy : CopySucceeds c
  · have call : Logs Event.storing c (storeAsked message c) :=
      ⟨[.store c.session (messageOf c.session message) (c.env.stores.headD none)], rfl,
        List.forall_mem_singleton.mpr trivial⟩
    exact call.trans (storeMessage_asked message copy).logs
  · exact (storeMessage_unasked message copy).logs

/-- `DATA` gets as far as asking for a body. -/
structure EntersData (cfg : Config) (line : Bytes) (c : Conn) : Prop where
  verb : commandVerb line = .data
  state : c.session.state = .rcptTo
  tls : c.session.tlsRequiredAndMissing cfg = false
  recipients : c.session.rcptTo ≠ []

instance (cfg : Config) (line : Bytes) (c : Conn) : Decidable (EntersData cfg line c) :=
  decidable_of_iff
    (commandVerb line = .data ∧ c.session.state = .rcptTo ∧
      c.session.tlsRequiredAndMissing cfg = false ∧ c.session.rcptTo ≠ [])
    ⟨fun ⟨verb, state, tls, recipients⟩ => ⟨verb, state, tls, recipients⟩,
      fun h => ⟨h.verb, h.state, h.tls, h.recipients⟩⟩

/-- What `handleCommand` does after `handleData`. -/
def afterData (c : Conn) : Conn :=
  { c with session := { c.session with state := .mailFrom, mailFrom := [], rcptTo := [] } }

/-- A body has been asked for. -/
def askedForBody (c : Conn) : Conn :=
  (c.sendLine (ascii "354 End data with <CR><LF>.<CR><LF>")).record (.body c.env.input)

/-- The read loop as `handleData` starts it. -/
def bodyLoop (cfg : Config) (c : Conn) : DataExit × Conn :=
  dataLoop cfg (c.env.input.length + 1) {} 0 (askedForBody c)

/-- Where the read loop comes to decides how `DATA` goes on. -/
theorem handleData_loop (cfg : Config) {c : Conn} (recipients : c.session.rcptTo ≠ []) :
    handleData cfg c =
      match bodyLoop cfg c with
      | (.store message, c) => storeMessage message c
      | (.returned, c) => .ok c
      | (.threw, c) => .error c := by
  rw [handleData, if_neg recipients]
  rfl

theorem Receives.replies {a b : Conn} {ended : Ended} (first : Receives a b)
    (more : Replies False b ended) : Receives a ended.conn := by
  obtain ⟨replies, log, never⟩ := more.exists_replies
  refine first.trans ⟨more.session, ⟨replies.map .reply, log, ?_⟩, ?_, more.stores, more.appends⟩
  · intro e member
    obtain ⟨line, sent, rfl⟩ := List.mem_map.mp member
    exact fun same => never.mp (same ▸ sent)
  · rw [more.input]

theorem handleData_cases (cfg : Config) {c : Conn} (recipients : c.session.rcptTo ≠ []) :
    Receives (askedForBody c) (handleData cfg c).conn ∨
      ∃ message mid, Receives (askedForBody c) mid ∧ CopySucceeds mid ∧
        handleData cfg c = storeMessage message mid := by
  have received : Receives (askedForBody c) (bodyLoop cfg c).2 := dataLoop_receives ..
  rw [handleData_loop cfg recipients]
  generalize bodyLoop cfg c = ended at received
  obtain ⟨exit, mid⟩ := ended
  cases exit with
  | store message =>
      by_cases copy : CopySucceeds mid
      · exact .inr ⟨message, mid, received, copy, rfl⟩
      · exact .inl (received.replies (storeMessage_unasked message copy))
  | returned | threw => exact .inl received

/-- The events of asking for a body. -/
def asking (c : Conn) : List Event :=
  [.body c.env.input, .reply (ascii "354 End data with <CR><LF>.<CR><LF>")]

theorem askedForBody_log (c : Conn) : (askedForBody c).env.log = asking c ++ c.env.log := rfl

theorem asking_mem {c : Conn} {e : Event} (member : e ∈ asking c) :
    e.receiving ∨ e = .body c.env.input := by
  rcases List.mem_cons.mp member with rfl | question
  · exact .inr rfl
  · rw [List.mem_singleton.mp question]
    exact .inl (show _ ≠ accepted by decide)

theorem since_received {c mid : Conn} {new : List Event}
    (log : mid.env.log = new ++ (askedForBody c).env.log) : since c mid = new ++ asking c :=
  since_eq (by rw [log, askedForBody_log, List.append_assoc])

theorem since_stored {c mid : Conn} {new : List Event} (message : Bytes) (copy : CopySucceeds mid)
    (log : mid.env.log = new ++ (askedForBody c).env.log) :
    ∃ answer, ∃ replies : List Bytes, since c (storeMessage message mid).conn =
        replies.map .reply ++ .store mid.session (messageOf mid.session message) answer ::
          (new ++ asking c) ∧
      (accepted ∈ replies ↔ ∃ id, answer = some id ∧ id ≠ []) := by
  obtain ⟨replies, whole, accepts⟩ := (storeMessage_asked message copy).exists_replies
  refine ⟨mid.env.stores.headD none, replies, since_eq ?_, accepts⟩
  rw [whole, storeAsked, log, askedForBody_log]
  simp

/-- The events of `DATA`: it asks for a body, receives it, and perhaps stores a
    message and answers with what the store says. -/
theorem handleData_events (cfg : Config) {c : Conn} (recipients : c.session.rcptTo ≠ []) :
    ∃ new, (∀ e ∈ new, e.receiving ∨ e = .body c.env.input) ∧
      ((handleData cfg c).conn.env.log = new ++ c.env.log ∨
        ∃ message answer, ∃ replies : List Bytes, (handleData cfg c).conn.env.log =
          (replies.map .reply ++ .store c.session (messageOf c.session message) answer :: new) ++
            c.env.log ∧
          (accepted ∈ replies ↔ ∃ id, answer = some id ∧ id ≠ [])) := by
  have each : ∀ new, (∀ e ∈ new, e.receiving) →
      ∀ e ∈ new ++ asking c, e.receiving ∨ e = .body c.env.input := by
    intro new each e member
    exact (List.mem_append.mp member).elim (fun there => .inl (each e there)) asking_mem
  rcases handleData_cases cfg recipients with received | ⟨message, mid, received, copy, same⟩
  · obtain ⟨new, log, receiving⟩ := received.log
    refine ⟨new ++ asking c, each new receiving, .inl ?_⟩
    rw [log, askedForBody_log, List.append_assoc]
  · obtain ⟨new, log, receiving⟩ := received.log
    obtain ⟨replies, whole, accepts⟩ := (storeMessage_asked message copy).exists_replies
    have session : mid.session = c.session := received.session
    rw [storeAsked, session, log, askedForBody_log] at whole
    refine ⟨new ++ asking c, each new receiving,
      .inr ⟨message, mid.env.stores.headD none, replies, ?_, accepts⟩⟩
    rw [same, whole]
    simp

/-- Events of a `DATA` that gets as far as asking for a body. -/
def Event.ofData (c : Conn) : Event → Prop
  | .reply _ | .bodyLine _ => True
  | .body unread => unread = c.env.input
  | .store session msg _ => session = c.session ∧ ∃ message, msg = messageOf c.session message
  | .authenticate _ | .command _ _ | .socketClosed => False

theorem handleData_logs (cfg : Config) {c : Conn} (recipients : c.session.rcptTo ≠ []) :
    Logs (Event.ofData c) c (handleData cfg c).conn := by
  obtain ⟨new, each, log⟩ := handleData_events cfg recipients
  have asks : ∀ e ∈ new, e.ofData c := by
    intro e member
    rcases each e member with received | rfl
    · cases e with
      | reply | bodyLine => trivial
      | body | store | authenticate | command | socketClosed => exact absurd received id
    · rfl
  rcases log with log | ⟨message, answer, replies, log, -⟩
  · exact ⟨new, log, asks⟩
  · refine ⟨_, log, fun e member => ?_⟩
    rcases List.mem_append.mp member with sent | member
    · obtain ⟨line, -, rfl⟩ := List.mem_map.mp sent
      trivial
    rcases List.mem_cons.mp member with rfl | member
    · exact ⟨rfl, message, rfl⟩
    · exact asks e member

theorem handleData_refused (cfg : Config) {c : Conn} (recipients : c.session.rcptTo = []) :
    since c (handleData cfg c).conn = [.reply (ascii "503 No recipients specified")] := by
  rw [handleData, if_pos recipients]
  exact since_eq rfl

/-- `DATA` is answered with the acceptance only after the store has returned an
    identifier for the message. -/
theorem handleData_accepted {cfg : Config} {c : Conn}
    (answered : .reply accepted ∈ since c (handleData cfg c).conn) :
    ∃ message id, id ≠ [] ∧ .store c.session (messageOf c.session message) (some id) ∈
      since c (handleData cfg c).conn := by
  by_cases recipients : c.session.rcptTo = []
  · rw [handleData_refused cfg recipients] at answered
    exact absurd answered (by decide)
  obtain ⟨new, each, events⟩ := handleData_events cfg recipients
  have unanswered : .reply accepted ∉ new := by
    intro member
    rcases each _ member with received | body
    · exact received rfl
    · cases body
  rcases events with events | ⟨message, answer, replies, events, accepts⟩
  · rw [since_eq events] at answered
    exact absurd answered unanswered
  · rw [since_eq events] at answered ⊢
    have sent : accepted ∈ replies := by simpa [unanswered] using answered
    obtain ⟨id, rfl, nonempty⟩ := accepts.mp sent
    exact ⟨message, id, nonempty, List.mem_append_right _ (.head _)⟩

theorem handleData_session (cfg : Config) (c : Conn) :
    (handleData cfg c).conn.session = c.session := by
  by_cases recipients : c.session.rcptTo = []
  · simp [handleData, recipients, Ended.conn]
  · rcases handleData_cases cfg recipients with received | ⟨message, mid, received, -, same⟩
    · exact received.session
    · rw [same]
      exact (storeMessage_session message mid).trans received.session

/-- Events of the commands that transfer no message. -/
def Event.aside : Event → Prop
  | .reply _ | .authenticate _ | .socketClosed => True
  | _ => False

/-- From `c` to `c'` only such events happened, and nothing was read. -/
structure Aside (c c' : Conn) : Prop where
  log : Logs Event.aside c c'
  input : c'.env.input = c.env.input

namespace Aside

variable {a b : Conn}

theorem refl (c : Conn) : Aside c c := ⟨.refl c, rfl⟩

theorem record (first : Aside a b) (event : Event) (aside : event.aside) :
    Aside a (b.record event) := ⟨first.log.record aside, first.input⟩

theorem reply (first : Aside a b) (line : Bytes) : Aside a (b.sendLine line) :=
  first.record (.reply line) trivial

theorem session (first : Aside a b) (s : SmtpSession) : Aside a { b with session := s } :=
  ⟨first.log, first.input⟩

theorem closeSocket (first : Aside a b) : Aside a b.closeSocket :=
  (first.session _).record .socketClosed trivial

theorem multiline (first : Aside a b) (lines : List Bytes) :
    Aside a (b.sendMultilineResponse lines) := by
  induction lines generalizing b with
  | nil => exact first
  | cons line rest ih =>
      cases rest with
      | nil => exact first.reply line
      | cons => exact ih (first.reply _)

end Aside

theorem handleStarttls_aside (cfg : Config) (c : Conn) : Aside c (handleStarttls cfg c) := by
  have ready := (Aside.refl c).reply (ascii "220 Ready to start TLS")
  have asked : Aside c { c.sendLine (ascii "220 Ready to start TLS") with
      env := { (c.sendLine (ascii "220 Ready to start TLS")).env with
        handshakes := c.env.handshakes.tail } } := ⟨ready.log, ready.input⟩
  unfold handleStarttls
  split
  · exact (Aside.refl c).reply _
  dsimp only
  split
  · exact (asked.reply _).closeSocket
  · exact (asked.reply _).closeSocket
  · exact (asked.reply _).closeSocket
  · split
    · exact (asked.reply _).closeSocket
    · exact asked.session _

theorem handleAuth_aside (args : Bytes) (c : Conn) : Aside c (handleAuth args c) := by
  have asked := (Aside.refl c).record (.authenticate args) trivial
  have answered : ∀ s auths, Aside c
      { session := s
        env := { (c.record (.authenticate args)).env with auths := auths } } :=
    fun _ _ => ⟨asked.log, asked.input⟩
  unfold handleAuth
  split
  · exact (Aside.refl c).reply _
  dsimp only
  split <;> exact (answered _ _).reply _

/-- `DATA` that asks for a body hands over to `handleData`; every other command
    ends normally and stays aside. -/
theorem handleCommand_cases (cfg : Config) (line : Bytes) (c : Conn) :
    (EntersData cfg line c ∧ handleCommand cfg line c = (handleData cfg c).map afterData) ∨
      (¬ EntersData cfg line c ∧ ∃ c', handleCommand cfg line c = .ok c' ∧ Aside c c') := by
  have still := Aside.refl c
  by_cases enters : EntersData cfg line c
  · refine .inl ⟨enters, ?_⟩
    simp only [handleCommand, enters.verb, enters.state, enters.tls, ne_eq, not_true, if_false,
      Bool.false_eq_true]
    rfl
  refine .inr ⟨enters, ?_⟩
  unfold handleCommand
  cases verb : commandVerb line with
  | ehlo => exact ⟨_, rfl, ((still.session _).multiline _).session _⟩
  | helo => exact ⟨_, rfl, ((still.session _).reply _).session _⟩
  | starttls =>
      dsimp only
      split
      · exact ⟨_, rfl, still.reply _⟩
      · exact ⟨_, rfl, handleStarttls_aside cfg c⟩
  | auth =>
      dsimp only
      split
      · exact ⟨_, rfl, still.reply _⟩
      split
      · exact ⟨_, rfl, still.reply _⟩
      · have asked := handleAuth_aside (splitCommand line).2 c
        refine ⟨_, rfl, ?_⟩
        split
        · exact asked.session _
        · exact asked
  | mail =>
      dsimp only
      split
      · exact ⟨_, rfl, still.reply _⟩
      split
      · exact ⟨_, rfl, still.reply _⟩
      split
      · exact ⟨_, rfl, still.reply _⟩
      · exact ⟨_, rfl, ((still.session _).reply _).session _⟩
  | rcpt =>
      dsimp only
      split
      · exact ⟨_, rfl, still.reply _⟩
      split
      · exact ⟨_, rfl, still.reply _⟩
      · exact ⟨_, rfl, ((still.session _).reply _).session _⟩
  | data =>
      dsimp only
      split
      · exact ⟨_, rfl, still.reply _⟩
      split
      · exact ⟨_, rfl, still.reply _⟩
      · rename_i state tls
        -- only an empty list of recipients is left
        have none : c.session.rcptTo = [] := by
          by_contra some
          exact enters ⟨verb, not_not.mp state, by simpa using tls, some⟩
        refine ⟨afterData (c.sendLine (ascii "503 No recipients specified")), ?_, ?_⟩
        · simp only [handleData, none, if_true]
          rfl
        · exact (still.reply _).session _
  | quit => exact ⟨_, rfl, (still.reply _).closeSocket⟩
  | rset => exact ⟨_, rfl, (still.session _).reply _⟩
  | noop => exact ⟨_, rfl, still.reply _⟩
  | unknown => exact ⟨_, rfl, still.reply _⟩

@[simp] theorem afterData_env (ended : Ended) :
    (Ended.conn (ended.map afterData)).env = ended.conn.env := by
  cases ended <;> rfl

theorem handleData_input (cfg : Config) (c : Conn) :
    (handleData cfg c).conn.env.input <:+ c.env.input := by
  by_cases recipients : c.session.rcptTo = []
  · simp [handleData, recipients, Ended.conn]
  · rcases handleData_cases cfg recipients with received | ⟨message, mid, received, -, same⟩
    · exact received.input
    · rw [same, storeMessage_input]
      exact received.input

theorem handleCommand_input (cfg : Config) (line : Bytes) (c : Conn) :
    (isolate (handleCommand cfg line c)).env.input <:+ c.env.input := by
  rcases handleCommand_cases cfg line c with ⟨-, same⟩ | ⟨-, c', same, aside⟩
  · have read := handleData_input cfg c
    rw [same]
    cases handled : handleData cfg c with
    | ok d | error d =>
        rw [handled] at read
        exact read
  · rw [same, isolate, aside.input]

/-- What a command stores, it stores for the session it found, and it has asked
    for a body. -/
theorem handleCommand_stores {cfg : Config} {line : Bytes} {c : Conn} {session : SmtpSession}
    {msg : StoredMessage} {answer : Option Bytes}
    (stored : .store session msg answer ∈ (handleCommand cfg line c).conn.env.log) :
    .store session msg answer ∈ c.env.log ∨
      (EntersData cfg line c ∧ session = c.session ∧ ∃ message, msg = messageOf c.session message) := by
  rcases handleCommand_cases cfg line c with ⟨enters, same⟩ | ⟨-, c', same, aside⟩
  · rw [same, afterData_env] at stored
    obtain ⟨new, log, each⟩ := handleData_logs cfg enters.recipients
    rw [log] at stored
    rcases List.mem_append.mp stored with now | before
    · exact .inr ⟨enters, each _ now⟩
    · exact .inl before
  · rw [same] at stored
    obtain ⟨new, log, each⟩ := aside.log
    have stored : Event.store session msg answer ∈ c'.env.log := stored
    rw [log] at stored
    exact .inl ((List.mem_append.mp stored).resolve_left (each _))

end EmailServer.Smtp
