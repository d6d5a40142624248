import EmailServer.Delivery.Transfer

/-! # Messages with stuffed dots

A client that puts a dot in front of each line that begins with one is read as it
means: `handleData` stores the lines as they were, whatever comes behind them.
-/

namespace EmailServer.Delivery

open Smtp

/-- Prepend a dot to a line that begins with one. -/
def stuff (line : Bytes) : Bytes := if Dotted line then Bytes.dot :: line else line

theorem unstuff_stuff (line : Bytes) : unstuff (stuff line) = line := by
  unfold stuff
  split
  · rfl
  · rename_i dots
    exact if_neg dots

theorem stuff_ne_terminator (line : Bytes) : stuff line ≠ terminator := by
  intro ends
  have same := unstuff_stuff line
  rw [ends] at same
  subst same
  exact absurd ends (by decide)

theorem map_unstuff_stuff (lines : List Bytes) : (lines.map stuff).map unstuff = lines := by
  rw [List.map_map]
  have same : ∀ line ∈ lines, (unstuff ∘ stuff) line = id line := fun line _ => unstuff_stuff line
  rw [List.map_congr_left same, List.map_id]

theorem bodySize_stuffed (lines : List Bytes) :
    bodySize (lines.map stuff) = (lines.map fun line => line.length + 2).sum := by
  rw [bodySize, List.map_map]
  congr 1
  refine List.map_congr_left fun line _ => ?_
  rw [Function.comp_apply, unstuff_stuff]

/-- The replies by which the read loop gives a message up for its size. -/
def Oversize : Event → Prop
  | .reply line => line = ascii "552 Message size exceeds maximum permitted" ∨
      line = ascii "451 Internal error - message too complex"
  | _ => False

instance (line : Bytes) : Decidable (Oversize (.reply line)) := inferInstanceAs (Decidable (_ ∨ _))

theorem storeMessage_within (message : Bytes) (c : Conn) :
    Logs (¬ Oversize ·) c (storeMessage message c).conn := by
  have failed : ¬ Oversize (.reply storageError) := by decide +kernel
  have stored : ¬ Oversize (.reply accepted) := by decide +kernel
  refine (storeMessage_logs message c).mono fun e storing => ?_
  cases e with
  | reply line =>
      rcases storing with rfl | rfl
      · exact stored
      · exact failed
  | store => exact id
  | authenticate | command | body | bodyLine | socketClosed => exact absurd storing id

section Limits

variable {cfg : Config} {c : Conn} {message : Message} {line : Bytes} {messageSize fuel : Nat}
  {lines : List Bytes} {rest : List Recv}

/-- A line within the size limit: whatever the append comes to, neither limit is why the
    loop stops, if it does. -/
theorem dataLoop_within (readable : ReadableLine line) (other : line ≠ terminator)
    (counted : message.text.length ≤ messageSize)
    (size : messageSize + ((unstuff line).length + 2) ≤ cfg.maxMessageSize)
    (input : c.env.input = arriving (line ++ crlf) ++ rest) :
    ∃ d, Logs (¬ Oversize ·) c d ∧ d.env.input = rest ∧
      ((∃ message', message'.text.length ≤ messageSize + ((unstuff line).length + 2) ∧
        dataLoop cfg (fuel + 1) message messageSize c =
          dataLoop cfg fuel message' (messageSize + ((unstuff line).length + 2)) d) ∨
      (dataLoop cfg (fuel + 1) message messageSize c).2 = d) := by
  have step : dataLoop cfg (fuel + 1) message messageSize c = _ := dataLoop.eq_2 ..
  rw [readLine_line readable input] at step
  dsimp only at step
  have small : ¬ message.text.length > cfg.maxMessageSize * 2 := by omega
  rw [if_neg other, if_neg (Nat.not_lt.mpr size)] at step
  simp only [nextAppend, Conn.record_appends] at step
  have read : Logs (¬ Oversize ·) c
      (Conn.record { c with env := { c.env with input := rest } } (.bodyLine line)) :=
    Logs.record (.of_eq rfl) id
  have inserted := message.insert_length (unstuff line)
  cases answer : c.env.appends.headD .done with
  | copyFailed =>
      simp only [answer] at step
      refine ⟨_, ?_, ?_, .inr (congrArg Prod.snd step)⟩
      · exact read.trans (.of_eq rfl)
      · rfl
  | done | lost =>
      simp only [answer, if_neg small] at step
      refine ⟨_, ?_, ?_, .inl ⟨_, (inserted _).trans ?_, step⟩⟩
      · exact read.trans (.of_eq rfl)
      · rfl
      · omega

theorem dataLoop_limits (readable : ∀ line ∈ lines, ReadableLine line)
    (others : ∀ line ∈ lines, line ≠ terminator) (counted : message.text.length ≤ messageSize)
    (size : messageSize + bodySize lines ≤ cfg.maxMessageSize)
    (input : c.env.input = arriving (rawMessage (lines ++ [terminator])) ++ rest) :
    Logs (¬ Oversize ·) c (dataLoop cfg fuel message messageSize c).2 := by
  induction fuel generalizing lines message messageSize c with
  | zero => exact .refl c
  | succ fuel ih =>
  cases lines with
  | nil =>
      have stops : dataLoop cfg (fuel + 1) message messageSize c = _ := dataLoop.eq_2 ..
      rw [readLine_line terminator_readable input] at stops
      rw [stops.trans (if_pos rfl)]
      exact Logs.record (.of_eq rfl) id
  | cons line lines =>
      obtain ⟨first, later⟩ := List.forall_mem_cons.mp readable
      obtain ⟨goesOn, othersLater⟩ := List.forall_mem_cons.mp others
      have sizes : bodySize (line :: lines) = (unstuff line).length + 2 + bodySize lines := rfl
      have input : c.env.input =
          arriving (line ++ crlf) ++ (arriving (rawMessage (lines ++ [terminator])) ++ rest) := by
        rw [input, List.cons_append, rawMessage_cons, arriving_append, List.append_assoc]
      obtain ⟨d, quiet, unread, ⟨message', counted', step⟩ | stops⟩ :=
        @dataLoop_within cfg c message line messageSize fuel _ first goesOn counted
          (by omega) input
      · rw [step]
        exact quiet.trans (ih later othersLater counted' (by omega) unread)
      · rw [stops]
        exact quiet

end Limits

/-- Whatever the lines, as long as each takes at most 1024 characters with its dot stuffed
    and all together are within the size limit, and whatever comes behind them: no limit is
    in the way, and when memory does not run out `handleData` hands the lines to the store,
    each with a line feed, and leaves unread what comes behind them. -/
theorem stuffed_stored {cfg : Config} {c : Conn} {lines : List Bytes} {rest : List Recv}
    (clean : ∀ line ∈ lines, Bytes.cr ∉ line ∧ Bytes.lf ∉ line)
    (short : ∀ line ∈ lines, (stuff line).length ≤ 1024)
    (size : (lines.map fun line => line.length + 2).sum ≤ cfg.maxMessageSize)
    (recipients : c.session.rcptTo ≠ [])
    (input : c.env.input = arriving (rawMessage (lines.map stuff ++ [terminator])) ++ rest) :
    (∀ e ∈ since c (handleData cfg c).conn, ¬ Oversize e) ∧
    (MemorySuffices c →
      (∃ session msg answer, .store session msg answer ∈ since c (handleData cfg c).conn) ∧
      (∀ session msg answer, .store session msg answer ∈ since c (handleData cfg c).conn →
        msg.rawData = storedLines lines) ∧
      (handleData cfg c).conn.env.input = rest) := by
  have readable : ∀ line ∈ lines.map stuff, ReadableLine line := by
    intro line there
    obtain ⟨plain, member, rfl⟩ := List.mem_map.mp there
    obtain ⟨cr, lf⟩ := clean plain member
    refine ⟨short plain member, ?_, ?_⟩
    all_goals
      unfold stuff
      split
      · simpa [Bytes.cr, Bytes.lf, Bytes.dot] using ‹_ ∉ plain›
      · assumption
  have others : ∀ line ∈ lines.map stuff, line ≠ terminator := by
    intro line there
    obtain ⟨plain, -, rfl⟩ := List.mem_map.mp there
    exact stuff_ne_terminator plain
  have size : bodySize (lines.map stuff) ≤ cfg.maxMessageSize := by
    rw [bodySize_stuffed]
    exact size
  constructor
  · have limits : Logs (¬ Oversize ·) (askedForBody c) (bodyLoop cfg c).2 :=
      dataLoop_limits readable others (Nat.zero_le _) (by rw [Nat.zero_add]; exact size) input
    have asked : Logs (¬ Oversize ·) c (askedForBody c) := by
      refine ((Logs.refl c).record ?_).record id
      decide +kernel
    have whole : Logs (¬ Oversize ·) c (handleData cfg c).conn := by
      rw [handleData_loop cfg recipients]
      generalize bodyLoop cfg c = ended at limits
      obtain ⟨exit, mid⟩ := ended
      cases exit with
      | store message => exact (asked.trans limits).trans (storeMessage_within message mid)
      | returned | threw => exact asked.trans limits
    obtain ⟨new, log, each⟩ := whole
    rw [since_eq log]
    exact each
  · intro memory
    obtain ⟨stores, unread⟩ := (bodyLoop_stores_iff readable memory input).mpr
      ⟨⟨fun ends => others _ ends rfl, size⟩, rfl⟩
    rw [map_unstuff_stuff] at stores
    refine ⟨?_, ?_, (handleData_unread recipients).trans unread⟩
    · obtain ⟨session, msg, answer, there, -⟩ := (handleData_stores recipients memory).mpr stores
      exact ⟨session, msg, answer, there⟩
    · intro session msg answer there
      have same := (handleData_stores recipients memory).mp ⟨session, msg, answer, there, rfl⟩
      exact DataExit.store.inj (same.symm.trans stores)

/-- A line that begins with a dot comes through. -/
theorem stuffed_stored_hello :
    let c : Conn :=
      ⟨{ SmtpSession.fresh true 0 with state := .rcptTo, rcptTo := [ascii "bob"] },
        { input := arriving (rawMessage ([ascii ".hello"].map stuff ++ [terminator])) ++
            arriving (ascii "QUIT\r\n")
          stores := [some (ascii "1")] }⟩
    let cfg : Config := { minTlsVersion := TLS1_2_VERSION }
    (∃ session msg answer, .store session msg answer ∈ since c (handleData cfg c).conn) ∧
      (handleData cfg c).conn.env.input = arriving (ascii "QUIT\r\n") := by
  intro c cfg
  have stored := (@stuffed_stored cfg c [ascii ".hello"] (arriving (ascii "QUIT\r\n"))
    (List.forall_mem_singleton.mpr ⟨by decide, by decide⟩)
    (List.forall_mem_singleton.mpr (by decide)) (by decide) (by decide) rfl).2
    fun _ member => absurd member List.not_mem_nil
  exact ⟨stored.1, stored.2.2⟩

end EmailServer.Delivery
