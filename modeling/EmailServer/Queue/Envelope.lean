import EmailServer.Library.TextSearch
import EmailServer.Queue.Payload

/-! # The envelope of a leased message

`fetchReady` looks for `FROM: ` and `TO: ` in the whole file. The first stands at its
beginning, but the second may stand in the sender already.
-/

namespace EmailServer.Queue

open QueueState

/-- One line that does not end in a space or a carriage return. -/
structure EnvelopeText (text : Bytes) : Prop where
  lf : Bytes.lf ∉ text
  last : ∀ b, text.getLast? = some b → b ≠ Bytes.space ∧ b ≠ Bytes.cr

theorem envelopeText_iff {text : Bytes} : EnvelopeText text ↔
    text.all (· != Bytes.lf) = true ∧
      text.getLast?.all (fun b => b != Bytes.space && b != Bytes.cr) = true := by
  constructor
  · intro ⟨lf, last⟩
    refine ⟨List.all_eq_true.mpr (Bytes.bne_of_not_mem lf), ?_⟩
    · rw [Option.all_eq_true]
      intro b isLast
      simpa using last b isLast
  · intro ⟨lf, last⟩
    refine ⟨fun there => by simpa using List.all_eq_true.mp lf _ there, fun b isLast => ?_⟩
    simpa using Option.all_eq_true _ _ |>.mp last b isLast

instance (text : Bytes) : Decidable (EnvelopeText text) := decidable_of_iff' _ envelopeText_iff

/-- The sender and the recipient that a worker fetched after `enqueue` had returned the id
    are those that were enqueued, in every interleaving. -/
def EnvelopeSurvives (ι : Type) [DecidableEq ι] (sender recipient raw : Bytes) : Prop :=
  ∀ pool : QueuePool ι, ReachableReading pool → ∀ newer older id call msg,
    pool.returned = newer ++ (.enqueue sender recipient raw, .enqueued (.ok id)) :: older →
    (call, Outcome.fetched (.ok (some msg))) ∈ newer → msg.id = id →
    msg.sender = sender ∧ msg.recipient = recipient

/-! ## What is read of a file -/

section Fields

variable {key before value rest sender recipient raw : Bytes}

theorem tails_find : (value.tails.find? (key.isPrefixOf ·)) = Bytes.find key value := by
  induction value with
  | nil => cases key <;> rfl
  | cons c value ih =>
      rw [List.tails_cons, List.find?_cons, Bytes.find]
      split
      · rename_i starts
        rw [if_pos starts]
      · rename_i starts
        rw [if_neg (by simp [starts])]
        exact ih

theorem headerField_found (text : EnvelopeText value)
    (found : Bytes.find key raw = some (key ++ value ++ Bytes.lf :: rest)) :
    headerField key raw = value := by
  have stop := Bytes.bne_of_not_mem text.lf
  have kept : value.reverse.dropWhile (fun c => c == Bytes.space || c == Bytes.cr) =
      value.reverse := by
    cases reversed : value.reverse with
    | nil => rfl
    | cons b others =>
        have ends : value.getLast? = some b := by
          rw [← List.head?_reverse, reversed]
          rfl
        obtain ⟨space, cr⟩ := text.last b ends
        rw [List.dropWhile_cons_of_neg (by simp [space, cr])]
  rw [headerField, tails_find, found]
  dsimp only
  rw [if_pos (by simp), List.append_assoc, List.drop_left, List.takeWhile_append_of_pos stop]
  simp [kept]

theorem enqueuedContent_eq : enqueuedContent sender recipient raw =
    ascii "FROM: " ++ (sender ++ Bytes.lf ::
      (ascii "TO: " ++ recipient ++ Bytes.lf :: (ascii "---RAW---\n" ++ raw))) := by
  have newline : ascii "\n" = [Bytes.lf] := rfl
  simp only [enqueuedContent, newline, List.append_assoc, List.cons_append, List.nil_append]

theorem sender_read (text : EnvelopeText sender) :
    headerField (ascii "FROM: ") (enqueuedContent sender recipient raw) = sender := by
  have found : Bytes.find (ascii "FROM: ") (enqueuedContent sender recipient raw) =
      some (ascii "FROM: " ++ sender ++ Bytes.lf ::
        (ascii "TO: " ++ recipient ++ Bytes.lf :: (ascii "---RAW---\n" ++ raw))) := by
    rw [enqueuedContent_eq, List.append_assoc]
    rfl
  exact headerField_found text found

theorem find_to (text : Bytes) :
    Bytes.find (ascii "TO: ") (ascii "FROM: " ++ text) = Bytes.find (ascii "TO: ") text :=
  Bytes.find_skip (by decide)

theorem recipient_read (text : EnvelopeText recipient)
    (absent : Bytes.find (ascii "TO: ") sender = none) :
    headerField (ascii "TO: ") (enqueuedContent sender recipient raw) = recipient := by
  have found : Bytes.find (ascii "TO: ") (enqueuedContent sender recipient raw) =
      some (ascii "TO: " ++ recipient ++ Bytes.lf :: (ascii "---RAW---\n" ++ raw)) := by
    rw [enqueuedContent_eq, find_to, Bytes.find_append absent (by decide)]
    rfl
  exact headerField_found text found

/-- Where the sender contains the second key, its rest is taken for the recipient. -/
theorem recipient_misread (text : EnvelopeText sender)
    (found : Bytes.find (ascii "TO: ") sender = some (ascii "TO: " ++ value)) :
    headerField (ascii "TO: ") (enqueuedContent sender recipient raw) = value := by
  obtain ⟨-, front, ends⟩ := Bytes.find_suffix found
  have rest : EnvelopeText value := by
    refine ⟨fun inside => text.lf (ends ▸ by simp [inside]), fun b last => text.last b ?_⟩
    rw [← ends, ← List.append_assoc, List.getLast?_append, last]
    rfl
  have whole : Bytes.find (ascii "TO: ") (enqueuedContent sender recipient raw) =
      some (ascii "TO: " ++ value ++ Bytes.lf ::
        (ascii "TO: " ++ recipient ++ Bytes.lf :: (ascii "---RAW---\n" ++ raw))) := by
    rw [enqueuedContent_eq, find_to, Bytes.find_extend found]
  exact headerField_found rest whole

end Fields

/-! ## What is fetched -/

/-- What is fetched is parsed from its data. -/
def Parsed (msg : QueueMessage) : Prop := msg = parseMessage msg.id msg.rawData

theorem leaseFirst_parsed {entries : List QueuePath} {fetched : Option QueueMessage}
    (returns : (leaseFirst entries).Returns fetched) : ∀ msg ∈ fetched, Parsed msg := by
  induction entries with
  | nil =>
      obtain rfl : fetched = none := returns
      simp
  | cons f rest ih =>
      unfold leaseFirst at returns
      split at returns
      · obtain ⟨there, returns⟩ := returns
        rcases there with _ | _ | _
        · exact ih returns
        · obtain ⟨leased, returns⟩ := returns
          cases leased with
          | false => exact ih returns
          | true =>
              obtain ⟨verified, returns⟩ := returns
              rcases verified with _ | _ | _
              · exact ih returns
              · exact ih returns
              · obtain ⟨raw, returns⟩ := returns
                rcases raw with _ | _ | ⟨c, text⟩
                · obtain ⟨back, returns⟩ := returns
                  exact ih returns
                · obtain ⟨away, returns⟩ := returns
                  exact ih returns
                · obtain rfl := returns
                  intro msg isMsg
                  obtain rfl := Option.some.inj isMsg
                  rfl
        · exact ih returns
      · exact ih returns

theorem fetchReady_parsed {msg : QueueMessage} (returns : fetchReady.Returns (.ok (some msg))) :
    Parsed msg := by
  obtain ⟨leased, returns⟩ := returns
  cases leased with
  | none => cases returns
  | some leased =>
      obtain ⟨reclaimed, -, returns⟩ := Prog.returns_bind.mp returns
      match reclaimed with
      | .error _ => cases returns
      | .ok () =>
        obtain ⟨ready, returns⟩ := returns
        cases ready with
        | none => cases returns
        | some ready =>
            obtain ⟨fetched, returns, same⟩ := Prog.returns_map.mp returns
            exact leaseFirst_parsed returns msg (Except.ok.inj same).symm

theorem runOnce_parsed {deliver : Deliver} {logs : PassLogs} {msg : QueueMessage}
    (returns : (runOnce deliver logs).Returns (.ok (some msg))) : Parsed msg := by
  obtain ⟨fetched, first, returns⟩ := Prog.returns_bind.mp returns
  match fetched with
  | .error _ | .ok none => cases returns
  | .ok (some msg') =>
    obtain ⟨marked, -, same⟩ := Prog.returns_map.mp returns
    cases marked with
    | error e => cases same
    | ok _ =>
        cases same
        exact fetchReady_parsed first

theorem call_parsed {call called : Call} {msg : QueueMessage}
    (returns : (callProgram call).Returns (called, .fetched (.ok (some msg)))) : Parsed msg := by
  obtain ⟨outcome, returns, same⟩ := Prog.returns_map.mp returns
  obtain rfl := (Prod.mk.inj same).2
  cases call with
  | fetchReady =>
      obtain ⟨fetched, returns, same⟩ := Prog.returns_map.mp returns
      cases same
      exact fetchReady_parsed returns
  | runOnce deliver logs =>
      obtain ⟨fetched, returns, same⟩ := Prog.returns_map.mp returns
      cases same
      exact runOnce_parsed returns
  | _ =>
      obtain ⟨_, -, same⟩ := Prog.returns_map.mp returns
      cases same

section System

variable {ι : Type} [DecidableEq ι] {pool : QueuePool ι} {call : Call} {msg : QueueMessage}

theorem reachable_parsed (reached : ReachableReading pool)
    (fetched : (call, Outcome.fetched (.ok (some msg))) ∈ pool.returned) : Parsed msg := by
  obtain ⟨now, steps⟩ := reached
  have each : ∀ result ∈ pool.returned, ∀ msg, result.2 = .fetched (.ok (some msg)) → Parsed msg := by
    refine Pool.returned_of_returns ?_ steps
    rintro _ ⟨called, rfl⟩ ⟨_, _⟩ returns msg rfl
    exact call_parsed returns
  exact each _ fetched msg rfl

/-- A worker may find the second key in the sender. -/
theorem survives_needs [Inhabited ι] {sender recipient raw : Bytes} (text : EnvelopeText sender)
    (short : (enqueuedContent sender recipient raw).length < 2 ^ 32)
    (survives : EnvelopeSurvives ι sender recipient raw) :
    Bytes.find (ascii "TO: ") sender = none ∨
      Bytes.find (ascii "TO: ") sender = some (ascii "TO: " ++ recipient) := by
  obtain ⟨pool, reached, returned⟩ := leases_enqueued (ι := ι) short
  obtain ⟨-, same⟩ := survives pool reached [_] [] _ _ _ returned (List.mem_singleton_self _) rfl
  cases found : Bytes.find (ascii "TO: ") sender with
  | none => exact .inl rfl
  | some hit =>
      obtain ⟨⟨value, rfl⟩, -⟩ := Bytes.find_suffix found
      have read : headerField (ascii "TO: ") (enqueuedContent sender recipient raw) = recipient :=
        same
      rw [recipient_misread text found] at read
      exact .inr (by rw [read])

/-- In every interleaving, for every payload: the envelope survives the queue if and only if
    the sender does not contain the second key, or what stands behind the first one in it is
    the recipient, or the message is too long to be enqueued at all. -/
theorem envelope_survives_iff (ι : Type) [DecidableEq ι] [Inhabited ι] {sender recipient : Bytes}
    (senderText : EnvelopeText sender) (recipientText : EnvelopeText recipient) (raw : Bytes) :
    EnvelopeSurvives ι sender recipient raw ↔
      (Bytes.find (ascii "TO: ") sender = none ∨
        Bytes.find (ascii "TO: ") sender = some (ascii "TO: " ++ recipient)) ∨
      2 ^ 32 ≤ (enqueuedContent sender recipient raw).length := by
  constructor
  · intro survives
    rw [or_iff_not_imp_right, Nat.not_le]
    exact fun short => survives_needs senderText short survives
  · intro condition pool reached newer older id call msg returned member same
    have enqueued : (Call.enqueue sender recipient raw, Outcome.enqueued (.ok id)) ∈
        pool.returned := by simp [returned]
    have fetched : (call, Outcome.fetched (.ok (some msg))) ∈ pool.returned := by
      simp [returned, member]
    obtain ⟨data, short⟩ := fetched_enqueued reached enqueued fetched same
    have parsed : msg = parseMessage msg.id msg.rawData := reachable_parsed reached fetched
    rw [parsed, data]
    refine ⟨sender_read senderText, ?_⟩
    rcases condition with (absent | found) | long
    · exact recipient_read recipientText absent
    · exact recipient_misread senderText found
    · exact absurd long (Nat.not_le.mpr short)

end System

theorem envelope_survives_plain :
    EnvelopeSurvives Unit (ascii "a@x") (ascii "b@y") (ascii "TO: c@z") :=
  (envelope_survives_iff Unit (by decide) (by decide) _).mpr (.inl (.inl (by decide)))

/-- Behind the sender `a TO: eve@z` the message goes to `eve@z`. -/
theorem recipient_forged :
    EnvelopeText (ascii "a TO: eve@z") ∧ EnvelopeText (ascii "bob@y") ∧
      ¬ EnvelopeSurvives Unit (ascii "a TO: eve@z") (ascii "bob@y") (ascii "hi") := by
  refine ⟨by decide, by decide, fun survives => ?_⟩
  have found : Bytes.find (ascii "TO: ") (ascii "a TO: eve@z") = some (ascii "TO: eve@z") := by
    decide
  have needs := survives_needs (by decide) (by decide) survives
  rw [found] at needs
  exact absurd needs (by decide)

end EmailServer.Queue
