import EmailServer.Delivery.Outcome

/-! # Replies and reads

A server answers each command with a reply; the network cuts the text of the
replies into reads as it likes. The client takes one read for one reply, so what
it sees of a reply is the byte at which a read happens to begin.
-/

namespace EmailServer.Delivery

/-- A reply: its code, and the texts of its lines without their ends. -/
structure Reply where
  code : Bytes
  continued : List Bytes
  /-- The text of the last line, if it has one. -/
  last : Option Bytes
  digits : ∃ x y z, code = [x, y, z] ∧ 50 ≤ x ∧ x ≤ 53 ∧ 48 ≤ y ∧ y ≤ 53 ∧ Bytes.isDigit z = true
  clean : ∀ text ∈ last.toList ++ continued, Bytes.cr ∉ text ∧ Bytes.lf ∉ text

/-- `250-text` for each line but the last, and `250 text` or `250` for that one. -/
def Reply.bytes (r : Reply) : Bytes :=
  (r.continued.flatMap fun text => r.code ++ ascii "-" ++ text ++ crlf) ++ r.code ++
    (r.last.elim [] fun text => ascii " " ++ text) ++ crlf

/-- The replies to the connection, to EHLO, MAIL, RCPT, DATA, to the end of the
    data and to QUIT. -/
abbrev Server := Nat → Reply

/-- The text of the first `k` replies. -/
def Server.sent (s : Server) : Nat → Bytes
  | 0 => []
  | k + 1 => s.sent k ++ (s k).bytes

/-- The bytes a read gave. -/
def Received.data : Received → Bytes
  | .failed => []
  | .bytes data _ => data

/-- What the first `i` reads gave. -/
def Network.received (net : Network) : Nat → Bytes
  | 0 => []
  | i + 1 => net.received i ++ (net.recvs i).data

/-- The network passes on the server's text: every read gives some of the bytes
    that follow, as far as the replies to the commands sent before it go. -/
structure Cuts (s : Server) (net : Network) : Prop where
  resolves : net.resolves = true
  opens : net.opens = true
  connects : net.connects = true
  nonempty : ∀ i, (net.recvs i).data ≠ []
  passes : ∀ i, net.received (i + 1) <+: s.sent (i + 1)

/-- The reads after number `k` begin with these bytes. -/
def Network.Begins (net : Network) (k : Nat) : Bytes → Prop
  | [] => True
  | b :: rest => net.reply (k + 1) = some b ∧ net.Begins (k + 1) rest

/-- The flags of the delivery do not depend on how the text is cut. -/
def Server.Independent (s : Server) : Prop :=
  ∀ net net', Cuts s net → Cuts s net' → ∀ mxHost sender recipient raw,
    (connectAndDeliver net mxHost sender recipient raw).1.success =
        (connectAndDeliver net' mxHost sender recipient raw).1.success ∧
      (connectAndDeliver net mxHost sender recipient raw).1.permanentFailure =
        (connectAndDeliver net' mxHost sender recipient raw).1.permanentFailure

/-- Read number `k` begins at `p`; the reads after it can begin with these bytes. -/
def Server.Offers (s : Server) (k p : Nat) : Bytes → Prop
  | [] => True
  | b :: rest => ∃ q ∈ List.range' (p + 1) (bufferSize - 1),
      q ≤ (s.sent (k + 1)).length ∧ (s.sent (k + 2))[q]? = some b ∧ s.Offers (k + 1) q rest

instance Server.decidableOffers (s : Server) : ∀ k p bs, Decidable (s.Offers k p bs)
  | _, _, [] => inferInstanceAs (Decidable True)
  | k, p, b :: rest =>
      let _ := fun q => Server.decidableOffers s (k + 1) q rest
      inferInstanceAs (Decidable (∃ q ∈ List.range' (p + 1) (bufferSize - 1),
        q ≤ (s.sent (k + 1)).length ∧ (s.sent (k + 2))[q]? = some b ∧ s.Offers (k + 1) q rest))

/-- The reads after the greeting can begin with 2, 2, 2, 3 and 2. -/
def Server.CanAccept (s : Server) : Prop :=
  s.Offers 0 0 [code '2', code '2', code '2', code '3', code '2']

/-- They can begin with a 5 where the client takes it for a refusal. -/
def Server.CanRefuse (s : Server) : Prop :=
  s.Offers 0 0 [code '2', code '5'] ∨ s.Offers 0 0 [code '2', code '2', code '5'] ∨
    s.Offers 0 0 [code '2', code '2', code '2', code '3', code '5']

/-! ## The text -/

section Text

variable {s : Server} {net : Network} {i k p : Nat} {bs : Bytes}

theorem Reply.length_pos (r : Reply) : 5 ≤ r.bytes.length := by
  obtain ⟨x, y, z, code, -⟩ := r.digits
  simp only [Reply.bytes, code, crlf, List.length_append, List.length_cons, List.length_nil]
  omega

theorem sent_grows (s : Server) (k : Nat) : (s.sent k).length + 5 ≤ (s.sent (k + 1)).length := by
  have long := (s k).length_pos
  simp only [Server.sent, List.length_append]
  omega

theorem sent_add (s : Server) (k i : Nat) : (s.sent k).length + i ≤ (s.sent (k + i)).length := by
  induction i with
  | zero => exact le_rfl
  | succ i ih =>
      have grows := sent_grows s (k + i)
      change _ ≤ (s.sent (k + i + 1)).length
      omega

theorem Cuts.reply (cuts : Cuts s net) (i : Nat) :
    net.reply i = (s.sent (i + 1))[(net.received i).length]? := by
  obtain ⟨rest, text⟩ := cuts.passes i
  have nonempty := cuts.nonempty i
  rw [← text, Network.received, List.append_assoc, List.getElem?_append_right le_rfl, Nat.sub_self]
  cases answer : net.recvs i with
  | failed => simp [answer, Received.data] at nonempty
  | bytes data fits =>
      simp only [Network.reply, answer, Received.data] at nonempty ⊢
      obtain ⟨b, others, rfl⟩ := List.exists_cons_of_ne_nil nonempty
      rfl

theorem Received.length_le (r : Received) : r.data.length ≤ bufferSize - 1 := by
  cases r with
  | failed => exact Nat.zero_le _
  | bytes data fits => exact fits

theorem Cuts.offers (cuts : Cuts s net) (begins : net.Begins k bs) :
    s.Offers k (net.received k).length bs := by
  induction bs generalizing k with
  | nil => trivial
  | cons b rest ih =>
      have more : (net.received (k + 1)).length =
          (net.received k).length + (net.recvs k).data.length := by simp [Network.received]
      have some_ := List.length_pos_of_ne_nil (cuts.nonempty k)
      have fits := (net.recvs k).length_le
      refine ⟨(net.received (k + 1)).length, ?_, (cuts.passes k).length_le, ?_, ih begins.2⟩
      · rw [List.mem_range'_1]
        omega
      · rw [← cuts.reply (k + 1)]
        exact begins.1

theorem begins_of (starts : ∀ i b, bs[i]? = some b → net.reply (k + i + 1) = some b) :
    net.Begins k bs := by
  induction bs generalizing k with
  | nil => trivial
  | cons b rest ih =>
      refine ⟨starts 0 b rfl, ih fun i c later => ?_⟩
      rw [show k + 1 + i + 1 = k + (i + 1) + 1 by omega]
      exact starts (i + 1) c later

/-! ## From places to reads -/

/-- Places at which the reads of a network can begin. -/
structure Places (s : Server) (place : Nat → Nat) : Prop where
  start : place 0 = 0
  moves : ∀ i, place i < place (i + 1)
  fits : ∀ i, place (i + 1) ≤ place i + (bufferSize - 1)
  available : ∀ i, place (i + 1) ≤ (s.sent (i + 1)).length

/-- The reads that begin at these places. -/
def cutAt (s : Server) (place : Nat → Nat) : Network where
  resolves := true
  opens := true
  connects := true
  recvs i :=
    let data := ((s.sent (i + 1)).drop (place i)).take (place (i + 1) - place i)
    if fits : data.length ≤ bufferSize - 1 then .bytes data fits else .failed
  uninitialized := []
  lengthError := []

variable {place : Nat → Nat}

theorem cutAt_data (places : Places s place) (i : Nat) : ((cutAt s place).recvs i).data =
    ((s.sent (i + 1)).drop (place i)).take (place (i + 1) - place i) := by
  have fits := places.fits i
  have short : (((s.sent (i + 1)).drop (place i)).take (place (i + 1) - place i)).length ≤
      bufferSize - 1 := by
    rw [List.length_take]
    omega
  simp only [cutAt, dif_pos short, Received.data]

theorem cutAt_received (places : Places s place) (i : Nat) :
    (cutAt s place).received i = (s.sent i).take (place i) := by
  induction i with
  | zero => rw [places.start]; rfl
  | succ i ih =>
      have available : place i ≤ (s.sent i).length := by
        cases i with
        | zero => simp [places.start]
        | succ i => exact places.available i
      have moves := places.moves i
      have before : (s.sent i).take (place i) = (s.sent (i + 1)).take (place i) := by
        rw [Server.sent, List.take_append_of_le_length available]
      rw [Network.received, ih, cutAt_data places, before, ← List.take_add]
      congr 1
      omega

theorem cutAt_cuts (places : Places s place) : Cuts s (cutAt s place) := by
  refine ⟨rfl, rfl, rfl, fun i => ?_, fun i => ?_⟩
  · have moves := places.moves i
    have available := places.available i
    rw [cutAt_data places, ← List.length_pos_iff, List.length_take, List.length_drop]
    omega
  · rw [cutAt_received places]
    exact List.take_prefix _ _

theorem cutAt_reply (places : Places s place) (i : Nat) :
    (cutAt s place).reply i = (s.sent (i + 1))[place i]? := by
  rw [(cutAt_cuts places).reply, cutAt_received places, List.length_take]
  have available : place i ≤ (s.sent i).length := by
    cases i with
    | zero => simp [places.start]
    | succ i => exact places.available i
  rw [Nat.min_eq_left available]

theorem offers_places (offers : s.Offers k p bs) (inside : p ≤ (s.sent k).length) :
    ∃ place : Nat → Nat, place 0 = p ∧
      (∀ i, place i < place (i + 1) ∧ place (i + 1) ≤ place i + (bufferSize - 1) ∧
        place (i + 1) ≤ (s.sent (k + i + 1)).length) ∧
      ∀ i b, bs[i]? = some b → (s.sent (k + i + 2))[place (i + 1)]? = some b := by
  induction bs generalizing k p with
  | nil =>
      refine ⟨fun i => p + i, rfl, fun i => ⟨?_, ?_, ?_⟩, by simp⟩
      · simp
      · simp only [bufferSize]
        omega
      · have more := sent_add s k (i + 1)
        simp only [← Nat.add_assoc] at more ⊢
        omega
  | cons b rest ih =>
      obtain ⟨q, near, available, here, later⟩ := offers
      obtain ⟨place, first, steps, starts⟩ := ih later available
      rw [List.mem_range'_1] at near
      refine ⟨fun | 0 => p | i + 1 => place i, rfl, ?_, ?_⟩
      · rintro (_ | i)
        · simp only [first]
          exact ⟨by omega, by omega, available⟩
        · have step := steps i
          rw [show k + 1 + i + 1 = k + (i + 1) + 1 by omega] at step
          exact step
      · rintro (_ | i) c found
        · obtain rfl : b = c := by simpa using found
          simpa [first] using here
        · have start := starts i c (by simpa using found)
          rw [show k + 1 + i + 2 = k + (i + 1) + 2 by omega] at start
          exact start

theorem offers_cut (offers : s.Offers 0 0 bs) : ∃ net, Cuts s net ∧ net.Begins 0 bs := by
  obtain ⟨place, first, steps, starts⟩ := offers_places offers (Nat.zero_le _)
  simp only [Nat.zero_add] at steps starts
  have places : Places s place :=
    ⟨first, fun i => (steps i).1, fun i => (steps i).2.1, fun i => (steps i).2.2⟩
  refine ⟨cutAt s place, cutAt_cuts places, begins_of fun i b found => ?_⟩
  rw [cutAt_reply places, Nat.zero_add]
  exact starts i b found

/-! ## The flags -/

theorem Cuts.greets (cuts : Cuts s net) : net.Greets := by
  refine ⟨cuts.resolves, cuts.opens, cuts.connects, ?_⟩
  have nonempty := cuts.nonempty 0
  cases answer : net.recvs 0 with
  | failed => simp [answer, Received.data] at nonempty
  | bytes data fits => simpa [Network.reply, answer, Received.data] using nonempty

theorem Cuts.accepts (cuts : Cuts s net) :
    net.Accepts ↔ net.Begins 0 [code '2', code '2', code '2', code '3', code '2'] := by
  constructor
  · rintro ⟨-, ehlo, mail, rcpt, data, ended⟩
    exact ⟨ehlo, mail, rcpt, data, ended, trivial⟩
  · rintro ⟨ehlo, mail, rcpt, data, ended, -⟩
    exact ⟨cuts.greets, ehlo, mail, rcpt, data, ended⟩

theorem Cuts.refuses (cuts : Cuts s net) :
    net.Refuses ↔ net.Begins 0 [code '2', code '5'] ∨ net.Begins 0 [code '2', code '2', code '5'] ∨
      net.Begins 0 [code '2', code '2', code '2', code '3', code '5'] := by
  constructor
  · rintro ⟨-, ehlo, mail | ⟨mail, rcpt | ⟨rcpt, data, ended⟩⟩⟩
    · exact .inl ⟨ehlo, mail, trivial⟩
    · exact .inr (.inl ⟨ehlo, mail, rcpt, trivial⟩)
    · exact .inr (.inr ⟨ehlo, mail, rcpt, data, ended, trivial⟩)
  · rintro (⟨ehlo, mail, -⟩ | ⟨ehlo, mail, rcpt, -⟩ | ⟨ehlo, mail, rcpt, data, ended, -⟩)
    · exact ⟨cuts.greets, ehlo, .inl mail⟩
    · exact ⟨cuts.greets, ehlo, .inr ⟨mail, .inl rcpt⟩⟩
    · exact ⟨cuts.greets, ehlo, .inr ⟨mail, .inr ⟨rcpt, data, ended⟩⟩⟩

theorem Cuts.canAccept (cuts : Cuts s net) (accepts : net.Accepts) : s.CanAccept :=
  cuts.offers (cuts.accepts.mp accepts)

theorem Cuts.canRefuse (cuts : Cuts s net) (refuses : net.Refuses) : s.CanRefuse := by
  rcases cuts.refuses.mp refuses with begins | begins | begins
  · exact .inl (cuts.offers begins)
  · exact .inr (.inl (cuts.offers begins))
  · exact .inr (.inr (cuts.offers begins))

theorem bytes_separator (r : Reply) :
    ∃ b rest, r.bytes = r.code ++ b :: rest ∧ b ≠ code '2' := by
  obtain ⟨digits, continued, last, -, -⟩ := r
  cases continued with
  | nil =>
      cases last with
      | none => exact ⟨Bytes.cr, [Bytes.lf], by simp [Reply.bytes, crlf], by decide⟩
      | some text => exact ⟨32, text ++ crlf, by simp [Reply.bytes, ascii], by decide⟩
  | cons text rest => exact ⟨45, _, by simp [Reply.bytes, ascii]; rfl, by decide⟩

/-- Every server's text can be cut so that the delivery fails for the time being:
    the greeting is read up to the digits of its code. -/
theorem exists_temporary (s : Server) : ∃ net, Cuts s net ∧ ¬ net.Accepts ∧ ¬ net.Refuses := by
  let place : Nat → Nat := fun | 0 => 0 | i + 1 => i + 3
  have places : Places s place := by
    refine ⟨rfl, ?_, ?_, ?_⟩
    · rintro (_ | i)
      · exact Nat.zero_lt_succ 2
      · exact Nat.lt_succ_self (i + 3)
    · rintro (_ | i)
      · decide
      · simp only [place, bufferSize]
        omega
    · intro i
      have long := sent_add s 1 i
      have first : (s.sent 0).length + 5 ≤ (s.sent 1).length := sent_grows s 0
      rw [Nat.add_comm 1 i] at long
      simp only [place]
      omega
  have ehlo : (cutAt s place).reply 1 ≠ some (code '2') := by
    obtain ⟨b, rest, text, notTwo⟩ := bytes_separator (s 0)
    obtain ⟨x, y, z, digits, -⟩ := (s 0).digits
    have behind : (s.sent 2)[3]? = some b := by simp [Server.sent, text, digits]
    rw [cutAt_reply places, show place 1 = 3 from rfl, behind]
    simpa using notTwo
  refine ⟨cutAt s place, cutAt_cuts places, fun accepts => ehlo accepts.ehlo, fun refuses => ?_⟩
  exact ehlo refuses.2.1

theorem flags_false (notAccepted : ¬ net.Accepts) (notRefused : ¬ net.Refuses)
    (mxHost sender recipient raw : Bytes) :
    (connectAndDeliver net mxHost sender recipient raw).1.success = false ∧
      (connectAndDeliver net mxHost sender recipient raw).1.permanentFailure = false := by
  constructor
  · simpa using mt connectAndDeliver_outcome.1.mp notAccepted
  · simpa using mt connectAndDeliver_outcome.2.mp notRefused

theorem not_independent (cuts : Cuts s net) (answers : net.Accepts ∨ net.Refuses) :
    ¬ s.Independent := by
  intro independent
  obtain ⟨net₀, cuts₀, notAccepted, notRefused⟩ := exists_temporary s
  obtain ⟨success, permanent⟩ := independent net net₀ cuts cuts₀ [] [] [] []
  obtain ⟨failed, retried⟩ := flags_false notAccepted notRefused [] [] [] []
  rw [failed] at success
  rw [retried] at permanent
  rcases answers with accepts | refuses
  · exact absurd (success.symm.trans (connectAndDeliver_outcome.1.mpr accepts)) (by decide)
  · exact absurd (permanent.symm.trans (connectAndDeliver_outcome.2.mpr refuses)) (by decide)

theorem canAccept_cut (offers : s.CanAccept) : ∃ net, Cuts s net ∧ net.Accepts := by
  obtain ⟨net, cuts, begins⟩ := offers_cut offers
  exact ⟨net, cuts, cuts.accepts.mpr begins⟩

theorem canRefuse_cut (offers : s.CanRefuse) : ∃ net, Cuts s net ∧ net.Refuses := by
  rcases offers with offers | offers | offers
  · obtain ⟨net, cuts, begins⟩ := offers_cut offers
    exact ⟨net, cuts, cuts.refuses.mpr (.inl begins)⟩
  · obtain ⟨net, cuts, begins⟩ := offers_cut offers
    exact ⟨net, cuts, cuts.refuses.mpr (.inr (.inl begins))⟩
  · obtain ⟨net, cuts, begins⟩ := offers_cut offers
    exact ⟨net, cuts, cuts.refuses.mpr (.inr (.inr begins))⟩

end Text

/-- For every server: the flags do not depend on how its text is cut exactly when
    no cut lets the client take it for one that accepts or refuses the message. -/
theorem segmentation_iff (s : Server) : s.Independent ↔ ¬ s.CanAccept ∧ ¬ s.CanRefuse := by
  constructor
  · intro independent
    constructor
    · intro offers
      obtain ⟨net, cuts, accepts⟩ := canAccept_cut offers
      exact not_independent cuts (.inl accepts) independent
    · intro offers
      obtain ⟨net, cuts, refuses⟩ := canRefuse_cut offers
      exact not_independent cuts (.inr refuses) independent
  · rintro ⟨cannotAccept, cannotRefuse⟩ net net' cuts cuts' mxHost sender recipient raw
    obtain ⟨success, permanent⟩ := flags_false (mt cuts.canAccept cannotAccept)
      (mt cuts.canRefuse cannotRefuse) mxHost sender recipient raw
    obtain ⟨success', permanent'⟩ := flags_false (mt cuts'.canAccept cannotAccept)
      (mt cuts'.canRefuse cannotRefuse) mxHost sender recipient raw
    exact ⟨success.trans success'.symm, permanent.trans permanent'.symm⟩

/-- A server whose greeting fits into one read and that answers EHLO with 25x:
    the second of these digits is taken for a refusal of MAIL. -/
theorem canRefuse_of_greeting {s : Server} {z : UInt8} (short : (s 0).bytes.length ≤ bufferSize - 1)
    (ehlo : (s 1).code = [code '2', code '5', z]) : s.CanRefuse := by
  obtain ⟨b, rest, text, -⟩ := bytes_separator (s 1)
  rw [ehlo] at text
  have greeting : s.sent 1 = (s 0).bytes := rfl
  have first := (s 0).length_pos
  have upTo : s.sent 2 = (s 0).bytes ++ code '2' :: code '5' :: z :: b :: rest := by
    rw [Server.sent, greeting, text]
    rfl
  refine .inl ⟨(s 0).bytes.length, ?_, ?_, ?_, (s 0).bytes.length + 1, ?_, ?_, ?_, trivial⟩
  · rw [List.mem_range'_1]
    omega
  · rw [greeting]
  · rw [upTo, List.getElem?_append_right le_rfl, Nat.sub_self]
    rfl
  · rw [List.mem_range'_1]
    simp only [bufferSize]
    omega
  · rw [upTo, List.length_append]
    simp
  · have later : (s.sent 3)[(s 0).bytes.length + 1]? = (s.sent 2)[(s 0).bytes.length + 1]? := by
      rw [Server.sent, List.getElem?_append_left]
      rw [upTo, List.length_append]
      simp
    rw [later, upTo, List.getElem?_append_right (by omega), Nat.add_sub_cancel_left]
    rfl

/-- The codes of a session in which a message is accepted. -/
def goodCodes : Nat → Bytes
  | 0 => ascii "220"
  | 4 => ascii "354"
  | 6 => ascii "221"
  | _ => ascii "250"

theorem goodCodes_digits (i : Nat) : ∃ x y z, goodCodes i = [x, y, z] ∧ 50 ≤ x ∧ x ≤ 53 ∧
    48 ≤ y ∧ y ≤ 53 ∧ Bytes.isDigit z = true := by
  unfold goodCodes
  split <;> exact ⟨_, _, _, rfl, by decide, by decide, by decide, by decide, by decide⟩

theorem no_text (text : Bytes) (member : text ∈ (none : Option Bytes).toList ++ []) :
    Bytes.cr ∉ text ∧ Bytes.lf ∉ text := by simp at member

/-- A server that answers with bare codes. -/
def goodServer : Server := fun i => ⟨goodCodes i, [], none, goodCodes_digits i, no_text⟩

/-- Its text can be cut so that the message is refused for good, and so that it
    is to be tried again. -/
theorem segmentation_matters : ¬ goodServer.Independent := by
  obtain ⟨net, cuts, refuses⟩ := canRefuse_cut (canRefuse_of_greeting (s := goodServer)
    (by decide) rfl)
  exact not_independent cuts (.inr refuses)

end EmailServer.Delivery
