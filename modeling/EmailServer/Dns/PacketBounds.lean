import EmailServer.Dns.DnsPacket

/-! # What is read of a packet

A packet announces its parts: names, fixed fields and data. The parser stays inside a packet
that has all of what it announces.
-/

namespace EmailServer.Dns

open EmailServer.Bytes Reader

/-! ## Complete packets -/

/-- From one offset to another there is a name, and what is read of it is in the packet: its
    labels, both bytes of its pointer and the name there. Behind the end of the packet it is
    empty. -/
inductive NameInside (buf : Memory) (len : Nat) : Nat → Nat → Prop where
  | past {off : Nat} : ¬ off < len → NameInside buf len off off
  | root {off : Nat} : off < len → buf off = 0 → NameInside buf len off (off + 1)
  | pointer {off e : Nat} : off + 1 < len → isPointer (buf off) = true →
      NameInside buf len (target (buf off) (buf (off + 1))) e → NameInside buf len off (off + 2)
  | label {off e : Nat} : off + (buf off).toNat < len → buf off ≠ 0 → isPointer (buf off) = false →
      NameInside buf len (off + 1 + (buf off).toNat) e → NameInside buf len off e

/-- The bytes of an address, and the text with its length, are in the packet. -/
def DataInside (buf : Memory) (len : Nat) (type : DnsRecordType) (rdlen : UInt16) (off : Nat) : Prop :=
  if type = DnsRecordType.A ∧ rdlen = 4 then off + 4 ≤ len
  else if type = DnsRecordType.TXT then off + 1 + (buf off).toNat ≤ len
  else True

inductive Questions (buf : Memory) (len : Nat) : Nat → Nat → Nat → Prop where
  | none {off : Nat} : Questions buf len 0 off off
  | question {n off mid e : Nat} : NameInside buf len off mid → Questions buf len n (mid + 4) e →
      Questions buf len (n + 1) off e

/-- Ten bytes follow the name of an answer, and then its data. -/
inductive Answers (buf : Memory) (len : Nat) : Nat → Nat → Nat → Prop where
  | none {off : Nat} : Answers buf len 0 off off
  | answer {n off mid e : Nat} : NameInside buf len off mid → mid + 10 ≤ len →
      DataInside buf len (be16 (buf mid) (buf (mid + 1))) (be16 (buf (mid + 8)) (buf (mid + 9)))
        (mid + 10) →
      Answers buf len n (mid + 10 + (be16 (buf (mid + 8)) (buf (mid + 9))).toNat) e →
      Answers buf len (n + 1) off e

/-- The header and all that it announces are in the packet. -/
def Complete (buf : Memory) (len : Nat) : Prop :=
  12 ≤ len ∧ ∃ off e, Questions buf len (be16 (buf 4) (buf 5)).toNat 12 off ∧
    Answers buf len (be16 (buf 6) (buf 7)).toNat off e

/-! ## Names -/

def Inside (len : Nat) (reads : List Nat) : Prop := ∀ i ∈ reads, i < len

section Inside

variable {len off n : Nat} {reads more : List Nat}

@[simp] theorem inside_nil : Inside len [] := by simp [Inside]

@[simp] theorem inside_cons {i : Nat} : Inside len (i :: reads) ↔ i < len ∧ Inside len reads := by
  simp [Inside]

@[simp] theorem inside_append : Inside len (reads ++ more) ↔ Inside len reads ∧ Inside len more := by
  simp only [Inside, List.mem_append, or_imp, forall_and]

theorem inside_range' : Inside len (List.range' off n) ↔ n = 0 ∨ off + n ≤ len := by
  simp only [Inside, List.mem_range'_1]
  constructor
  · intro inside
    by_cases empty : n = 0
    · exact .inl empty
    · have last := inside (off + n - 1) (by omega)
      exact .inr (by omega)
  · intro fits i member
    omega

end Inside

section Names

variable {buf : Memory} {len off e : Nat} {name v : Bytes} {reads : List Nat}

theorem NameInside.ends (inside : NameInside buf len off e) {e' : Nat}
    (read : ReadsName buf len name off v e' reads) : e' = e := by
  induction inside generalizing name v e' reads with
  | past outside =>
      cases read with
      | past => rfl
      | root inside | pointer inside | label inside => exact absurd inside outside
  | root inside zero =>
      cases read with
      | past outside => exact absurd inside outside
      | root => rfl
      | pointer _ pointer => exact absurd zero (isPointer_ne_zero pointer)
      | label _ nonzero => exact absurd zero nonzero
  | pointer inside pointer _ _ =>
      cases read with
      | past outside => omega
      | root _ zero => exact absurd zero (isPointer_ne_zero pointer)
      | pointer => rfl
      | label _ _ plain => simp [plain] at pointer
  | label inside nonzero plain _ ih =>
      cases read with
      | past outside => omega
      | root _ zero => exact absurd zero nonzero
      | pointer _ pointer => simp [plain] at pointer
      | label _ _ _ there => exact ih there

/-- What is read of a name is in the packet if and only if the name is. -/
theorem name_inside_iff (read : ReadsName buf len name off v e reads) :
    Inside len reads ↔ NameInside buf len off e := by
  induction read with
  | past outside => exact iff_of_true inside_nil (.past outside)
  | root inside zero => exact iff_of_true (by simp [inside]) (.root inside zero)
  | pointer inside pointer there ih =>
      rw [inside_cons, inside_cons, ih]
      constructor
      · rintro ⟨-, second, rest⟩
        exact .pointer second pointer rest
      · intro whole
        cases whole with
        | pointer second _ rest =>
            obtain rfl := rest.ends there
            exact ⟨inside, second, rest⟩
        | label _ _ plain => simp [plain] at pointer
  | label inside nonzero plain _ ih =>
      have positive := toNat_ne_zero nonzero
      rw [inside_cons, inside_append, inside_range', ih]
      constructor
      · rintro ⟨-, fits, rest⟩
        exact .label (by omega) nonzero plain rest
      · intro whole
        cases whole with
        | past outside => exact absurd inside outside
        | root _ zero => exact absurd zero nonzero
        | pointer _ pointer => simp [plain] at pointer
        | label fits _ _ rest => exact ⟨inside, .inr (by omega), rest⟩

end Names

/-! ## Packets -/

section Packets

variable {buf : Memory} {len fuel n off e : Nat} {reads : List Nat}

theorem Questions.ends {e' : Nat} {units : List Unit} (inside : Questions buf len n off e)
    (read : times n (readQuestion fuel buf len) off = some (units, e', reads)) : e' = e := by
  induction inside generalizing units reads with
  | none =>
      cases read
      rfl
  | question name _ ih =>
      obtain ⟨_, mid, first, rest, second, here, later, -, -⟩ := times_succ.mp read
      obtain ⟨v, mid', names, none_, there, ends, -⟩ := bind_some.mp here
      cases ends
      obtain rfl := name.ends (.of_fuel there)
      exact ih later

theorem questions_inside_iff {units : List Unit}
    (read : times n (readQuestion fuel buf len) off = some (units, e, reads)) :
    Inside len reads ↔ Questions buf len n off e := by
  induction n generalizing off units reads with
  | zero =>
      cases read
      exact iff_of_true inside_nil .none
  | succ n ih =>
      obtain ⟨_, mid, first, rest, second, here, later, -, rfl⟩ := times_succ.mp read
      obtain ⟨v, mid', names, none_, there, ends, rfl⟩ := bind_some.mp here
      cases ends
      have name := name_inside_iff (.of_fuel there)
      rw [inside_append, List.append_nil, name, ih later]
      constructor
      · rintro ⟨inside, others⟩
        exact .question inside others
      · intro whole
        cases whole with
        | question inside others =>
            obtain rfl := inside.ends (.of_fuel there)
            exact ⟨inside, others⟩

theorem readData_inside (buf : Memory) (len : Nat) (type : DnsRecordType) (rdlen : UInt16)
    (off : Nat) : ∃ data reads, readData buf type rdlen off = some (data, off, reads) ∧
      (Inside len reads ↔ DataInside buf len type rdlen off) := by
  unfold readData DataInside
  split
  · refine ⟨_, _, rfl, ?_⟩
    simp only [List.cons_append, List.nil_append, List.append_nil, inside_cons, inside_nil, and_true]
    omega
  · split
    · refine ⟨_, _, rfl, ?_⟩
      simp only [List.cons_append, List.nil_append, inside_cons, inside_range', Nat.add_zero]
      omega
    · exact ⟨_, _, rfl, iff_of_true inside_nil trivial⟩

theorem answers_inside_iff {answers : List DnsAnswer}
    (read : times n (readAnswer fuel buf len) off = some (answers, e, reads)) :
    Inside len reads ↔ ∃ e, Answers buf len n off e := by
  induction n generalizing off answers reads with
  | zero =>
      cases read
      exact iff_of_true inside_nil ⟨_, .none⟩
  | succ n ih =>
      obtain ⟨answer, next, first, rest, second, here, later, -, rfl⟩ := times_succ.mp read
      obtain ⟨v, mid, names, fields, there, fixed, rfl⟩ := bind_some.mp here
      obtain ⟨data, dataReads, dataRead, dataInside⟩ := readData_inside buf len
        (be16 (buf mid) (buf (mid + 1))) (be16 (buf (mid + 8)) (buf (mid + 9))) (mid + 10)
      -- the fixed fields and the data
      obtain ⟨rfl, fieldsInside⟩ :
          next = mid + 10 + (be16 (buf (mid + 8)) (buf (mid + 9))).toNat ∧
            (Inside len fields ↔ mid + 10 ≤ len ∧ DataInside buf len
              (be16 (buf mid) (buf (mid + 1))) (be16 (buf (mid + 8)) (buf (mid + 9))) (mid + 10)) := by
        have type : read16 buf mid = some (be16 (buf mid) (buf (mid + 1)), mid + 2, [mid, mid + 1]) :=
          rfl
        have class_ : advance 2 (mid + 2) = some ((), mid + 4, []) := rfl
        have ttl : ∃ ttl, read32 buf (mid + 4) =
            some (ttl, mid + 8, [mid + 4, mid + 5, mid + 6, mid + 7]) := ⟨_, rfl⟩
        obtain ⟨ttl, ttl'⟩ := ttl
        have rdlen : read16 buf (mid + 8) =
            some (be16 (buf (mid + 8)) (buf (mid + 9)), mid + 10, [mid + 8, mid + 9]) := rfl
        rw [bind_ran type, bind_ran class_, bind_ran ttl', bind_ran rdlen, bind_ran dataRead,
          bind_ran rfl] at fixed
        cases fixed
        refine ⟨rfl, ?_⟩
        simp only [List.cons_append, List.nil_append, List.append_nil, inside_cons, dataInside]
        constructor
        · rintro ⟨_, _, _, _, _, _, _, last, data⟩
          exact ⟨by omega, data⟩
        · rintro ⟨fits, data⟩
          refine ⟨?_, ?_, ?_, ?_, ?_, ?_, ?_, ?_, data⟩ <;> omega
      have name := name_inside_iff (.of_fuel there)
      rw [inside_append, inside_append, name, fieldsInside, ih later]
      constructor
      · rintro ⟨⟨inside, fixed, data⟩, e, others⟩
        exact ⟨e, .answer inside fixed data others⟩
      · rintro ⟨e, whole⟩
        cases whole with
        | answer inside fixed data others =>
            obtain rfl := inside.ends (.of_fuel there)
            exact ⟨⟨inside, fixed, data⟩, e, others⟩

end Packets

/-- On a packet on which it ends, the parser reads nothing outside if and only if the packet is
    complete. -/
theorem parse_inside_iff {fuel : Nat} {buf : Memory} {len : Nat} {pkt : DnsPacket} {e : Nat}
    {reads : List Nat} (ends : parseDnsResponse fuel buf len 0 = some (pkt, e, reads)) :
    Inside len reads ↔ Complete buf len := by
  have header : ∀ off, read16 buf off = some (be16 (buf off) (buf (off + 1)), off + 2, [off, off + 1]) :=
    fun _ => rfl
  rw [parseDnsResponse, bind_ran (header 0), bind_ran (header 2), bind_ran (header 4),
    bind_ran (header 6), bind_ran (header 8), bind_ran (header 10)] at ends
  simp only [Option.map_eq_some_iff] at ends
  obtain ⟨_, ⟨_, ⟨_, ⟨_, ⟨_, ⟨⟨pkt', e', body⟩, parts, rfl⟩, rfl⟩, rfl⟩, rfl⟩, rfl⟩, same⟩ := ends
  cases same
  obtain ⟨units, mid, first, second, questions, remaining, rfl⟩ := bind_some.mp parts
  obtain ⟨answers, e', more, none_, answered, ends, rfl⟩ := bind_some.mp remaining
  cases ends
  have questionsInside := questions_inside_iff questions
  have answersInside := answers_inside_iff answered
  simp only [List.cons_append, List.nil_append, List.append_nil, inside_cons, inside_append,
    questionsInside, answersInside]
  constructor
  · rintro ⟨_, _, _, _, _, _, _, _, _, _, _, last, inside, e, others⟩
    exact ⟨by omega, mid, e, inside, others⟩
  · rintro ⟨fits, off, e, inside, others⟩
    obtain rfl := inside.ends questions
    refine ⟨?_, ?_, ?_, ?_, ?_, ?_, ?_, ?_, ?_, ?_, ?_, ?_, inside, e, others⟩ <;> omega

theorem answering_complete : Complete (packet (answering pointerName)) 35 := by
  have named : NameInside (packet (answering pointerName)) 35 12 15 :=
    .label (by decide) (by decide) (by decide) (.root (by decide) (by decide))
  have address : DataInside (packet (answering pointerName)) 35 DnsRecordType.A 4 31 := by
    rw [DataInside, if_pos ⟨rfl, rfl⟩]
  exact ⟨by decide, 19, 35, .question named .none,
    .answer (.pointer (by decide) (by decide) named) (by decide) address .none⟩

/-- All that is read of it is in the packet, and not in one that is a byte shorter. -/
theorem parse_inside_iff_answered : ∃ pkt e reads,
    parseDnsResponse 5 (packet (answering pointerName)) 35 0 = some (pkt, e, reads) ∧
      pkt.answers.length = 1 ∧ Inside 35 reads ∧ ¬ Inside 34 reads := by
  have ends : ∃ pkt e reads, parseDnsResponse 5 (packet (answering pointerName)) 35 0 =
      some (pkt, e, reads) ∧ pkt.answers.length = 1 ∧ 34 ∈ reads := ⟨_, _, _, rfl, by decide, by decide⟩
  obtain ⟨pkt, e, reads, parsed, one, last⟩ := ends
  exact ⟨pkt, e, reads, parsed, one, (parse_inside_iff parsed).mpr answering_complete,
    fun inside => Nat.lt_irrefl 34 (inside 34 last)⟩

/-- Nothing has been received, and twelve bytes are read. -/
theorem empty_packet_read : ∃ pkt e reads,
    parseDnsResponse 1 (fun _ => 0) 0 0 = some (pkt, e, reads) ∧ ¬ Inside 0 reads := by
  refine ⟨_, _, _, rfl, fun inside => ?_⟩
  exact absurd (inside 0 (by decide)) (by decide)

end EmailServer.Dns
