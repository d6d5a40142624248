import EmailServer.Dns.DnsPacket

/-! # What is left of a response

A name whose labels go on behind a pointer loses the dot between them, and of the strings of a
text record the first is taken. Everything else in a well-formed response is decoded.
-/

namespace EmailServer.Dns

open EmailServer.Bytes Reader

/-! ## Responses as they are encoded -/

/-- The bytes from an offset on. -/
def At (buf : Memory) (off : Nat) (bytes : Bytes) : Prop :=
  (List.range' off bytes.length).map buf = bytes

instance (buf : Memory) (off : Nat) (bytes : Bytes) : Decidable (At buf off bytes) :=
  inferInstanceAs (Decidable (_ = _))

/-- A name: the labels up to the first pointer, those behind it, and so on, and where the name
ends. A pointer leads back. -/
inductive WireName (buf : Memory) (len : Nat) : Nat → List (List Bytes) → Nat → Prop
  | root {off} : off < len → buf off = 0 → WireName buf len off [[]] (off + 1)
  | label {off l part parts e} : 0 < l.length → l.length ≤ 63 → off + 1 + l.length ≤ len →
      buf off = l.length.toUInt8 → At buf (off + 1) l →
      WireName buf len (off + 1 + l.length) (part :: parts) e →
      WireName buf len off ((l :: part) :: parts) e
  | pointer {off parts e} : off + 1 < len → isPointer (buf off) = true →
      target (buf off) (buf (off + 1)) < off →
      WireName buf len (target (buf off) (buf (off + 1))) parts e →
      WireName buf len off ([] :: parts) (off + 2)

/-- The data of an address, or of a text of one string or more. -/
inductive RData where
  | a (b0 b1 b2 b3 : UInt8)
  | txt (first : Bytes) (more : List Bytes)
  deriving DecidableEq

namespace RData

def type : RData → DnsRecordType
  | .a .. => DnsRecordType.A
  | .txt .. => DnsRecordType.TXT

/-- A string with its length in front. -/
def string (s : Bytes) : Bytes := s.length.toUInt8 :: s

def wire : RData → Bytes
  | .a b0 b1 b2 b3 => [b0, b1, b2, b3]
  | .txt first more => (first :: more).flatMap string

def text : RData → Bytes
  | .a b0 b1 b2 b3 => dottedQuad b0 b1 b2 b3
  | .txt first more => (first :: more).flatten

def Valid : RData → Prop
  | .a .. => True
  | .txt first more => ∀ s ∈ first :: more, s.length < 256

/-- The first string has all of the text. -/
def Single : RData → Prop
  | .a .. => True
  | .txt _ more => ∀ s ∈ more, s = []

end RData

/-- A record, with the labels of its name as they are encoded. -/
structure Record where
  parts : List (List Bytes)
  ttl : UInt32
  data : RData
  deriving DecidableEq

/-- Four bytes as a number. -/
def be32 (a b c d : UInt8) : UInt32 :=
  (a.toUInt32 <<< 24) ||| (b.toUInt32 <<< 16) ||| (c.toUInt32 <<< 8) ||| d.toUInt32

/-- The record stands at an offset, and its name ends at `mid`. -/
structure WireRecord (buf : Memory) (len : Nat) (off : Nat) (r : Record) (mid : Nat) : Prop where
  name : WireName buf len off r.parts mid
  type : be16 (buf mid) (buf (mid + 1)) = r.data.type
  ttl : be32 (buf (mid + 4)) (buf (mid + 5)) (buf (mid + 6)) (buf (mid + 7)) = r.ttl
  rdlength : (be16 (buf (mid + 8)) (buf (mid + 9))).toNat = r.data.wire.length
  valid : r.data.Valid
  data : At buf (mid + 10) r.data.wire
  fits : mid + 10 + r.data.wire.length ≤ len

inductive WireRecords (buf : Memory) (len : Nat) : Nat → List Record → Nat → Prop
  | nil {off} : WireRecords buf len off [] off
  | cons {off r mid records e} : WireRecord buf len off r mid →
      WireRecords buf len (mid + 10 + r.data.wire.length) records e →
      WireRecords buf len off (r :: records) e

inductive WireQuestions (buf : Memory) (len : Nat) : Nat → Nat → Nat → Prop
  | nil {off} : WireQuestions buf len off 0 off
  | cons {off parts mid n e} : WireName buf len off parts mid → mid + 4 ≤ len →
      WireQuestions buf len (mid + 4) n e → WireQuestions buf len off (n + 1) e

/-- A response with these answers. What is behind them may be anything. -/
structure Response (buf : Memory) (len : Nat) (records : List Record) : Prop where
  header : 12 ≤ len
  answers : (be16 (buf 6) (buf 7)).toNat = records.length
  body : ∃ off e, WireQuestions buf len 12 (be16 (buf 4) (buf 5)).toNat off ∧
    WireRecords buf len off records e

/-! ## What should be decoded, and what is -/

/-- Labels with dots between them. -/
def dotted (labels : List Bytes) : Bytes := [dot].intercalate labels

/-- The parts that have labels. -/
def labelled (parts : List (List Bytes)) : List (List Bytes) := parts.filter fun part => !part.isEmpty

def Record.answer (r : Record) : DnsAnswer where
  name := dotted r.parts.flatten
  type := r.data.type
  ttl := r.ttl
  data := r.data.text

/-- The data that are taken. -/
def RData.taken : RData → Bytes
  | .a b0 b1 b2 b3 => dottedQuad b0 b1 b2 b3
  | .txt first _ => first

/-- Each part of the name has its dots, and there are none between the parts. -/
def Record.decoded (r : Record) : DnsAnswer where
  name := r.parts.flatMap dotted
  type := r.data.type
  ttl := r.ttl
  data := r.data.taken

section Names

variable {buf : Memory} {len off e : Nat} {name l : Bytes} {labels part : List Bytes}
  {parts : List (List Bytes)}

theorem WireName.valid (wire : WireName buf len off parts e) :
    ∀ part ∈ parts, ∀ l ∈ part, l ≠ [] := by
  induction wire with
  | root => simp
  | label positive _ _ _ _ _ ih =>
      obtain ⟨here, later⟩ := List.forall_mem_cons.mp ih
      refine List.forall_mem_cons.mpr ⟨List.forall_mem_cons.mpr ⟨?_, here⟩, later⟩
      exact List.ne_nil_of_length_pos positive
  | pointer _ _ _ _ ih => exact List.forall_mem_cons.mpr ⟨by simp, ih⟩

theorem foldl_addLabel (begun : name ≠ []) :
    labels.foldl addLabel name = name ++ labels.flatMap (dot :: ·) := by
  induction labels generalizing name with
  | nil => simp
  | cons l labels ih =>
      rw [List.foldl_cons, addLabel, if_pos begun, ih (by simp)]
      simp

theorem dotted_cons : dotted (l :: labels) = l ++ labels.flatMap (dot :: ·) := by
  induction labels generalizing l with
  | nil => simp [dotted, List.intercalate]
  | cons l' labels ih =>
      rw [dotted, List.intercalate_cons_cons]
      change l ++ [dot] ++ dotted (l' :: labels) = _
      rw [ih]
      simp

theorem foldl_addLabel_nil (valid : ∀ l ∈ labels, l ≠ []) :
    labels.foldl addLabel [] = dotted labels := by
  cases labels with
  | nil => rfl
  | cons l labels =>
      have nonempty := valid l List.mem_cons_self
      have first : addLabel [] l = l := rfl
      rw [List.foldl_cons, first, foldl_addLabel nonempty, dotted_cons]

/-- The loop on a name that has been begun. -/
def nameRead (name : Bytes) : List (List Bytes) → Bytes
  | [] => name
  | part :: parts => part.foldl addLabel name ++ parts.flatMap dotted

theorem label_plain {n : Nat} (short : n ≤ 63) :
    isPointer n.toUInt8 = false ∧ n.toUInt8.toNat = n ∧ (0 < n → n.toUInt8 ≠ 0) := by
  have all : ∀ m : Fin 64, isPointer m.val.toUInt8 = false ∧ m.val.toUInt8.toNat = m.val ∧
      (0 < m.val → m.val.toUInt8 ≠ 0) := by decide
  exact all ⟨n, by omega⟩

theorem nameRead_nil (valid : ∀ part ∈ parts, ∀ l ∈ part, l ≠ []) :
    nameRead [] parts = parts.flatMap dotted := by
  cases parts with
  | nil => rfl
  | cons part parts =>
      rw [nameRead, foldl_addLabel_nil (valid part List.mem_cons_self), List.flatMap_cons]

/-- Enough fuel reads the name to its end. -/
theorem WireName.settles (wire : WireName buf len off parts e) :
    Settles (fun fuel => readName buf len fuel name) off (nameRead name parts) e := by
  induction wire generalizing name with
  | @root off inside zero =>
      have there : Settles (fun _ => pure name) off name off := .of_ran ⟨[], rfl⟩
      refine there.round fun fuel _ _ => ?_
      have round := @readName_succ buf len fuel name off
      rw [if_pos inside, if_pos zero] at round
      exact ⟨[off], by simpa [nameRead] using round⟩
  | @label off l part parts e positive short fits count bytes _ ih =>
      obtain ⟨plain, whole, nonzero⟩ := label_plain short
      have block : (List.range' (off + 1) l.length).map buf = l := bytes
      refine Settles.round (@ih (addLabel name l)) fun fuel reads read => ?_
      have round := @readName_succ buf len fuel name off
      rw [if_pos (by omega), count, if_neg (nonzero positive), if_neg (by simp [plain]), whole, block,
        read] at round
      exact ⟨_, round⟩
  | @pointer off parts e inside pointer _ wire ih =>
      have rest : nameRead [] parts = parts.flatMap dotted := nameRead_nil wire.valid
      refine Settles.round (@ih []) fun fuel reads read => ?_
      have round := @readName_succ buf len fuel name off
      rw [if_pos (by omega), if_neg (isPointer_ne_zero pointer), if_pos pointer, read, rest] at round
      exact ⟨_, round⟩

/-- The bytes of labels with a dot for each. -/
def weight (labels : List Bytes) : Nat := (labels.map (·.length + 1)).sum

theorem length_flatMap_dot : (labels.flatMap (dot :: ·)).length = weight labels := by
  simp [weight, List.length_flatMap]

theorem length_dotted : (dotted labels).length = weight labels - 1 := by
  cases labels with
  | nil => rfl
  | cons l labels =>
      rw [dotted_cons, List.length_append, length_flatMap_dot]
      simp only [weight, List.map_cons, List.sum_cons]
      omega

theorem labelled_cons : labelled ((l :: part) :: parts) = (l :: part) :: labelled parts := rfl

theorem weight_parts :
    (parts.flatMap dotted).length + (labelled parts).length = weight parts.flatten := by
  induction parts with
  | nil => rfl
  | cons part parts ih =>
      have both : weight (part ++ parts.flatten) = weight part + weight parts.flatten := by
        simp [weight]
      rw [List.flatMap_cons, List.length_append, List.flatten_cons, both, ← ih, length_dotted]
      cases part with
      | nil => simp [weight, labelled]
      | cons l part =>
          rw [labelled_cons, List.length_cons, weight, List.map_cons, List.sum_cons]
          omega

/-- The name is decoded exactly if at most one of its parts has labels. -/
theorem dotted_parts_iff :
    parts.flatMap dotted = dotted parts.flatten ↔ (labelled parts).length ≤ 1 := by
  constructor
  · intro same
    have lengths := congrArg List.length same
    have weights := @weight_parts parts
    rw [length_dotted] at lengths
    omega
  · intro few
    induction parts with
    | nil => rfl
    | cons part parts ih =>
        cases part with
        | nil => exact ih few
        | cons l part =>
            rw [labelled_cons, List.length_cons] at few
            have none_ : labelled parts = [] := List.eq_nil_of_length_eq_zero (by omega)
            have empty : ∀ part ∈ parts, part = [] := by
              intro part member
              by_contra nonempty
              have there : part ∈ labelled parts := List.mem_filter.mpr ⟨member, by simpa using nonempty⟩
              rw [none_] at there
              cases there
            have flat : parts.flatten = [] := List.flatten_eq_nil_iff.mpr empty
            have rest : parts.flatMap dotted = [] :=
              List.flatMap_eq_nil_iff.mpr fun part member => by rw [empty part member]; rfl
            rw [List.flatMap_cons, List.flatten_cons, flat, rest, List.append_nil, List.append_nil]

end Names

section Records

variable {buf : Memory} {len off mid e n : Nat} {r : Record} {records : List Record}

theorem At.append {xs ys : Bytes} :
    At buf off (xs ++ ys) ↔ At buf off xs ∧ At buf (off + xs.length) ys := by
  have lengths : (List.range' off (xs ++ ys).length) =
      List.range' off xs.length ++ List.range' (off + xs.length) ys.length := by
    rw [List.length_append, List.range'_append_1]
  rw [At, lengths, List.map_append]
  constructor
  · intro same
    exact List.append_inj same (by simp)
  · rintro ⟨first, second⟩
    rw [At] at first second
    rw [first, second]

theorem readData_settles (type : be16 (buf mid) (buf (mid + 1)) = r.data.type)
    (rdlength : (be16 (buf (mid + 8)) (buf (mid + 9))).toNat = r.data.wire.length)
    (valid : r.data.Valid) (data : At buf (mid + 10) r.data.wire) :
    ∃ reads, readData buf (be16 (buf mid) (buf (mid + 1))) (be16 (buf (mid + 8)) (buf (mid + 9)))
      (mid + 10) = some (r.data.taken, mid + 10, reads) := by
  rw [type]
  cases kind : r.data with
  | a b0 b1 b2 b3 =>
      rw [kind] at rdlength data
      have four : be16 (buf (mid + 8)) (buf (mid + 9)) = 4 := UInt16.toNat_inj.mp rdlength
      have bytes : buf (mid + 10) = b0 ∧ buf (mid + 11) = b1 ∧ buf (mid + 12) = b2 ∧
          buf (mid + 13) = b3 := by
        simpa [At, RData.wire, List.range'_succ] using data
      rw [readData, if_pos ⟨rfl, four⟩, ← bytes.1, ← bytes.2.1, ← bytes.2.2.1, ← bytes.2.2.2]
      exact ⟨_, rfl⟩
  | txt first more =>
      rw [kind] at data valid
      have short : first.length.toUInt8.toNat = first.length :=
        UInt8.toNat_ofNat_of_lt' (valid first List.mem_cons_self)
      have whole : RData.wire (.txt first more) =
          [first.length.toUInt8] ++ (first ++ more.flatMap RData.string) := by
        simp [RData.wire, RData.string]
      rw [whole, At.append, At.append] at data
      obtain ⟨count, bytes, -⟩ := data
      have length_ : buf (mid + 10) = first.length.toUInt8 := by simpa [At] using count
      have different : DnsRecordType.TXT ≠ DnsRecordType.A := by decide
      have notA : ¬ ((RData.txt first more).type = DnsRecordType.A ∧
          be16 (buf (mid + 8)) (buf (mid + 9)) = 4) := fun isA => different isA.1
      have isTxt : (RData.txt first more).type = DnsRecordType.TXT := rfl
      have sl : peek buf 0 (mid + 10) = some (first.length.toUInt8, mid + 10, [mid + 10]) := by
        rw [← length_]
        rfl
      rw [readData, if_neg notA, if_pos isTxt, bind_ran sl, short]
      have text : (List.range' (mid + 10 + 1) first.length).map buf = first := bytes
      have block : peekBlock buf 1 first.length (mid + 10) =
          some (first, mid + 10, List.range' (mid + 10 + 1) first.length) := by
        rw [peekBlock, text]
      rw [block]
      exact ⟨_, rfl⟩

theorem RData.taken_iff {data : RData} : data.taken = data.text ↔ data.Single := by
  cases data with
  | a => exact iff_of_true rfl trivial
  | txt first more =>
      change first = first ++ more.flatten ↔ ∀ s ∈ more, s = []
      rw [← List.flatten_eq_nil_iff, eq_comm, List.append_right_eq_self]

/-- A record that is decoded as it should be. -/
def Record.Plain (r : Record) : Prop := (labelled r.parts).length ≤ 1 ∧ r.data.Single

theorem Record.decoded_iff : r.decoded = r.answer ↔ r.Plain := by
  rw [Record.Plain, ← dotted_parts_iff, ← RData.taken_iff]
  simp [Record.decoded, Record.answer]

theorem WireRecord.settles (wire : WireRecord buf len off r mid) :
    Settles (fun fuel => readAnswer fuel buf len) off r.decoded (mid + 10 + r.data.wire.length) := by
  have name : nameRead [] r.parts = r.parts.flatMap dotted := nameRead_nil wire.name.valid
  obtain ⟨dataReads, data⟩ := readData_settles wire.type wire.rdlength wire.valid wire.data
  have type : read16 buf mid = some (be16 (buf mid) (buf (mid + 1)), mid + 2, [mid, mid + 1]) := rfl
  have class_ : advance 2 (mid + 2) = some ((), mid + 4, []) := rfl
  have ttl : read32 buf (mid + 4) =
      some (be32 (buf (mid + 4)) (buf (mid + 5)) (buf (mid + 6)) (buf (mid + 7)), mid + 8,
        [mid + 4, mid + 5, mid + 6, mid + 7]) := rfl
  have rdlen : read16 buf (mid + 8) =
      some (be16 (buf (mid + 8)) (buf (mid + 9)), mid + 10, [mid + 8, mid + 9]) := rfl
  have first : Settles (fun fuel => readName buf len fuel []) off (nameRead [] r.parts) mid :=
    wire.name.settles
  refine first.bind (.of_ran ?_)
  rw [bind_ran type, bind_ran class_, bind_ran ttl, bind_ran rdlen, bind_ran data, bind_ran rfl, name,
    wire.type, wire.ttl, wire.rdlength]
  exact ⟨_, rfl⟩

theorem WireRecords.settles (wire : WireRecords buf len off records e) :
    Settles (fun fuel => times records.length (readAnswer fuel buf len)) off
      (records.map Record.decoded) e := by
  induction wire with
  | nil => exact .times_zero
  | cons record _ ih => exact record.settles.times_succ ih

theorem WireQuestions.settles (wire : WireQuestions buf len off n e) :
    Settles (fun fuel => times n (readQuestion fuel buf len)) off (List.replicate n ()) e := by
  induction wire with
  | nil => exact .times_zero
  | @cons off parts mid n e name _ _ ih =>
      have first : Settles (fun fuel => readName buf len fuel []) off (nameRead [] parts) mid :=
        name.settles
      have question := first.bind (f := fun _ _ => advance 4) (.of_ran ⟨[], rfl⟩)
      exact question.times_succ ih

/-- With enough fuel a response is read, and its answers are the records as they are decoded. -/
theorem Response.settles (response : Response buf len records) : ∃ e,
    Settles (fun fuel => parseDnsResponse fuel buf len) 0
      ⟨be16 (buf 0) (buf 1), be16 (buf 2) (buf 3) &&& 0x000F, records.map Record.decoded⟩ e := by
  obtain ⟨off, e, questions, answers⟩ := response.body
  have header : ∀ off, read16 buf off =
      some (be16 (buf off) (buf (off + 1)), off + 2, [off, off + 1]) := fun _ => rfl
  refine ⟨e, ?_⟩
  unfold parseDnsResponse
  refine Settles.bind (.of_ran ⟨_, header 0⟩) ?_
  refine Settles.bind (.of_ran ⟨_, header 2⟩) ?_
  refine Settles.bind (.of_ran ⟨_, header 4⟩) ?_
  refine Settles.bind (.of_ran ⟨_, header 6⟩) ?_
  refine Settles.bind (.of_ran ⟨_, header 8⟩) ?_
  refine Settles.bind (.of_ran ⟨_, header 10⟩) ?_
  rw [response.answers]
  exact questions.settles.bind (answers.settles.bind (.of_ran ⟨[], rfl⟩))

/-- With enough fuel a response is decoded as it should be exactly if of each name at most one part
has labels, and of each text the strings behind the first are empty. -/
theorem response_decoded_iff (response : Response buf len records) :
    ∃ n, ∀ fuel, n ≤ fuel → ∃ pkt e reads,
      parseDnsResponse fuel buf len 0 = some (pkt, e, reads) ∧
        (pkt.answers = records.map Record.answer ↔ ∀ r ∈ records, r.Plain) := by
  obtain ⟨e, n, settles⟩ := response.settles
  refine ⟨n, fun fuel enough => ?_⟩
  obtain ⟨reads, parsed⟩ := settles fuel enough
  refine ⟨_, e, reads, parsed, ?_⟩
  rw [List.map_inj_left]
  exact forall₂_congr fun r _ => Record.decoded_iff

end Records

/-! ## A response to a question about an address -/

def addressOf (parts : List (List Bytes)) : Record := ⟨parts, 9, .a 1 2 3 4⟩

theorem question_name {name : Bytes} (len : Nat) (long : 15 ≤ len) :
    WireName (packet (answering name)) len 12 [[ascii "a"]] 15 :=
  .label (l := ascii "a") (by decide) (by decide) (by simp [ascii]; omega) rfl rfl
    (.root (by simp [ascii]; omega) rfl)

theorem pointer_response : Response (packet (answering pointerName)) 35 [addressOf [[], [ascii "a"]]] where
  header := by decide
  answers := by decide
  body := by
    refine ⟨19, _, .cons (question_name 35 (by decide)) (by decide) .nil, @WireRecords.cons _ _ _ _ 21 _ _ ?_ .nil⟩
    exact ⟨.pointer (by decide) (by decide) (by decide) (question_name 35 (by decide)), by decide,
      by decide, by decide, trivial, by decide, by decide⟩

/-- A name that is a pointer is decoded. -/
theorem pointer_decoded : ∃ fuel pkt e reads,
    parseDnsResponse fuel (packet (answering pointerName)) 35 0 = some (pkt, e, reads) ∧
      pkt.answers = [⟨ascii "a", DnsRecordType.A, 9, ascii "1.2.3.4"⟩] := by
  obtain ⟨n, decoded⟩ := response_decoded_iff pointer_response
  obtain ⟨pkt, e, reads, parsed, exactly⟩ := decoded n (Nat.le_refl n)
  refine ⟨n, pkt, e, reads, parsed, (exactly.mpr ?_).trans (by decide)⟩
  intro r member
  obtain rfl := List.mem_singleton.mp member
  exact ⟨by decide, trivial⟩

/-- `www` and a pointer to `a`. -/
def prefixedName : Bytes := 3 :: ascii "www" ++ pointerName

/-- The name `www.a` is decoded as `wwwa`. -/
theorem prefixed_decoded :
    Response (packet (answering prefixedName)) 39 [addressOf [[ascii "www"], [ascii "a"]]] ∧
      (addressOf [[ascii "www"], [ascii "a"]]).answer.name = ascii "www.a" ∧
      (parseDnsResponse 5 (packet (answering prefixedName)) 39 0).map (·.1.answers) =
        some [⟨ascii "wwwa", DnsRecordType.A, 9, ascii "1.2.3.4"⟩] := by
  refine ⟨⟨by decide, by decide, 19, _,
    .cons (question_name 39 (by decide)) (by decide) .nil, @WireRecords.cons _ _ _ _ 25 _ _ ?_ .nil⟩, by decide,
    by decide⟩
  refine ⟨.label (l := ascii "www") (by decide) (by decide) (by decide) (by decide) (by decide) ?_,
    by decide, by decide, by decide, trivial, by decide, by decide⟩
  exact .pointer (by decide) (by decide) (by decide) (question_name 39 (by decide))

end EmailServer.Dns
