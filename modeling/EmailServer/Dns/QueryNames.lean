import EmailServer.Dns.DnsResolver

/-! # The name in a query

A query has a zero in the place of each dot, and no lengths. The parser takes the first byte
of every label for a length.
-/

namespace EmailServer.Dns

open EmailServer.Bytes

/-- Labels that are joined by dots. -/
structure DomainName where
  labels : List Bytes
  nonempty : labels ≠ []
  valid : ∀ l ∈ labels, 0 < l.length ∧ l.length ≤ 63 ∧ dot ∉ l

def DomainName.text (d : DomainName) : Bytes := [dot].intercalate d.labels

/-- The parser reads the name of a query back, whatever the identifier is and whatever is
    behind the packet, and stops before the type. -/
def Decoded (name : Bytes) (type : UInt16) : Prop :=
  ∀ id0 id1 buf, Holds buf (buildQuery id0 id1 name type) → ∃ fuel reads,
    readName buf (buildQuery id0 id1 name type).length fuel [] 12 =
      some (name, (buildQuery id0 id1 name type).length - 4, reads)

section Walk

variable {buf : Memory} {max : Nat} {acc v rest : Bytes} {off e : Nat} {reads : List Nat}

/-- How a walk along labels ends that has come to `stop` with `walked` bytes of a name: the
    offset behind it, and the length of the name. -/
inductive WalkEnd (buf : Memory) (max stop walked : Nat) : Nat → Nat → Prop where
  | past : ¬ stop < max → WalkEnd buf max stop walked stop walked
  | root : WalkEnd buf max stop walked (stop + 1) walked
  | pointer {rest : Bytes} {e : Nat} {reads : List Nat} : isPointer (buf stop) = true →
      ReadsName buf max [] (target (buf stop) (buf (stop + 1))) rest e reads →
      WalkEnd buf max stop walked (stop + 2) (walked + rest.length)

/-- Behind the first label, every byte that is walked over is one byte of the name: a dot for
    each length. -/
theorem ReadsName.walk (read : ReadsName buf max acc off v e reads) (started : acc ≠ []) :
    acc <+: v ∧ ∃ k, (0 < k → acc ++ [dot] <+: v) ∧
      WalkEnd buf max (off + k) (acc.length + k) e v.length := by
  induction read with
  | past outside => exact ⟨List.prefix_rfl, 0, by simp, .past outside⟩
  | root => exact ⟨List.prefix_rfl, 0, by simp, .root⟩
  | pointer _ pointer there _ =>
      refine ⟨List.prefix_append _ _, 0, by simp, ?_⟩
      rw [List.length_append]
      exact .pointer pointer there
  | label _ _ _ _ ih =>
      rename_i acc v off e reads _ _ _ _
      have longer : addLabel acc ((List.range' (off + 1) (buf off).toNat).map buf) =
          acc ++ [dot] ++ (List.range' (off + 1) (buf off).toNat).map buf := by
        rw [addLabel, if_pos started]
      rw [longer] at ih
      obtain ⟨begins, k, -, ends⟩ := ih (by simp)
      have dotted : acc ++ [dot] <+: v := (List.prefix_append _ _).trans begins
      refine ⟨(List.prefix_append _ _).trans dotted, 1 + (buf off).toNat + k, fun _ => dotted, ?_⟩
      have stop : off + (1 + (buf off).toNat + k) = off + 1 + (buf off).toNat + k := by omega
      have walked : acc.length + (1 + (buf off).toNat + k) =
          (acc ++ [dot] ++ (List.range' (off + 1) (buf off).toNat).map buf).length + k := by
        simp only [List.length_append, List.length_singleton, List.length_map, List.length_range']
        omega
      rw [stop, walked]
      exact ends

/-- A pointer whose second byte is zero leads to the first byte of the packet or far behind it. -/
theorem pointer_nothing {len : UInt8} (first : buf 0 = 0) (short : max ≤ 256)
    (read : ReadsName buf max [] (target len 0) rest e reads) : rest = [] := by
  have place : target len 0 = (len &&& 0x3F).toNat * 256 := by
    rw [target, UInt8.toNat_zero, Nat.or_zero, Nat.shiftLeft_eq]
  rw [place] at read
  rcases Nat.eq_zero_or_pos (len &&& 0x3F).toNat with zero | positive
  · rw [zero, Nat.zero_mul] at read
    cases read with
    | past | root => rfl
    | pointer _ pointer => exact absurd first (isPointer_ne_zero pointer)
    | label _ nonzero => exact absurd first nonzero
  · have outside : ¬ (len &&& 0x3F).toNat * 256 < max := by omega
    cases read with
    | past => rfl
    | root inside | pointer inside | label inside => exact absurd inside outside

end Walk

section Query

variable {d : DomainName} {buf : Memory} {name : Bytes} {type : UInt16} {id0 id1 : UInt8} {i : Nat}

theorem Holds.get {bytes : Bytes} {c : UInt8} (holds : Holds buf bytes) (there : bytes[i]? = some c) :
    buf i = c := by
  obtain ⟨within, rfl⟩ := List.getElem?_eq_some_iff.mp there
  exact holds i within

theorem buildQuery_length : (buildQuery id0 id1 name type).length = name.length + 17 := by
  simp [buildQuery]

theorem query_first (holds : Holds buf (buildQuery id0 id1 name type)) : buf 0 = id0 :=
  holds.get rfl

theorem query_byte (holds : Holds buf (buildQuery id0 id1 name type)) {c : UInt8}
    (there : name[i]? = some c) : buf (12 + i) = if c = dot then 0 else c := by
  have within := (List.getElem?_eq_some_iff.mp there).1
  refine holds.get ?_
  rw [buildQuery, List.append_assoc, List.getElem?_append_right (by simp),
    List.getElem?_append_left (by simpa using within)]
  simp [there]

theorem query_root (holds : Holds buf (buildQuery id0 id1 name type)) :
    buf (12 + name.length) = 0 := by
  refine holds.get ?_
  rw [buildQuery, List.append_assoc, List.getElem?_append_right (by simp),
    List.getElem?_append_right (by simp)]
  simp

theorem DomainName.first_label (d : DomainName) : ∃ l rest, d.text = l ++ rest ∧ 0 < l.length ∧
    l.length ≤ 63 ∧ dot ∉ l ∧ (rest = [] ∨ rest.head? = some dot) := by
  obtain ⟨l, labels, split⟩ := List.exists_cons_of_ne_nil d.nonempty
  obtain ⟨positive, short, clean⟩ := d.valid l (by simp [split])
  rw [text, split]
  cases labels with
  | nil => exact ⟨l, [], by simp [List.intercalate], positive, short, clean, .inl rfl⟩
  | cons next labels =>
      exact ⟨l, _, by rw [List.intercalate_cons_cons, List.append_assoc], positive, short, clean, .inr rfl⟩

/-- The bytes of a name that begins with equal bytes other than a dot are in its first label. -/
theorem DomainName.run_length (d : DomainName) {c : UInt8} {n : Nat} (other : c ≠ dot)
    (run : ∀ j ≤ n, d.text[j]? = some c) : n < 63 := by
  obtain ⟨l, rest, split, -, short, clean, ends⟩ := d.first_label
  by_contra long
  have there := run l.length (by omega)
  rw [split, List.getElem?_append_right (le_refl _), Nat.sub_self, ← List.head?_eq_getElem?] at there
  rcases ends with rfl | dotted
  · cases there
  · rw [dotted] at there
    exact other (Option.some.inj there).symm

/-- A first label that is read back consists of its length, again and again. -/
theorem label_repeats (holds : Holds buf (buildQuery id0 id1 name type)) {c : UInt8}
    (first : name[0]? = some c) (nonzero : c ≠ 0) (fits : c.toNat < name.length)
    (begins : (List.range' 13 c.toNat).map buf <+: name) : ∀ j ≤ c.toNat, name[j]? = some c := by
  intro j below
  induction j with
  | zero => exact first
  | succ j ih =>
      have labelled : name[j]? = some (buf (13 + j)) := by
        obtain ⟨rest, split⟩ := begins
        rw [← split, List.getElem?_append_left (by simp; omega)]
        simp [List.getElem?_range' (show j < c.toNat by omega)]
      have here : buf (12 + (j + 1)) = c := by
        have same := (ih (by omega)).symm.trans labelled
        rw [show 12 + (j + 1) = 13 + j by omega, ← Option.some.inj same]
      have next := List.getElem?_eq_getElem (show j + 1 < name.length by omega)
      have byte := query_byte holds next
      rw [here] at byte
      split_ifs at byte
      · exact absurd byte nonzero
      · rw [next, ← byte]

theorem name_pointer_nothing (holds : Holds buf (buildQuery id0 id1 name type))
    (quiet : id0 = 0 ∨ ∀ c ∈ name, isPointer c = false) (within : i < name.length)
    (short : name.length + 17 ≤ 256) (pointer : isPointer (buf (12 + i)) = true) {rest : Bytes}
    {e : Nat} {reads : List Nat}
    (leads : ReadsName buf (name.length + 17) [] (target (buf (12 + i)) 0) rest e reads) :
    rest = [] := by
  rcases quiet with rfl | plain
  · exact pointer_nothing (query_first holds) short leads
  · have there := List.getElem?_eq_getElem within
    rw [query_byte holds there] at pointer
    split_ifs at pointer
    · exact absurd pointer (by decide)
    · rw [plain _ (List.mem_of_getElem? there)] at pointer
      cases pointer

/-- With a zero for its first byte, or without a byte that is taken for a pointer, no query
    has a name that is read back. -/
theorem not_read_back (d : DomainName) {v : Bytes} {e : Nat} {reads : List Nat}
    (holds : Holds buf (buildQuery id0 id1 d.text type))
    (quiet : id0 = 0 ∨ ∀ c ∈ d.text, isPointer c = false)
    (read : ReadsName buf (d.text.length + 17) [] 12 v e reads) (whole : v = d.text) :
    e ≠ 12 + d.text.length + 1 := by
  rintro rfl
  obtain ⟨l, more, split, positive, -, clean, -⟩ := d.first_label
  obtain ⟨c, l, rfl⟩ := List.exists_cons_of_ne_nil (List.length_pos_iff.mp positive)
  have first : d.text[0]? = some c := by rw [split]; rfl
  have other : c ≠ dot := fun same => clean (same ▸ List.mem_cons_self)
  have nonempty : 0 < d.text.length := by rw [split]; simp
  have root := query_root holds
  have byte : buf 12 = c := by simpa [other] using query_byte holds first
  generalize stop : 12 + d.text.length + 1 = e at read
  cases read with
  | past outside => omega
  | root => omega
  | pointer _ pointer there =>
      have behind : buf (12 + 1) = 0 := by
        rw [show 12 + 1 = 12 + d.text.length by omega]
        exact root
      rw [behind] at there
      rw [name_pointer_nothing holds quiet nonempty (by omega) pointer there] at whole
      rw [← whole] at nonempty
      exact absurd nonempty (by simp)
  | label _ nonzero _ there =>
      rw [byte] at there nonzero
      have label : addLabel [] ((List.range' (12 + 1) c.toNat).map buf) =
          (List.range' 13 c.toNat).map buf := by simp [addLabel]
      rw [label] at there
      have size := toNat_ne_zero nonzero
      obtain ⟨begins, k, dotted, ends⟩ := there.walk (by simpa using size)
      generalize length : v.length = n at ends
      rw [whole] at begins dotted length
      rw [List.length_map, List.length_range'] at ends
      cases ends with
      | past => omega
      | root => omega
      | pointer pointer leads =>
          have repeats := label_repeats holds first nonzero (by omega) begins
          have short := d.run_length other repeats
          have last : k = 0 := by
            by_contra further
            obtain ⟨rest, split⟩ := dotted (by omega)
            have there := repeats c.toNat (le_refl _)
            rw [← split, List.getElem?_append_left (by simp)] at there
            rw [List.getElem?_append_right (by simp)] at there
            simp at there
            exact other there.symm
          have behind : buf (12 + 1 + c.toNat + k + 1) = 0 := by
            rw [show 12 + 1 + c.toNat + k + 1 = 12 + d.text.length by omega]
            exact root
          rw [behind] at leads
          have stop : 12 + 1 + c.toNat + k = 12 + (1 + c.toNat + k) := by omega
          rw [stop] at pointer leads
          have nothing := congrArg List.length
            (name_pointer_nothing holds quiet (by omega) (by omega) pointer leads)
          rw [List.length_nil] at nothing
          omega

end Query

/-- No query has a name that the parser reads back. -/
theorem query_name_lost (d : DomainName) (type : UInt16) : ¬ Decoded d.text type := by
  intro decoded
  have holds : Holds (fun i => (buildQuery 0 0 d.text type).getD i 0) (buildQuery 0 0 d.text type) :=
    fun i within => by simp [within]
  obtain ⟨fuel, reads, read⟩ := decoded 0 0 _ holds
  rw [buildQuery_length] at read
  exact not_read_back d holds (.inl rfl) (.of_fuel read) rfl (by omega)

theorem plain_name_lost (d : DomainName) (type : UInt16) (plain : ∀ c ∈ d.text, isPointer c = false)
    {id0 id1 : UInt8} {buf : Memory} (holds : Holds buf (buildQuery id0 id1 d.text type))
    (fuel : Nat) (reads : List Nat) :
    readName buf (buildQuery id0 id1 d.text type).length fuel [] 12 ≠
      some (d.text, (buildQuery id0 id1 d.text type).length - 4, reads) := by
  rw [buildQuery_length]
  exact fun read => not_read_back d holds (.inr plain) (.of_fuel read) rfl (by omega)

/-- The letter at the beginning of `a.b` is taken for a length. -/
theorem query_name_swallowed :
    ¬ Decoded (DomainName.text ⟨[ascii "a", ascii "b"], by simp, by decide⟩) DnsRecordType.TXT := by
  intro decoded
  obtain ⟨fuel, reads, again⟩ := decoded 0 0
    (fun i => (buildQuery 0 0 (ascii "a.b") DnsRecordType.TXT).getD i 0) fun i within => by
      exact (List.getElem_eq_getD 0).symm
  have read : readName (fun i => (buildQuery 0 0 (ascii "a.b") DnsRecordType.TXT).getD i 0) 20 2 [] 12 =
      some ((List.range' 13 97).map fun i =>
        (buildQuery 0 0 (ascii "a.b") DnsRecordType.TXT).getD i 0, 110, List.range' 12 98) := by
    decide +kernel
  obtain ⟨name, -, -⟩ := (ReadsName.of_fuel read).unique (.of_fuel again)
  exact absurd (congrArg List.length name) (by decide)

end EmailServer.Dns
