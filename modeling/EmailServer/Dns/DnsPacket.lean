import EmailServer.Library.Cursor

/-! # DNS packets

`parseDnsResponse` and what it reads with. Only the loop over the labels of a name looks at
the length of the packet.
-/

namespace EmailServer.Dns

open EmailServer.Bytes Reader

/-- A value of the enumeration, which every number can be cast to. -/
abbrev DnsRecordType := UInt16

namespace DnsRecordType

def A : DnsRecordType := 1
def MX : DnsRecordType := 15
def TXT : DnsRecordType := 16

end DnsRecordType

structure DnsAnswer where
  name : Bytes
  type : DnsRecordType
  ttl : UInt32
  data : Bytes
  deriving DecidableEq

structure DnsPacket where
  id : UInt16
  rcode : UInt16
  answers : List DnsAnswer
  deriving DecidableEq

/-- Two bytes as a number. -/
def be16 (high low : UInt8) : UInt16 := (high.toUInt16 <<< 8) ||| low.toUInt16

def read16 (buf : Memory) : Reader UInt16 := do
  let high ← byte buf
  let low ← byte buf
  return be16 high low

def read32 (buf : Memory) : Reader UInt32 := do
  let a ← byte buf
  let b ← byte buf
  let c ← byte buf
  let d ← byte buf
  return (a.toUInt32 <<< 24) ||| (b.toUInt32 <<< 16) ||| (c.toUInt32 <<< 8) ||| d.toUInt32

/-! ## Names -/

def isPointer (len : UInt8) : Bool := len &&& 0xC0 == 0xC0

/-- Where a pointer leads. -/
def target (len low : UInt8) : Nat := ((len &&& 0x3F).toNat <<< 8) ||| low.toNat

/-- The name with another label. -/
def addLabel (name label : Bytes) : Bytes := (if name ≠ [] then name ++ [dot] else name) ++ label

/-- The loop over the labels, when `name` has been read. With so much fuel for labels and
    pointers. -/
def readName (buf : Memory) (max : Nat) : Nat → Bytes → Reader Bytes
  | 0, _ => diverge
  | fuel + 1, name => do
      let off ← offset
      if off < max then
        let len ← byte buf
        if len = 0 then return name
        else if isPointer len then
          let low ← byte buf
          let rest ← elsewhere (target len low) (readName buf max fuel [])
          return name ++ rest
        else
          let label ← peekBlock buf 0 len.toNat
          advance len.toNat
          readName buf max fuel (addLabel name label)
      else return name

/-! ## Packets -/

def dottedQuad (a b c d : UInt8) : Bytes :=
  toDecimal a.toNat ++ [dot] ++ toDecimal b.toNat ++ [dot] ++ toDecimal c.toNat ++ [dot] ++
    toDecimal d.toNat

/-- The data that are taken from a record. -/
def readData (buf : Memory) (type : DnsRecordType) (rdlen : UInt16) : Reader Bytes :=
  if type = DnsRecordType.A ∧ rdlen = 4 then do
    let a ← peek buf 0
    let b ← peek buf 1
    let c ← peek buf 2
    let d ← peek buf 3
    return dottedQuad a b c d
  else if type = DnsRecordType.TXT then do
    let sl ← peek buf 0
    peekBlock buf 1 sl.toNat
  else pure []

def readQuestion (fuel : Nat) (buf : Memory) (len : Nat) : Reader Unit := do
  let _ ← readName buf len fuel []
  advance 4

def readAnswer (fuel : Nat) (buf : Memory) (len : Nat) : Reader DnsAnswer := do
  let name ← readName buf len fuel []
  let type ← read16 buf
  advance 2
  let ttl ← read32 buf
  let rdlen ← read16 buf
  let data ← readData buf type rdlen
  advance rdlen.toNat
  return ⟨name, type, ttl, data⟩

/-- With so much fuel for each name. -/
def parseDnsResponse (fuel : Nat) (buf : Memory) (len : Nat) : Reader DnsPacket := do
  let id ← read16 buf
  let flags ← read16 buf
  let qd ← read16 buf
  let an ← read16 buf
  let _ ← read16 buf
  let _ ← read16 buf
  let _ ← times qd.toNat (readQuestion fuel buf len)
  let answers ← times an.toNat (readAnswer fuel buf len)
  return ⟨id, flags &&& 0x000F, answers⟩

/-! ## What `readName` does -/

/-- A run of the loop at an offset: the name, the offset behind it, and what has been read. -/
inductive ReadsName (buf : Memory) (max : Nat) : Bytes → Nat → Bytes → Nat → List Nat → Prop where
  | past {name : Bytes} {off : Nat} : ¬ off < max → ReadsName buf max name off name off []
  | root {name : Bytes} {off : Nat} : off < max → buf off = 0 →
      ReadsName buf max name off name (off + 1) [off]
  | pointer {name rest : Bytes} {off e : Nat} {reads : List Nat} : off < max →
      isPointer (buf off) = true →
      ReadsName buf max [] (target (buf off) (buf (off + 1))) rest e reads →
      ReadsName buf max name off (name ++ rest) (off + 2) (off :: (off + 1) :: reads)
  | label {name v : Bytes} {off e : Nat} {reads : List Nat} : off < max → buf off ≠ 0 →
      isPointer (buf off) = false →
      ReadsName buf max
        (addLabel name ((List.range' (off + 1) (buf off).toNat).map buf))
        (off + 1 + (buf off).toNat) v e reads →
      ReadsName buf max name off v e (off :: (List.range' (off + 1) (buf off).toNat ++ reads))

section Names

variable {buf : Memory} {max fuel : Nat} {name v : Bytes} {off e : Nat} {reads : List Nat}

theorem readName_succ : readName buf max (fuel + 1) name off =
    if off < max then
      if buf off = 0 then some (name, off + 1, [off])
      else if isPointer (buf off) then
        (readName buf max fuel [] (target (buf off) (buf (off + 1)))).map fun r =>
          (name ++ r.1, off + 2, off :: (off + 1) :: r.2.2)
      else
        (readName buf max fuel (addLabel name ((List.range' (off + 1) (buf off).toNat).map buf))
          (off + 1 + (buf off).toNat)).map fun r =>
            (r.1, r.2.1, off :: (List.range' (off + 1) (buf off).toNat ++ r.2.2))
    else some (name, off, []) := by
  rw [readName, bind_ran rfl]
  by_cases inside : off < max
  · rw [if_pos inside, if_pos inside, bind_ran rfl]
    by_cases zero : buf off = 0
    · rw [if_pos zero, if_pos zero]
      rfl
    · rw [if_neg zero, if_neg zero]
      by_cases pointer : isPointer (buf off) = true
      · rw [if_pos pointer, if_pos pointer, bind_ran rfl]
        have rest := @elsewhere_eq Bytes (readName buf max fuel []) (off + 1 + 1)
          (target (buf off) (buf (off + 1)))
        cases ran : readName buf max fuel [] (target (buf off) (buf (off + 1))) with
        | none =>
            rw [ran] at rest
            rw [bind_none rest]
            rfl
        | some r =>
            rw [ran] at rest
            rw [bind_ran rest]
            have whole : (pure (name ++ r.1) : Reader Bytes) (off + 1 + 1) =
                some (name ++ r.1, off + 2, []) := rfl
            simp [whole]
      · rw [if_neg pointer, if_neg pointer, bind_ran rfl, bind_ran rfl]
        simp [Function.comp_def]
  · rw [if_neg inside, if_neg inside]
    rfl

theorem ReadsName.of_fuel (read : readName buf max fuel name off = some (v, e, reads)) :
    ReadsName buf max name off v e reads := by
  induction fuel generalizing name off v e reads with
  | zero => cases read
  | succ fuel ih =>
      rw [readName_succ] at read
      split_ifs at read with inside zero pointer
      · cases read
        exact .root inside zero
      · obtain ⟨⟨rest, e', reads'⟩, there, same⟩ := Option.map_eq_some_iff.mp read
        cases same
        exact .pointer inside pointer (ih there)
      · obtain ⟨⟨v', e', reads'⟩, there, same⟩ := Option.map_eq_some_iff.mp read
        cases same
        exact .label inside zero (by simpa using pointer) (ih there)
      · cases read
        exact .past inside

theorem isPointer_ne_zero {len : UInt8} (pointer : isPointer len = true) : len ≠ 0 := by
  rintro rfl
  exact absurd pointer (by decide)

theorem toNat_ne_zero {c : UInt8} (nonzero : c ≠ 0) : c.toNat ≠ 0 := fun zero =>
  nonzero (UInt8.toNat_inj.mp zero)

theorem ReadsName.enough (read : ReadsName buf max name off v e reads) :
    ∃ fuel, readName buf max fuel name off = some (v, e, reads) := by
  induction read with
  | past outside =>
      refine ⟨1, ?_⟩
      rw [readName_succ, if_neg outside]
  | root inside zero =>
      refine ⟨1, ?_⟩
      rw [readName_succ, if_pos inside, if_pos zero]
  | pointer inside pointer _ ih =>
      obtain ⟨fuel, rest⟩ := ih
      refine ⟨fuel + 1, ?_⟩
      rw [readName_succ, if_pos inside, if_neg (isPointer_ne_zero pointer), if_pos pointer, rest]
      rfl
  | label inside nonzero plain _ ih =>
      obtain ⟨fuel, rest⟩ := ih
      refine ⟨fuel + 1, ?_⟩
      rw [readName_succ, if_pos inside, if_neg nonzero, if_neg (by simp [plain]), rest]
      rfl

theorem ReadsName.unique {v' : Bytes} {e' : Nat} {reads' : List Nat}
    (read : ReadsName buf max name off v e reads) (again : ReadsName buf max name off v' e' reads') :
    v' = v ∧ e' = e ∧ reads' = reads := by
  induction read generalizing v' e' reads' with
  | past outside =>
      cases again with
      | past => exact ⟨rfl, rfl, rfl⟩
      | root inside | pointer inside | label inside => exact absurd inside outside
  | root inside zero =>
      cases again with
      | past outside => exact absurd inside outside
      | root => exact ⟨rfl, rfl, rfl⟩
      | pointer _ pointer => exact absurd zero (isPointer_ne_zero pointer)
      | label _ nonzero => exact absurd zero nonzero
  | pointer inside pointer _ ih =>
      cases again with
      | past outside => exact absurd inside outside
      | root _ zero => exact absurd zero (isPointer_ne_zero pointer)
      | pointer _ _ there =>
          obtain ⟨rfl, rfl, rfl⟩ := ih there
          exact ⟨rfl, rfl, rfl⟩
      | label _ _ plain => simp [plain] at pointer
  | label inside nonzero plain _ ih =>
      cases again with
      | past outside => exact absurd inside outside
      | root _ zero => exact absurd zero nonzero
      | pointer _ pointer => simp [plain] at pointer
      | label _ _ _ there =>
          obtain ⟨rfl, rfl, rfl⟩ := ih there
          exact ⟨rfl, rfl, rfl⟩

end Names

/-! ## A response to a question about an address -/

/-- A question about `a`, and an answer whose name is written like this. -/
def answering (name : Bytes) : Bytes :=
  [0, 1, 0x81, 0x80, 0, 1, 0, 1, 0, 0, 0, 0, 1, 97, 0, 0, 1, 0, 1] ++ name ++
    [0, 1, 0, 1, 0, 0, 0, 9, 0, 4, 1, 2, 3, 4]

def packet (bytes : Bytes) : Memory := fun i => bytes.getD i 0

/-- The name of the question stands at the twelfth byte. -/
def pointerName : Bytes := [0xC0, 12]

end EmailServer.Dns
