import EmailServer.Library.TextSearch

/-! # DKIM canonicalization

`DkimCanon`: the relaxed form of a body, and the relaxed forms of the header fields
that a list of names selects.
-/

namespace EmailServer.AntiSpam.DkimCanon

open EmailServer.Bytes

def isWsp (c : UInt8) : Bool := c == space || c == tab

def compressWsp (inWsp : Bool) : Bytes → Bytes
  | [] => []
  | c :: s =>
      if isWsp c then if inWsp then compressWsp true s else space :: compressWsp true s
      else c :: compressWsp false s

theorem mem_compressWsp {inWsp : Bool} {s : Bytes} {c : UInt8} (member : c ∈ compressWsp inWsp s) :
    c = space ∨ c ∈ s := by
  induction s generalizing inWsp with
  | nil => cases member
  | cons d s ih =>
      have later : ∀ {inWsp}, c ∈ compressWsp inWsp s → c = space ∨ c ∈ d :: s :=
        fun member => (ih member).imp id (List.mem_cons_of_mem d)
      rw [compressWsp] at member
      split at member
      · split at member
        · exact later member
        · rcases List.mem_cons.mp member with same | member
          · exact .inl same
          · exact later member
      · rcases List.mem_cons.mp member with rfl | member
        · exact .inr List.mem_cons_self
        · exact later member

/-- Line ends become CRLF. -/
def normalizeBreaks (body : Bytes) : Bytes :=
  body.flatMap fun c => if c = cr then [] else if c = lf then crlf else [c]

/-- The loop that erases a line break at the end behind another one. The text is given
    from its end. With a single byte before the line break `pos - 2` wraps around and
    `substr` throws `std::out_of_range`. -/
def eraseBreaks : Bytes → Option Bytes
  | x :: y :: rest =>
      if [y, x] = crlf then
        match rest with
        | [] => some [x, y]
        | [_] => none
        | z :: w :: _ => if [w, z] = crlf then eraseBreaks rest else some (x :: y :: rest)
      else some (x :: y :: rest)
  | b => some b

/-- `none` is an exception. -/
def canonicalizeBodyRelaxed (body : Bytes) : Option Bytes :=
  (eraseBreaks (normalizeBreaks body).reverse).map fun b =>
    if b.take 2 = crlf.reverse then b.reverse else b.reverse ++ crlf

/-- One line of the header block: it continues the current field, or begins another. -/
def addLine : List Bytes × Bytes → Bytes → List Bytes × Bytes
  | (lines, current), line =>
      let line := if line.getLast? = some cr then line.dropLast else line
      if line.head?.any isWsp then (lines, current ++ space :: line.tail)
      else (if current ≠ [] then lines ++ [current] else lines, line)

/-- The fields of a header block, each on one line. -/
def unfoldLines (headers : Bytes) : List Bytes :=
  let (lines, current) := (getlines lf headers).foldl addLine ([], [])
  if current ≠ [] then lines ++ [current] else lines

/-- The relaxed form of a field of this name. -/
def canonicalField (want line : Bytes) : Option Bytes :=
  match cut colon line with
  | none => none
  | some (name, value) =>
      if toLower name = want then
        let value := ((value.dropWhile isWsp).reverse.dropWhile isWsp).reverse
        some (toLower name ++ colon :: compressWsp false value)
      else none

def canonicalizeHeadersRelaxed (headers : Bytes) (headerNames : List Bytes) : List Bytes :=
  headerNames.reverse.filterMap fun name =>
    (unfoldLines headers).reverse.findSome? (canonicalField (toLower name))

end EmailServer.AntiSpam.DkimCanon
