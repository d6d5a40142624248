import Mathlib.Logic.Function.Basic
import EmailServer.Mime.MimeDecoder

/-! # MIME messages

`MimeParser` reads the headers of a message and either decodes its body or cuts it into
parts. `parseHeaders` is given the text by reference and leaves it as it is, so the text
that is decoded or cut still has the headers in front.
-/

namespace EmailServer.Mime

/-- `std::map<std::string, std::string>` -/
abbrev MimeHeaderMap := Bytes → Option Bytes

structure MimePart where
  headers : MimeHeaderMap
  /-- decoded body -/
  body : Bytes
  /-- multipart children -/
  children : List MimePart

structure MimeMessage where
  headers : MimeHeaderMap
  root : MimePart

namespace MimeParser

/-- The loop over the lines. A line that begins with white space goes on with the last key. -/
def parseHeaderLines (headers : MimeHeaderMap) (lastKey : Bytes) : List Bytes → MimeHeaderMap
  | [] => headers
  | line :: rest =>
      if line = [Bytes.cr] ∨ line = [] then headers
      else if line.head? = some Bytes.space ∨ line.head? = some Bytes.tab then
        let value := (headers lastKey).getD [] ++ (ascii " " ++ line)
        parseHeaderLines (Function.update headers lastKey (some value)) lastKey rest
      else
        match Bytes.cut Bytes.colon line with
        | some (name, value) =>
            let lastKey := Bytes.toLower name
            parseHeaderLines (Function.update headers lastKey (some value)) lastKey rest
        | none => parseHeaderLines headers lastKey rest

def parseHeaders (data : Bytes) : MimeHeaderMap :=
  parseHeaderLines (fun _ => none) [] (Bytes.getlines Bytes.lf data)

/-- `7bit` unless the headers say something else. -/
def encodingOf (headers : MimeHeaderMap) : Bytes :=
  (headers (ascii "content-transfer-encoding")).getD (ascii "7bit")

/-- `parsePart` with an empty boundary. -/
def parseLeaf (data : Bytes) : MimePart where
  headers := parseHeaders data
  body := MimeDecoder.decodeTransferEncoding data (encodingOf (parseHeaders data))
  children := []

/-- What the loop cuts out, from its position on: the texts between an occurrence of `delim` and
    the next. Every round takes text, so more fuel than text suffices. -/
def childTexts (delim : Bytes) : Nat → Bytes → List Bytes
  | 0, _ => []
  | fuel + 1, content =>
    match Bytes.find delim content with
    | none => []
    | some hit =>
        let start := hit.drop delim.length
        match Bytes.find delim start with
        | none => []
        | some next => Bytes.upTo delim start :: childTexts delim fuel next

def parsePart (data boundary : Bytes) : MimePart :=
  if boundary = [] then parseLeaf data
  else
    { headers := parseHeaders data
      body := []
      children := (childTexts (ascii "--" ++ boundary) (data.length + 1) data).map parseLeaf }

/-- What `parse` takes for the boundary: everything behind `boundary=`, and behind a quote all
    but the first and the last character. -/
def boundaryOf (headers : MimeHeaderMap) : Bytes :=
  match headers (ascii "content-type") with
  | none => []
  | some value =>
      match Bytes.find (ascii "boundary=") value with
      | none => []
      | some hit =>
          let boundary := hit.drop 9
          if boundary.head? = some 34 then (boundary.drop 1).take (boundary.length - 2)
          else boundary

def parse (raw : Bytes) : MimeMessage where
  headers := parseHeaders raw
  root := parsePart raw (boundaryOf (parseHeaders raw))

end MimeParser

/-! ## Lines of a header -/

section Headers

open Bytes (crlf crlfLines)
open MimeParser

variable {headers : MimeHeaderMap} {lastKey key value : Bytes} {lines : List Bytes}

theorem getlines_block (clean : ∀ line ∈ lines, Bytes.lf ∉ line) (rest : Bytes) :
    ∃ more, Bytes.getlines Bytes.lf (crlfLines lines ++ crlf ++ rest) =
      lines.map (· ++ [Bytes.cr]) ++ [Bytes.cr] :: more := by
  have other : Bytes.lf ≠ Bytes.cr := by decide
  have pieces : Bytes.splitOn (· == Bytes.lf) (crlfLines lines ++ crlf ++ rest) =
      lines.map (· ++ [Bytes.cr]) ++ [Bytes.cr] :: Bytes.splitOn (· == Bytes.lf) rest := by
    induction lines with
    | nil =>
        have plain : ∀ d ∈ [Bytes.cr], (d == Bytes.lf) = false :=
          List.forall_mem_singleton.mpr (by decide)
        exact Bytes.splitOn_append plain rfl rest
    | cons line lines ih =>
        have plain : ∀ d ∈ line ++ [Bytes.cr], (d == Bytes.lf) = false := by
          intro d inside
          have different : d ≠ Bytes.lf := by
            rintro rfl
            rcases List.mem_append.mp inside with there | there
            · exact clean line List.mem_cons_self there
            · exact other (List.mem_singleton.mp there)
          simpa using different
        have later := ih fun l there => clean l (List.mem_cons_of_mem line there)
        have split := Bytes.splitOn_append plain (beq_self_eq_true Bytes.lf)
          (crlfLines lines ++ crlf ++ rest)
        rw [later] at split
        simpa [crlfLines, crlf] using split
  have split : Bytes.splitOn (· == Bytes.lf) (crlfLines lines ++ crlf ++ rest) =
      (lines.map (· ++ [Bytes.cr]) ++ [[Bytes.cr]]) ++ Bytes.splitOn (· == Bytes.lf) rest := by
    simpa using pieces
  obtain ⟨more, read⟩ := Bytes.getlines_prefix (Bytes.splitOn_ne_nil _ rest) split
  exact ⟨more, by simpa using read⟩

theorem getlines_crlfLines (clean : ∀ line ∈ lines, Bytes.lf ∉ line) :
    Bytes.getlines Bytes.lf (crlfLines lines) = lines.map (· ++ [Bytes.cr]) := by
  have same : crlfLines lines = (lines.map (· ++ [Bytes.cr])).flatMap (· ++ [Bytes.lf]) := by
    simp [crlfLines, crlf, List.flatMap_map]
  rw [same]
  refine Bytes.getlines_join fun line there => ?_
  obtain ⟨text, inside, rfl⟩ := List.mem_map.mp there
  have other : Bytes.lf ≠ Bytes.cr := by decide
  simpa [other] using clean text inside

theorem parseHeaderLines_stop (more : List Bytes) :
    parseHeaderLines headers lastKey (lines ++ [Bytes.cr] :: more) =
      parseHeaderLines headers lastKey lines := by
  induction lines generalizing headers lastKey with
  | nil => simp [parseHeaderLines]
  | cons line lines ih =>
      rw [List.cons_append, parseHeaderLines, parseHeaderLines]
      simp only [ih]

theorem parseHeaders_block (clean : ∀ line ∈ lines, Bytes.lf ∉ line) (rest : Bytes) :
    parseHeaders (crlfLines lines ++ crlf ++ rest) = parseHeaders (crlfLines lines) := by
  obtain ⟨more, split⟩ := getlines_block clean rest
  rw [parseHeaders, split, parseHeaderLines_stop, parseHeaders, getlines_crlfLines clean]

end Headers

/-! ## The first child -/

theorem MimeParser.childTexts_first {delim content first : Bytes} {fuel : Nat} {later : List Bytes}
    (texts : childTexts delim fuel content = first :: later) :
    ∃ hit next, Bytes.find delim content = some hit ∧
      Bytes.find delim (hit.drop delim.length) = some next ∧
      first = Bytes.upTo delim (hit.drop delim.length) := by
  cases fuel with
  | zero => cases texts
  | succ fuel =>
      rw [childTexts] at texts
      cases found : Bytes.find delim content with
      | none =>
          rw [found] at texts
          cases texts
      | some hit =>
          rw [found] at texts
          dsimp only at texts
          cases again : Bytes.find delim (hit.drop delim.length) with
          | none =>
              rw [again] at texts
              cases texts
          | some next =>
              rw [again] at texts
              exact ⟨hit, next, rfl, again, (List.cons.inj texts).1.symm⟩

end EmailServer.Mime
