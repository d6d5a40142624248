import EmailServer.Library.Base64
import EmailServer.Library.TextSearch

/-! # Transfer encodings

`MimeDecoder` undoes a transfer encoding whose name it is given. A name it does not know
leaves the data as they are.
-/

namespace EmailServer.Mime

/-- The digit's number in base 16. -/
def hexValue (c : UInt8) : Option Nat :=
  if 48 ≤ c ∧ c ≤ 57 then some (c.toNat - 48)
  else if 65 ≤ c ∧ c ≤ 70 then some (c.toNat - 55)
  else if 97 ≤ c ∧ c ≤ 102 then some (c.toNat - 87)
  else none

/-- The digits at the beginning of a text, after those already read. -/
def hexDigits (read : Int) : Bytes → Int
  | [] => read
  | c :: rest =>
      match hexValue c with
      | some digit => hexDigits (read * 16 + digit) rest
      | none => read

/-- `std::strtol(text, nullptr, 16)` on two characters: white space and a sign are skipped,
    and the prefix `0x` leaves nothing to read. -/
def strtol (text : Bytes) : Int :=
  match text.dropWhile Bytes.isSpace with
  | [] => 0
  | c :: rest =>
      if c = 45 then -hexDigits 0 rest
      else if c = 43 then hexDigits 0 rest
      else hexDigits 0 (c :: rest)

namespace MimeDecoder

/-- The conversion to `char` keeps the lowest byte. -/
def quotedPrintable : Bytes → Bytes
  | c :: high :: low :: rest =>
      if c = Bytes.equals then (strtol [high, low] % 256).toNat.toUInt8 :: quotedPrintable rest
      else c :: quotedPrintable (high :: low :: rest)
  | c :: rest => c :: quotedPrintable rest
  | [] => []

/-- The loop. `val` is the `int` of the source as its 32 bits; at most four of them are
    shifted out below the byte that is pushed. -/
def base64 (val : Nat) (valb : Int) : Bytes → Bytes
  | [] => []
  | c :: rest =>
      match Base64.value c with
      | none => base64 val valb rest
      | some number =>
          let val := (val * 64 + number) % 2 ^ 32
          let valb := valb + 6
          if 0 ≤ valb then (val / 2 ^ valb.toNat % 256).toUInt8 :: base64 val (valb - 8) rest
          else base64 val valb rest

def decodeTransferEncoding (data encoding : Bytes) : Bytes :=
  let enc := Bytes.toLower encoding
  if enc = ascii "7bit" ∨ enc = ascii "8bit" ∨ enc = ascii "binary" then data
  else if enc = ascii "quoted-printable" then quotedPrintable data
  else if enc = ascii "base64" then base64 0 (-8) data
  else data

end MimeDecoder

/-- The encodings that a message can name. -/
inductive TransferEncoding where
  | sevenBit
  | base64
  | quotedPrintable
  deriving DecidableEq

def TransferEncoding.name : TransferEncoding → Bytes
  | .sevenBit => ascii "7bit"
  | .base64 => ascii "base64"
  | .quotedPrintable => ascii "quoted-printable"

/-- The bytes that may stand for themselves in quoted-printable text. -/
def IsLiteral (c : UInt8) : Prop :=
  (33 ≤ c ∧ c ≤ 126 ∧ c ≠ Bytes.equals) ∨ c = Bytes.space ∨ c = Bytes.tab ∨ c = Bytes.cr ∨
    c = Bytes.lf

/-- `text` is `content` in quoted-printable, with line breaks anywhere. -/
inductive QuotedPrintable : Bytes → Bytes → Prop
  | nil : QuotedPrintable [] []
  | literal {c content text} : IsLiteral c → QuotedPrintable content text →
      QuotedPrintable (c :: content) (c :: text)
  | escaped {c high low content text} : hexValue high = some (c.toNat / 16) →
      hexValue low = some (c.toNat % 16) → QuotedPrintable content text →
      QuotedPrintable (c :: content) (Bytes.equals :: high :: low :: text)
  | softBreak {content text} : QuotedPrintable content text →
      QuotedPrintable content (Bytes.equals :: Bytes.cr :: Bytes.lf :: text)

/-- `text` is `content` in this encoding. Base64 text may be broken into lines. -/
def TransferEncoding.Encodes : TransferEncoding → Bytes → Bytes → Prop
  | .sevenBit, content, text => text = content
  | .base64, content, text =>
      text.filter (fun c => c != Bytes.cr && c != Bytes.lf) = Base64.encode content
  | .quotedPrintable, content, text => QuotedPrintable content text

theorem QuotedPrintable.length_le {content text : Bytes} (encodes : QuotedPrintable content text) :
    content.length ≤ text.length := by
  induction encodes with
  | nil => exact Nat.le_refl 0
  | literal _ _ ih => exact Nat.succ_le_succ ih
  | escaped _ _ _ ih =>
      simp only [List.length_cons]
      omega
  | softBreak _ ih =>
      simp only [List.length_cons]
      omega

/-- No encoding makes a content shorter. -/
theorem TransferEncoding.Encodes.length_le {encoding : TransferEncoding} {content text : Bytes}
    (encodes : encoding.Encodes content text) : content.length ≤ text.length := by
  cases encoding with
  | sevenBit => exact Nat.le_of_eq (congrArg List.length encodes).symm
  | base64 =>
      have shorter := List.length_filter_le (fun c => c != Bytes.cr && c != Bytes.lf) text
      have expands := Base64.length_encode content
      rw [show text.filter _ = Base64.encode content from encodes] at shorter
      omega
  | quotedPrintable => exact QuotedPrintable.length_le encodes

end EmailServer.Mime
