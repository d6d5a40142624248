import EmailServer.Auth.PasswordHash
import EmailServer.Library.TextSearch

/-! # SPF

`SpfParser::parse`, `SpfEvaluator::evaluate` and `SpfChecker::check`. DNS is a parameter.
-/

namespace EmailServer.AntiSpam

open EmailServer.Bytes EmailServer.Auth.PasswordHash

/-- What is reported, with the values of the enumeration in their order. -/
inductive SpfResult where
  | none
  | pass
  | fail
  | softFail
  | neutral
  | tempError
  | permError
  deriving DecidableEq

/-- What the evaluation returns, with the values of the enumeration in their order. -/
inductive SpfResultCode where
  | pass
  | fail
  | softFail
  | neutral
  | none
  | tempError
  | permError
  deriving DecidableEq

structure SpfCheckResult where
  result : SpfResult := .none
  smtpMailFrom : Bytes := []
  deriving DecidableEq

inductive SpfQualifier where
  | plus
  | minus
  | tilde
  | question
  deriving DecidableEq

inductive SpfMechanismType where
  | ip4
  | ip6
  | a
  | mx
  | ptr
  | include
  | exists_
  | all
  deriving DecidableEq

structure SpfMechanism where
  qualifier : SpfQualifier
  type : SpfMechanismType
  domain : Bytes
  cidr : Int
  deriving DecidableEq

structure SpfRecord where
  mechanisms : List SpfMechanism := []
  redirect : Option Bytes := none
  exp : Option Bytes := none
  deriving DecidableEq

/-! ## Parsing -/

def slash : UInt8 := 47

def parseQualifier (c : UInt8) : Option SpfQualifier :=
  if c = 43 then some .plus
  else if c = 45 then some .minus
  else if c = 126 then some .tilde
  else if c = 63 then some .question
  else none

def mechanismType (name : Bytes) : Option SpfMechanismType :=
  if name = ascii "ip4" then some .ip4
  else if name = ascii "ip6" then some .ip6
  else if name = ascii "a" then some .a
  else if name = ascii "mx" then some .mx
  else if name = ascii "ptr" then some .ptr
  else if name = ascii "include" then some .include
  else if name = ascii "exists" then some .exists_
  else if name = ascii "all" then some .all
  else none

/-- `none` when `std::stoi` throws, or the mechanism is unknown. -/
def parseMechanism (term : Bytes) : Option SpfMechanism := do
  let qualifier := term.head?.bind parseQualifier
  let term := if qualifier.isSome then term.drop 1 else term
  let (name, domain) := (cut colon term).getD (term, [])
  let cidr ← match cut slash term with
    | some (_, bits) => stoi bits
    | none => some (-1)
  let type ← mechanismType name
  return ⟨qualifier.getD .plus, type, domain, cidr⟩

def addTerm (rec : SpfRecord) (term : Bytes) : Option SpfRecord :=
  if (ascii "redirect=").isPrefixOf term then some { rec with redirect := some (term.drop 9) }
  else if (ascii "exp=").isPrefixOf term then some { rec with exp := some (term.drop 4) }
  else (parseMechanism term).map fun mech => { rec with mechanisms := rec.mechanisms ++ [mech] }

def isSpf (txt : Bytes) : Bool := (ascii "v=spf1").isPrefixOf txt

/-- `none` is an exception. -/
def SpfParser.parse (txt : Bytes) : Option SpfRecord :=
  if !isSpf txt then none
  else ((splitOn isSpace txt).filter (· ≠ [])).tail.foldlM addTerm {}

/-! ## Evaluating -/

def mapQ : SpfQualifier → SpfResultCode
  | .plus => .pass
  | .minus => .fail
  | .tilde => .softFail
  | .question => .neutral

def spfRecords (lookupTxt : Bytes → List Bytes) (domain : Bytes) : List Bytes :=
  (lookupTxt domain).filter isSpf

/-- The first `all` of a record. -/
def firstAll (rec : SpfRecord) : Option SpfMechanism := rec.mechanisms.find? (·.type = .all)

/-- With so many lookups left. The address, the sender and the HELO name, which the
    evaluator keeps, are not read. `none` is an exception. -/
def SpfEvaluator.evaluateWith (lookupTxt : Bytes → List Bytes) : Nat → Bytes → Option SpfResultCode
  | 0, _ => some .permError
  | left + 1, domain =>
      match spfRecords lookupTxt domain with
      | [] => some .none
      | [txt] =>
          match SpfParser.parse txt with
          | none => none
          | some record =>
              match firstAll record, record.redirect with
              | some mech, _ => some (mapQ mech.qualifier)
              | none, some target => evaluateWith lookupTxt left target
              | none, none => some .neutral
      | _ => some .permError

/-- On a new evaluator. -/
def SpfEvaluator.evaluate (lookupTxt : Bytes → List Bytes) (domain : Bytes) : Option SpfResultCode :=
  evaluateWith lookupTxt 10 domain

/-! ## Checking -/

def SpfResultCode.value : SpfResultCode → Nat
  | .pass => 0
  | .fail => 1
  | .softFail => 2
  | .neutral => 3
  | .none => 4
  | .tempError => 5
  | .permError => 6

/-- `static_cast<SpfResult>` -/
def SpfResult.cast (code : SpfResultCode) : SpfResult :=
  match code.value with
  | 0 => .none
  | 1 => .pass
  | 2 => .fail
  | 3 => .softFail
  | 4 => .neutral
  | 5 => .tempError
  | _ => .permError

namespace SpfChecker

def strip (s : Bytes) : Bytes :=
  if s.length > 2 ∧ s.head? = some 60 ∧ s.getLast? = some 62 then s.tail.dropLast else s

/-- The domain that is evaluated. -/
def senderDomain (mailFrom heloDomain : Bytes) : Bytes :=
  match cut 64 (strip mailFrom) with
  | some (_, domain) => domain
  | none => heloDomain

def check (lookupTxt : Bytes → List Bytes) (_ip mailFrom heloDomain : Bytes) :
    Option SpfCheckResult :=
  (SpfEvaluator.evaluate lookupTxt (senderDomain mailFrom heloDomain)).map fun r =>
    ⟨.cast r, strip mailFrom⟩

end SpfChecker

end EmailServer.AntiSpam
