import EmailServer.Auth.PasswordHash
import EmailServer.Library.TextSearch

/-! # DMARC evaluation

`DmarcEvaluator::evaluate`. DNS is a parameter, and so is the number that is drawn for
the sampling.
-/

namespace EmailServer.AntiSpam

open EmailServer.Bytes EmailServer.Auth.PasswordHash

inductive DmarcResultCode where
  | none
  | pass
  | fail
  deriving DecidableEq

inductive DmarcPolicy where
  | none
  | quarantine
  | reject
  deriving DecidableEq

structure DmarcResult where
  result : DmarcResultCode := .none
  policy : DmarcPolicy := .none
  deriving DecidableEq

structure DmarcInput where
  fromDomain : Bytes
  spfPass : Bool
  spfDomain : Bytes
  dkimPass : Bool
  dkimDomain : Bytes

/-! ## Tags -/

/-- A part of the record; without `=` it is skipped. -/
def parseTag (part : Bytes) : Option (Bytes × Bytes) :=
  (cut equals part).map fun (k, v) =>
    ((toLower k).filter fun c => !isSpace c, v.filter fun c => !isSpace c)

/-- The entries in the order of the record. -/
def parseTags (txt : Bytes) : List (Bytes × Bytes) := (getlines semicolon txt).filterMap parseTag

/-- A later entry has replaced an earlier one. -/
def tag? (tags : List (Bytes × Bytes)) (k : Bytes) : Option Bytes := tags.reverse.lookup k

/-- The tags that the evaluation reads, with their defaults. -/
structure PolicyTags where
  p : Bytes
  sp : Bytes
  adkim : Bytes
  aspf : Bytes
  pct : Int
  deriving DecidableEq

/-- `none` when `std::stoi` throws. -/
def policyTags (tags : List (Bytes × Bytes)) : Option PolicyTags :=
  let p := (tag? tags (ascii "p")).getD (ascii "none")
  let pct := match tag? tags (ascii "pct") with
    | some text => stoi text
    | none => some 100
  pct.map fun pct =>
    { p := p
      sp := (tag? tags (ascii "sp")).getD p
      adkim := (tag? tags (ascii "adkim")).getD (ascii "r")
      aspf := (tag? tags (ascii "aspf")).getD (ascii "r")
      pct := pct }

/-! ## Alignment -/

def relaxedAlign (a b : Bytes) : Bool := a == b || (decide (a.length > b.length) && b.isSuffixOf a)

def strictAlign (a b : Bytes) : Bool := a == b

/-- `domain` is the From domain in lower case. -/
def aligned (pass : Bool) (mode identifier domain : Bytes) : Bool :=
  pass && if mode = ascii "s" then strictAlign identifier domain else relaxedAlign identifier domain

def authPass (tags : PolicyTags) (domain : Bytes) (input : DmarcInput) : Bool :=
  aligned input.dkimPass tags.adkim input.dkimDomain domain ||
    aligned input.spfPass tags.aspf input.spfDomain domain

/-! ## Evaluation -/

def parentDomain (d : Bytes) : Bytes :=
  match cut dot d with
  | none => []
  | some (_, parent) => parent

/-- The loop over the parents of a domain: where it ends, and what it found there. -/
def discover (lookupTxt : Bytes → List Bytes) : Nat → Bytes → Bytes × List Bytes
  | 0, cur => (cur, [])
  | fuel + 1, cur =>
      let txts := lookupTxt (ascii "_dmarc." ++ cur)
      if txts ≠ [] then (cur, txts)
      else if parentDomain cur = [] then (cur, txts)
      else discover lookupTxt fuel (parentDomain cur)

/-- There is a parent for each dot, so the loop ends. -/
def discovered (lookupTxt : Bytes → List Bytes) (domain : Bytes) : Bytes × List Bytes :=
  discover lookupTxt (domain.length + 1) domain

/-- Whether the policy is enforced, when `draw` is drawn between 1 and 100. -/
def samplePct (draw pct : Int) : Bool := decide (pct ≥ 100) || decide (draw ≤ pct)

def enforced (policyStr : Bytes) : DmarcPolicy :=
  if policyStr = ascii "reject" then .reject
  else if policyStr = ascii "quarantine" then .quarantine
  else .none

/-- `none` is an exception. -/
def DmarcEvaluator.evaluate (lookupTxt : Bytes → List Bytes) (draw : Int) (input : DmarcInput) :
    Option DmarcResult :=
  let domain := toLower input.fromDomain
  let (cur, txts) := discovered lookupTxt domain
  match txts with
  | [] => some ⟨.pass, .none⟩
  | [txt] =>
      let tags := parseTags txt
      if (tag? tags (ascii "v")).getD [] ≠ ascii "DMARC1" then some ⟨.fail, .reject⟩
      else match policyTags tags with
        | none => none
        | some tags =>
            let policyStr := if cur ≠ domain then tags.sp else tags.p
            if authPass tags domain input then some ⟨.pass, .none⟩
            else if !samplePct draw tags.pct then some ⟨.pass, .none⟩
            else some ⟨.fail, enforced policyStr⟩
  | _ => some ⟨.fail, .reject⟩

section Discovery

variable {lookupTxt : Bytes → List Bytes} {cur : Bytes}

theorem parentDomain_shorter (parent : parentDomain cur ≠ []) :
    (parentDomain cur).length < cur.length := by
  by_cases dotted : dot ∈ cur
  · have rest : parentDomain cur = (cur.dropWhile (· != dot)).drop 1 := by
      simp [parentDomain, cut, dotted]
    rw [rest] at parent ⊢
    have suffix := (List.dropWhile_suffix (· != dot) (l := cur)).length_le
    have positive : 0 < (cur.dropWhile (· != dot)).length :=
      List.length_pos_iff.mpr fun nothing => parent (by rw [nothing]; rfl)
    rw [List.length_drop]
    omega
  · exact absurd (by simp [parentDomain, cut, dotted]) parent

theorem discover_enough {fuel : Nat} (enough : cur.length < fuel) :
    discover lookupTxt fuel cur = discovered lookupTxt cur := by
  induction fuel using Nat.strong_induction_on generalizing cur with
  | _ fuel ih =>
      cases fuel with
      | zero => omega
      | succ fuel =>
          unfold discovered discover
          dsimp only
          split
          · rfl
          · split
            · rfl
            · rename_i parent
              have shorter := parentDomain_shorter parent
              rw [ih fuel (by omega) (by omega)]
              by_cases last : cur.length = fuel
              · rw [last, ih fuel (by omega) (by omega)]
              · rw [ih cur.length (by omega) (by omega)]

theorem discovered_eq : discovered lookupTxt cur =
    let txts := lookupTxt (ascii "_dmarc." ++ cur)
    if txts ≠ [] then (cur, txts)
    else if parentDomain cur = [] then (cur, txts)
    else discovered lookupTxt (parentDomain cur) := by
  rw [discovered, discover]
  dsimp only
  split
  · rfl
  · split
    · rfl
    · rename_i parent
      exact discover_enough (parentDomain_shorter parent)

end Discovery

end EmailServer.AntiSpam
