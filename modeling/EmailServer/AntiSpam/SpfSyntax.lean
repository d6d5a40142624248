import EmailServer.AntiSpam.Spf
import EmailServer.Auth.Verification

/-! # Terms of an SPF record

What the parser takes a term for, and what it makes of records as they are written. It
searches for the colon and for the slash independently of each other, so a prefix length
stays in the name or in the domain.
-/

namespace EmailServer.AntiSpam

open EmailServer.Bytes EmailServer.Auth.PasswordHash

def SpfMechanismType.name : SpfMechanismType → Bytes
  | .ip4 => ascii "ip4"
  | .ip6 => ascii "ip6"
  | .a => ascii "a"
  | .mx => ascii "mx"
  | .ptr => ascii "ptr"
  | .include => ascii "include"
  | .exists_ => ascii "exists"
  | .all => ascii "all"

theorem mechanismType_iff {name : Bytes} {type : SpfMechanismType} :
    mechanismType name = some type ↔ name = type.name := by
  constructor
  · intro known
    unfold mechanismType at known
    split_ifs at known
    all_goals
      obtain rfl := Option.some.inj known
      assumption
  · rintro rfl
    cases type <;> decide

theorem SpfMechanismType.name_plain (type : SpfMechanismType) : ∀ c ∈ type.name, isPlain c = true := by
  rw [← List.all_eq_true]
  cases type <;> decide

/-! ## Terms that are accepted -/

section Terms

variable {term body : Bytes} {c : UInt8} {q : SpfQualifier}

def bodyParts (body : Bytes) : Bytes × Bytes := (cut colon body).getD (body, [])

def bodyCidr (body : Bytes) : Option Int :=
  match cut slash body with
  | some (_, bits) => stoi bits
  | none => some (-1)

/-- What stands behind the sign of a mechanism. -/
def parseBody (q : SpfQualifier) (body : Bytes) : Option SpfMechanism :=
  (bodyCidr body).bind fun cidr =>
    (mechanismType (bodyParts body).1).bind fun type => some ⟨q, type, (bodyParts body).2, cidr⟩

theorem parseMechanism_signed (sign : parseQualifier c = some q) :
    parseMechanism (c :: body) = parseBody q body := by
  simp only [parseMechanism, List.head?_cons, Option.bind_some, sign, Option.isSome_some, if_true,
    List.drop_one, List.tail_cons, Option.getD_some, parseBody, bodyCidr]
  cases cut slash body <;> rfl

theorem parseMechanism_unsigned (unsigned : body.head?.bind parseQualifier = none) :
    parseMechanism body = parseBody .plus body := by
  simp only [parseMechanism, unsigned, Option.isSome_none, Bool.false_eq_true, if_false,
    Option.getD_none, parseBody, bodyCidr]
  cases cut slash body <;> rfl

/-- A known name, alone or up to a colon, and a number behind the first slash. -/
structure IsMechanism (body : Bytes) : Prop where
  named : ∃ type : SpfMechanismType, body = type.name ∨ type.name ++ [colon] <+: body
  numbered : ∀ before bits, body = before ++ slash :: bits → slash ∉ before → Number bits

theorem not_mem_name {d : UInt8} (type : SpfMechanismType) (other : isPlain d = false) :
    d ∉ type.name := fun member =>
  isPlain_ne (type.name_plain d member) other rfl

theorem bodyName_iff {type : SpfMechanismType} :
    (bodyParts body).1 = type.name ↔ body = type.name ∨ type.name ++ [colon] <+: body := by
  constructor
  · intro named
    cases parts : cut colon body with
    | none => exact .inl (by simpa [bodyParts, parts] using named)
    | some part =>
        obtain ⟨name, args⟩ := part
        rw [bodyParts, parts] at named
        exact .inr ⟨args, by rw [cut_eq parts, ← named]; simp⟩
  · rintro (rfl | ⟨args, rfl⟩)
    · rw [bodyParts, cut_none (not_mem_name type (by decide))]
      rfl
    · rw [bodyParts, List.append_assoc, List.singleton_append,
        cut_append (not_mem_name type (by decide))]
      rfl

theorem bodyCidr_isSome : (bodyCidr body).isSome ↔
    ∀ before bits, body = before ++ slash :: bits → slash ∉ before → Number bits := by
  unfold bodyCidr
  cases parts : cut slash body with
  | none =>
      refine iff_of_true rfl ?_
      rintro before bits rfl clean
      rw [cut_append clean] at parts
      cases parts
  | some part =>
      obtain ⟨front, rest⟩ := part
      dsimp only
      rw [stoi_isSome_iff]
      constructor
      · rintro number before bits rfl clean
        rw [cut_append clean] at parts
        cases parts
        exact number
      · exact fun number => number front rest (cut_eq parts) (cut_clean parts)

theorem parseBody_isSome : (parseBody q body).isSome ↔ IsMechanism body := by
  have both : (parseBody q body).isSome ↔
      (mechanismType (bodyParts body).1).isSome ∧ (bodyCidr body).isSome := by
    unfold parseBody
    cases bodyCidr body with
    | none => simp
    | some cidr => cases mechanismType (bodyParts body).1 <;> simp
  rw [both, bodyCidr_isSome]
  simp only [Option.isSome_iff_exists, mechanismType_iff, bodyName_iff]
  exact ⟨fun ⟨named, numbered⟩ => ⟨named, numbered⟩, fun ⟨named, numbered⟩ => ⟨named, numbered⟩⟩

/-- A modifier, or a mechanism with or without a sign. -/
inductive Readable : Bytes → Prop where
  | redirect {term : Bytes} : ascii "redirect=" <+: term → Readable term
  | exp {term : Bytes} : ascii "exp=" <+: term → Readable term
  | signed {c : UInt8} {q : SpfQualifier} {body : Bytes} :
      parseQualifier c = some q → IsMechanism body → Readable (c :: body)
  | unsigned {body : Bytes} : IsMechanism body → Readable body

theorem IsMechanism.unsigned (mechanism : IsMechanism body) :
    body.head?.bind parseQualifier = none := by
  obtain ⟨type, rfl | ⟨args, rfl⟩⟩ := mechanism.named
  · cases type <;> rfl
  · cases type <;> rfl

theorem parseMechanism_isSome : (parseMechanism term).isSome ↔
    IsMechanism term ∨ ∃ c q body, term = c :: body ∧ parseQualifier c = some q ∧ IsMechanism body := by
  constructor
  · intro parsed
    cases sign : term.head?.bind parseQualifier with
    | none =>
        rw [parseMechanism_unsigned sign, parseBody_isSome] at parsed
        exact .inl parsed
    | some q =>
        obtain ⟨c, first, qualifier⟩ := Option.bind_eq_some_iff.mp sign
        obtain ⟨body, rfl⟩ := List.head?_eq_some_iff.mp first
        rw [parseMechanism_signed qualifier, parseBody_isSome] at parsed
        exact .inr ⟨c, q, body, rfl, qualifier, parsed⟩
  · rintro (mechanism | ⟨c, q, body, rfl, qualifier, mechanism⟩)
    · rw [parseMechanism_unsigned mechanism.unsigned, parseBody_isSome]
      exact mechanism
    · rw [parseMechanism_signed qualifier, parseBody_isSome]
      exact mechanism

theorem addTerm_isSome (rec : SpfRecord) : (addTerm rec term).isSome ↔ Readable term := by
  unfold addTerm
  split
  · rename_i redirect
    exact iff_of_true rfl (.redirect (List.isPrefixOf_iff_prefix.mp redirect))
  · rename_i notRedirect
    split
    · rename_i exp
      exact iff_of_true rfl (.exp (List.isPrefixOf_iff_prefix.mp exp))
    · rename_i notExp
      rw [Option.isSome_map, parseMechanism_isSome]
      constructor
      · rintro (mechanism | ⟨c, q, body, rfl, qualifier, mechanism⟩)
        · exact .unsigned mechanism
        · exact .signed qualifier mechanism
      · intro readable
        cases readable with
        | redirect starts => exact absurd (List.isPrefixOf_iff_prefix.mpr starts) notRedirect
        | exp starts => exact absurd (List.isPrefixOf_iff_prefix.mpr starts) notExp
        | signed qualifier mechanism => exact .inr ⟨_, _, _, rfl, qualifier, mechanism⟩
        | unsigned mechanism => exact .inl mechanism

theorem foldlM_isSome {terms : List Bytes} (rec : SpfRecord) :
    (terms.foldlM addTerm rec).isSome ↔ ∀ term ∈ terms, Readable term := by
  induction terms generalizing rec with
  | nil => simp
  | cons term terms ih =>
      rw [List.foldlM_cons, List.forall_mem_cons, ← addTerm_isSome rec]
      cases addTerm rec term with
      | none => simp
      | some next => simpa using ih next

theorem parse_isSome {txt : Bytes} :
    (SpfParser.parse txt).isSome ↔ isSpf txt = true ∧ ∀ term ∈ (words txt).tail, Readable term := by
  unfold SpfParser.parse
  cases isSpf txt with
  | false => simp
  | true => simpa [words] using foldlM_isSome {}

end Terms

/-! ## Records as they are written -/

def qualifierByte : SpfQualifier → UInt8
  | .plus => 43
  | .minus => 45
  | .tilde => 126
  | .question => 63

/-- A mechanism with what is written of it. Without a sign it is a plus. -/
structure WrittenMechanism where
  sign : Option SpfQualifier
  type : SpfMechanismType
  domain : Option Bytes
  prefixLength : Option Nat
  plain : ∀ d ∈ domain, ∀ c ∈ d, isSpace c = false ∧ c ≠ slash

namespace WrittenMechanism

def domainText (m : WrittenMechanism) : Bytes := (m.domain.map fun d => colon :: d).getD []

def lengthText (m : WrittenMechanism) : Bytes :=
  (m.prefixLength.map fun n => slash :: toDecimal n).getD []

def body (m : WrittenMechanism) : Bytes := m.type.name ++ (m.domainText ++ m.lengthText)

def text (m : WrittenMechanism) : Bytes :=
  match m.sign with
  | some q => qualifierByte q :: m.body
  | none => m.body

/-- The mechanism that is meant. -/
def mechanism (m : WrittenMechanism) : SpfMechanism :=
  { qualifier := m.sign.getD .plus
    type := m.type
    domain := m.domain.getD []
    cidr := (m.prefixLength.map Nat.cast).getD (-1) }

end WrittenMechanism

/-- A modifier has a value without spaces. -/
inductive WrittenTerm where
  | mechanism (m : WrittenMechanism)
  | redirect (target : Bytes) (plain : ∀ c ∈ target, isSpace c = false)
  | exp (target : Bytes) (plain : ∀ c ∈ target, isSpace c = false)

namespace WrittenTerm

def text : WrittenTerm → Bytes
  | .mechanism m => m.text
  | .redirect target _ => ascii "redirect=" ++ target
  | .exp target _ => ascii "exp=" ++ target

def mechanism? : WrittenTerm → Option WrittenMechanism
  | .mechanism m => some m
  | _ => none

def redirect? : WrittenTerm → Option Bytes
  | .redirect target _ => some target
  | _ => none

def exp? : WrittenTerm → Option Bytes
  | .exp target _ => some target
  | _ => none

end WrittenTerm

/-- The terms, each with the white space before it, in an order of their own. Each modifier
    is there once at most. -/
structure WrittenRecord where
  terms : List (Bytes × WrittenTerm)
  trailing : Bytes
  gaps : ∀ p ∈ terms, p.1 ≠ [] ∧ ∀ c ∈ p.1, isSpace c = true
  blank : ∀ c ∈ trailing, isSpace c = true
  oneRedirect : (terms.filterMap (·.2.redirect?)).length ≤ 1
  oneExp : (terms.filterMap (·.2.exp?)).length ≤ 1

namespace WrittenRecord

def text (r : WrittenRecord) : Bytes :=
  ascii "v=spf1" ++ ((r.terms.map fun p => (p.1, p.2.text)).flatMap (fun p => p.1 ++ p.2) ++ r.trailing)

def mechanisms (r : WrittenRecord) : List WrittenMechanism := r.terms.filterMap (·.2.mechanism?)

/-- The record that is meant. -/
def record (r : WrittenRecord) : SpfRecord :=
  { mechanisms := r.mechanisms.map WrittenMechanism.mechanism
    redirect := (r.terms.filterMap (·.2.redirect?)).head?
    exp := (r.terms.filterMap (·.2.exp?)).head? }

end WrittenRecord

section Written

variable {m : WrittenMechanism} {r : WrittenRecord}

theorem WrittenMechanism.slash_domain (m : WrittenMechanism) : slash ∉ m.domainText := by
  unfold domainText
  cases domain : m.domain with
  | none => simp
  | some d =>
      have other : slash ≠ colon := by decide
      have clean : slash ∉ d := fun member => (m.plain d (by simp [domain]) slash member).2 rfl
      simp [other, clean]

theorem WrittenMechanism.unsigned (m : WrittenMechanism) : m.body.head?.bind parseQualifier = none := by
  unfold body
  cases m.type <;> rfl

theorem parseMechanism_text (m : WrittenMechanism) :
    parseMechanism m.text = parseBody (m.sign.getD .plus) m.body := by
  unfold WrittenMechanism.text
  cases m.sign with
  | none => exact parseMechanism_unsigned m.unsigned
  | some q => exact parseMechanism_signed (by cases q <;> decide)

/-- Only a mechanism without a prefix length is read as it is meant. -/
theorem parse_mechanism_iff :
    parseMechanism m.text = some m.mechanism ↔ m.prefixLength = none := by
  rw [parseMechanism_text, parseBody]
  have known := @mechanismType_iff m.type.name m.type
  cases domain : m.domain with
  | none =>
      have text : m.domainText = [] := by simp [WrittenMechanism.domainText, domain]
      have named : colon ∉ m.type.name ++ m.lengthText := by
        rw [List.mem_append, not_or]
        refine ⟨not_mem_name m.type (by decide), ?_⟩
        unfold WrittenMechanism.lengthText
        cases m.prefixLength with
        | none => simp
        | some n =>
            have other : colon ≠ slash := by decide
            have digits : colon ∉ toDecimal n := fun member =>
              absurd (toDecimal_digit member).2 (by decide)
            simp [other, digits]
      have parts : bodyParts m.body = (m.body, []) := by
        rw [bodyParts, cut_none]
        · rfl
        · rwa [WrittenMechanism.body, text, List.nil_append]
      cases length : m.prefixLength with
      | none =>
          have body : m.body = m.type.name := by
            simp [WrittenMechanism.body, text, WrittenMechanism.lengthText, length]
          have cidr : bodyCidr m.body = some (-1) := by
            rw [bodyCidr, body, cut_none (not_mem_name m.type (by decide))]
          rw [parts, cidr, body, Option.bind_some, known.mpr rfl]
          simp [WrittenMechanism.mechanism, domain, length]
      | some n =>
          -- the whole body is taken for the name
          have unknown : mechanismType m.body = none := by
            rw [Option.eq_none_iff_forall_ne_some]
            intro type found
            have inside : slash ∈ m.body := by
              simp [WrittenMechanism.body, WrittenMechanism.lengthText, length]
            rw [mechanismType_iff.mp found] at inside
            exact not_mem_name type (by decide) inside
          rw [parts, unknown]
          simp
  | some d =>
      have text : m.domainText = colon :: d := by simp [WrittenMechanism.domainText, domain]
      have parts : bodyParts m.body = (m.type.name, d ++ m.lengthText) := by
        rw [bodyParts, WrittenMechanism.body, text, List.cons_append,
          cut_append (not_mem_name m.type (by decide))]
        rfl
      rw [parts, known.mpr rfl]
      cases length : m.prefixLength with
      | none =>
          have lengthText : m.lengthText = [] := by simp [WrittenMechanism.lengthText, length]
          have cidr : bodyCidr m.body = some (-1) := by
            rw [bodyCidr, cut_none]
            rw [WrittenMechanism.body, lengthText, List.append_nil, List.mem_append, not_or]
            exact ⟨not_mem_name m.type (by decide), m.slash_domain⟩
          simp [cidr, lengthText, WrittenMechanism.mechanism, domain, length]
      | some n =>
          -- the length stays in the domain
          have lengthText : m.lengthText = slash :: toDecimal n := by
            simp [WrittenMechanism.lengthText, length]
          cases bodyCidr m.body with
          | none => simp
          | some cidr => simp [lengthText, WrittenMechanism.mechanism, domain]

theorem WrittenMechanism.isWord (m : WrittenMechanism) : IsWord m.text := by
  have name : IsWord m.type.name := by cases m.type <;> decide
  have domain : ∀ c ∈ m.domainText, isSpace c = false := by
    unfold domainText
    cases some_ : m.domain with
    | none => simp
    | some d =>
        exact List.forall_mem_cons.mpr ⟨by decide, fun c member => (m.plain d (by simp [some_]) c member).1⟩
  have length : ∀ c ∈ m.lengthText, isSpace c = false := by
    unfold lengthText
    cases m.prefixLength with
    | none => simp
    | some n =>
        refine List.forall_mem_cons.mpr ⟨by decide, fun c member => ?_⟩
        have digit := toDecimal_digit member
        exact (digit_plain (by simp [isDigit, digit])).1
  have body : IsWord m.body := name.append (List.forall_mem_append.mpr ⟨domain, length⟩)
  unfold text
  cases m.sign with
  | none => exact body
  | some q =>
      have sign : IsWord [qualifierByte q] := by cases q <;> decide
      exact sign.append body.2

theorem WrittenTerm.isWord (t : WrittenTerm) : IsWord t.text := by
  cases t with
  | mechanism m => exact m.isWord
  | redirect target plain =>
      have key : IsWord (ascii "redirect=") := by decide
      exact key.append plain
  | exp target plain =>
      have key : IsWord (ascii "exp=") := by decide
      exact key.append plain

theorem addTerm_mechanism (rec : SpfRecord) (m : WrittenMechanism) :
    addTerm rec m.text = (parseMechanism m.text).map fun mech =>
      { rec with mechanisms := rec.mechanisms ++ [mech] } := by
  have begins : (ascii "redirect=").isPrefixOf m.text = false ∧
      (ascii "exp=").isPrefixOf m.text = false := by
    unfold WrittenMechanism.text WrittenMechanism.body
    cases m.sign with
    | none => cases m.type <;> exact ⟨rfl, rfl⟩
    | some q => cases q <;> exact ⟨rfl, rfl⟩
  simp [addTerm, begins]

theorem addTerm_redirect (rec : SpfRecord) (target : Bytes) :
    addTerm rec (ascii "redirect=" ++ target) = some { rec with redirect := some target } := by
  have starts : (ascii "redirect=").isPrefixOf (ascii "redirect=" ++ target) = true :=
    List.isPrefixOf_iff_prefix.mpr (List.prefix_append _ _)
  rw [addTerm, if_pos starts]
  rfl

theorem addTerm_exp (rec : SpfRecord) (target : Bytes) :
    addTerm rec (ascii "exp=" ++ target) = some { rec with exp := some target } := by
  have other : (ascii "redirect=").isPrefixOf (ascii "exp=" ++ target) = false := rfl
  have starts : (ascii "exp=").isPrefixOf (ascii "exp=" ++ target) = true :=
    List.isPrefixOf_iff_prefix.mpr (List.prefix_append _ _)
  rw [addTerm, if_neg (by simp [other]), if_pos starts]
  rfl

theorem foldlM_prefix {terms : List Bytes} {rec out : SpfRecord}
    (read : terms.foldlM addTerm rec = some out) : rec.mechanisms <+: out.mechanisms := by
  induction terms generalizing rec with
  | nil =>
      obtain rfl := Option.some.inj read
      exact List.prefix_rfl
  | cons term terms ih =>
      obtain ⟨next, added, read⟩ := Option.bind_eq_some_iff.mp read
      refine List.IsPrefix.trans ?_ (ih read)
      unfold addTerm at added
      split_ifs at added
      · obtain rfl := Option.some.inj added
        exact List.prefix_rfl
      · obtain rfl := Option.some.inj added
        exact List.prefix_rfl
      · obtain ⟨mech, -, rfl⟩ := Option.map_eq_some_iff.mp added
        exact List.prefix_append _ _

theorem last_cons {target : Bytes} {targets : List Bytes} {earlier : Option Bytes} :
    (target :: targets).getLast?.or earlier = targets.getLast?.or (some target) := by
  rw [List.getLast?_cons]
  cases targets.getLast? <;> rfl

/-- The terms are read as they are meant, behind those that have been read, if and only if
    no mechanism has a prefix length. -/
theorem foldlM_terms {ts : List WrittenTerm} {rec : SpfRecord} :
    (ts.map WrittenTerm.text).foldlM addTerm rec = some
      { mechanisms := rec.mechanisms ++ (ts.filterMap (·.mechanism?)).map WrittenMechanism.mechanism
        redirect := (ts.filterMap (·.redirect?)).getLast?.or rec.redirect
        exp := (ts.filterMap (·.exp?)).getLast?.or rec.exp } ↔
      ∀ m ∈ ts.filterMap (·.mechanism?), m.prefixLength = none := by
  induction ts generalizing rec with
  | nil => simp
  | cons t ts ih =>
      rw [List.map_cons, List.foldlM_cons]
      cases t with
      | mechanism m =>
          have next := @ih { rec with mechanisms := rec.mechanisms ++ [m.mechanism] }
          have mechs : (WrittenTerm.mechanism m :: ts).filterMap (·.mechanism?) =
            m :: ts.filterMap (·.mechanism?) := rfl
          have redirects : (WrittenTerm.mechanism m :: ts).filterMap (·.redirect?) =
            ts.filterMap (·.redirect?) := rfl
          have exps : (WrittenTerm.mechanism m :: ts).filterMap (·.exp?) =
            ts.filterMap (·.exp?) := rfl
          rw [mechs, redirects, exps, List.forall_mem_cons, ← parse_mechanism_iff, ← next,
            List.map_cons, WrittenTerm.text, addTerm_mechanism]
          cases parsed : parseMechanism m.text with
          | none => simp
          | some mech =>
              by_cases same : mech = m.mechanism
              · subst same
                simp
              · refine iff_of_false (fun read => ?_) fun ⟨equal, _⟩ => same (Option.some.inj equal)
                -- the mechanism that was read is not at its place among those that are meant
                have stays := foldlM_prefix read
                rw [List.prefix_append_right_inj] at stays
                exact same (List.cons_prefix_cons.mp stays).1
      | redirect target plain =>
          have next := @ih { rec with redirect := some target }
          have redirects : (WrittenTerm.redirect target plain :: ts).filterMap (·.redirect?) =
            target :: ts.filterMap (·.redirect?) := rfl
          rw [redirects, last_cons, WrittenTerm.text, addTerm_redirect]
          exact next
      | exp target plain =>
          have next := @ih { rec with exp := some target }
          have exps : (WrittenTerm.exp target plain :: ts).filterMap (·.exp?) =
            target :: ts.filterMap (·.exp?) := rfl
          rw [exps, last_cons, WrittenTerm.text, addTerm_exp]
          exact next

theorem getLast?_eq_head? {α : Type} {l : List α} (single : l.length ≤ 1) : l.getLast? = l.head? := by
  match l, single with
  | [], _ => rfl
  | [_], _ => rfl

end Written

/-- A record is read back if and only if no mechanism has a prefix length. -/
theorem parse_text_iff (r : WrittenRecord) : SpfParser.parse r.text = some r.record ↔
    ∀ m ∈ r.mechanisms, m.prefixLength = none := by
  have spf : isSpf r.text = true := List.isPrefixOf_iff_prefix.mpr (List.prefix_append _ _)
  have version : IsWord (ascii "v=spf1") := by decide
  have split : words r.text = ascii "v=spf1" :: (r.terms.map Prod.snd).map WrittenTerm.text := by
    rw [WrittenRecord.text, words_gaps version ?_ r.blank]
    · simp
    · intro p member
      obtain ⟨q, there, rfl⟩ := List.mem_map.mp member
      exact ⟨(r.gaps q there).1, (r.gaps q there).2, q.2.isWord⟩
  have read := @foldlM_terms (r.terms.map Prod.snd) {}
  simp only [List.filterMap_map, Function.comp_def, List.nil_append, Option.or_none,
    getLast?_eq_head? r.oneRedirect, getLast?_eq_head? r.oneExp] at read
  rw [words] at split
  rw [SpfParser.parse, spf, split]
  exact read

/-- `v=spf1 -a/24` -/
def networkRecord : WrittenRecord where
  terms := [([space], .mechanism ⟨some .minus, .a, none, some 24, by simp⟩)]
  trailing := []
  gaps := by simp; decide
  blank := by simp
  oneRedirect := by decide
  oneExp := by decide

/-- It is not read at all. -/
theorem network_unread :
    networkRecord.text = ascii "v=spf1 -a/24" ∧ SpfParser.parse networkRecord.text = none := by
  decide +kernel

end EmailServer.AntiSpam
