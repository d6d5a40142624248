import EmailServer.AntiSpam.Dkim

/-! # What the verifier makes of a signed message

The signer runs the canonical fields together and encodes the signature; the verifier
ends each field with CRLF and does not decode. So the two agree only about nothing:
when neither selects a field, and the first signature of the message is another one,
which stands there undecoded and is accepted for the empty text.
-/

namespace EmailServer.AntiSpam

open EmailServer.Bytes

/-! ## Canonical fields -/

namespace DkimCanon

variable {headers line field want : Bytes} {names : List Bytes}

theorem lowerByte_ne_lf {c : UInt8} (other : c ≠ lf) : lowerByte c ≠ lf := fun lower =>
  other (lowerByte_other (by decide) lower)

theorem addLine_clean {lines : List Bytes} {current : Bytes} (clean : ∀ l ∈ lines, lf ∉ l)
    (open_ : lf ∉ current) (fresh : lf ∉ line) :
    (∀ l ∈ (addLine (lines, current) line).1, lf ∉ l) ∧ lf ∉ (addLine (lines, current) line).2 := by
  have chopped : lf ∉ (if line.getLast? = some cr then line.dropLast else line) := by
    split
    · exact fun member => fresh (List.dropLast_subset _ member)
    · exact fresh
  simp only [addLine]
  generalize (if line.getLast? = some cr then line.dropLast else line) = line at chopped
  split
  · refine ⟨clean, ?_⟩
    have tail : lf ∉ line.tail := fun member => chopped (List.mem_of_mem_tail member)
    intro member
    rcases List.mem_append.mp member with old | new
    · exact open_ old
    · rcases List.mem_cons.mp new with isSpace | new
      · cases isSpace
      · exact tail new
  · refine ⟨?_, chopped⟩
    split
    · intro l member
      rcases List.mem_append.mp member with old | new
      · exact clean l old
      · obtain rfl := List.mem_singleton.mp new
        exact open_
    · exact clean

theorem unfoldLines_clean (member : line ∈ unfoldLines headers) : lf ∉ line := by
  have folded : ∀ (rest lines : List Bytes) (current : Bytes), (∀ l ∈ rest, lf ∉ l) →
      (∀ l ∈ lines, lf ∉ l) → lf ∉ current →
      (∀ l ∈ (rest.foldl addLine (lines, current)).1, lf ∉ l) ∧
        lf ∉ (rest.foldl addLine (lines, current)).2 := by
    intro rest
    induction rest with
    | nil => exact fun _ _ _ clean open_ => ⟨clean, open_⟩
    | cons l rest ih =>
        intro lines current fresh clean open_
        obtain ⟨clean, open_⟩ := addLine_clean clean open_ (fresh l List.mem_cons_self)
        exact ih _ _ (fun l member => fresh l (List.mem_cons_of_mem _ member)) clean open_
  obtain ⟨clean, open_⟩ := folded (getlines lf headers) [] []
    (fun l member => getlines_clean member) (by simp) (by simp)
  simp only [unfoldLines] at member
  split at member
  · rcases List.mem_append.mp member with old | last
    · exact clean line old
    · obtain rfl := List.mem_singleton.mp last
      exact open_
  · exact clean line member

theorem canonicalField_clean (clean : lf ∉ line) (canonical : canonicalField want line = some field) :
    field ≠ [] ∧ lf ∉ field := by
  unfold canonicalField at canonical
  cases parts : cut colon line with
  | none =>
      rw [parts] at canonical
      cases canonical
  | some part =>
      obtain ⟨name, value⟩ := part
      simp only [parts] at canonical
      split at canonical
      · obtain rfl := Option.some.inj canonical
        refine ⟨by simp, ?_⟩
        have whole : name ⊆ line ∧ value ⊆ line := by
          unfold cut at parts
          split at parts
          · obtain ⟨rfl, rfl⟩ := Prod.mk.inj (Option.some.inj parts)
            exact ⟨(List.takeWhile_prefix _).subset,
              ((List.drop_suffix _ _).trans (List.dropWhile_suffix _)).subset⟩
          · cases parts
        intro member
        simp only [List.mem_append, List.mem_cons] at member
        rcases member with inName | isColon | inValue
        · obtain ⟨c, inName, lower⟩ := List.mem_map.mp inName
          exact lowerByte_ne_lf (fun same => clean (whole.1 (same ▸ inName))) lower
        · cases isColon
        · rcases mem_compressWsp inValue with isSpace | inValue
          · cases isSpace
          · have inside := (List.dropWhile_suffix _).subset (List.mem_reverse.mp inValue)
            exact clean (whole.2 ((List.dropWhile_suffix _).subset (List.mem_reverse.mp inside)))
      · cases canonical

theorem canonicalizeHeadersRelaxed_clean (member : field ∈ canonicalizeHeadersRelaxed headers names) :
    field ≠ [] ∧ lf ∉ field := by
  obtain ⟨name, _, selected⟩ := List.mem_filterMap.mp member
  obtain ⟨line, found, canonical⟩ := List.exists_of_findSome?_eq_some selected
  exact canonicalField_clean (unfoldLines_clean (List.mem_reverse.mp found)) canonical

end DkimCanon

variable {PrivateKey PublicKey : Type} {evp : Evp PrivateKey PublicKey}
  {lookupTxt : Bytes → List Bytes} {cfg : DkimSignConfig} {headers body bare : Bytes}

/-! ## What is signed and what is fed -/

theorem DkimSigner.signingData_clean : lf ∉ DkimSigner.signingData cfg headers bare := by
  intro member
  obtain ⟨field, selected, inside⟩ := List.mem_flatten.mp member
  exact (DkimCanon.canonicalizeHeadersRelaxed_clean selected).2 inside

theorem DkimSigner.signingData_nil :
    DkimSigner.signingData cfg headers bare = [] ↔
      DkimSigner.canonHeaders cfg headers bare = [] := by
  constructor
  · intro empty
    refine List.eq_nil_iff_forall_not_mem.mpr fun field selected => ?_
    exact (DkimCanon.canonicalizeHeadersRelaxed_clean selected).1
      (List.flatten_eq_nil_iff.mp empty field selected)
  · intro empty
    rw [DkimSigner.signingData, empty, List.flatten_nil]

/-- The same bytes are fed as were signed only if neither are any. -/
theorem fed_eq_signed {fedHeaders h : Bytes} :
    DkimVerifier.verifyData fedHeaders h = DkimSigner.signingData cfg headers bare ↔
      DkimVerifier.canonHeaders fedHeaders h = [] ∧
        DkimSigner.canonHeaders cfg headers bare = [] := by
  constructor
  · intro same
    have unread : DkimVerifier.canonHeaders fedHeaders h = [] := by
      cases selected : DkimVerifier.canonHeaders fedHeaders h with
      | nil => rfl
      | cons field fields =>
          have fed : lf ∈ DkimVerifier.verifyData fedHeaders h := by
            simp [DkimVerifier.verifyData, selected, crlf]
          exact absurd (same ▸ fed) DkimSigner.signingData_clean
    refine ⟨unread, DkimSigner.signingData_nil.mp ?_⟩
    rw [← same, DkimVerifier.verifyData, unread, List.flatMap_nil]
  · rintro ⟨unread, unsigned⟩
    rw [DkimVerifier.verifyData, unread, List.flatMap_nil, DkimSigner.signingData_nil.mpr unsigned]

/-! ## Signing and verifying -/

/-- The two halves of an RSA key, with a modulus of `size` bytes. -/
structure Evp.KeyPair (evp : Evp PrivateKey PublicKey) (key : PrivateKey) (pub : PublicKey)
    (size : Nat) : Prop where
  signed : ∀ data, evp.digestVerify pub data (evp.digestSign key data) = true
  /-- What is not as long as the modulus is no signature. -/
  length : ∀ data sig, evp.digestVerify pub data sig = true → sig.length = size
  positive : 0 < size

/-- The public half of the key is published for the domain and the selector. -/
def Published (evp : Evp PrivateKey PublicKey) (lookupTxt : Bytes → List Bytes)
    (cfg : DkimSignConfig) (key : PrivateKey) : Prop :=
  ∃ txt more pub size,
    lookupTxt (cfg.selector ++ ascii "._domainkey." ++ cfg.domain) = txt :: more ∧
      loadPublicKey evp txt = some pub ∧ evp.KeyPair key pub size

/-- The header block of the message with the signature. -/
def withSignature (headers signature : Bytes) : Bytes := headers ++ crlf ++ signature ++ crlf

/-- If the signer returns a header, the message with it passes, and what the verifier
    feeds to the digest is what was signed. -/
def SignedPasses (evp : Evp PrivateKey PublicKey) (lookupTxt : Bytes → List Bytes)
    (cfg : DkimSignConfig) (headers body : Bytes) : Prop :=
  ∀ h, DkimSigner.sign evp cfg headers body = some h → h ≠ [] →
    DkimVerifier.Verdict evp lookupTxt (withSignature headers h) body .pass ∧
      ∀ t canonBody, DkimVerifier.tags (withSignature headers h) = some t →
        DkimCanon.canonicalizeBodyRelaxed body = some canonBody →
        DkimVerifier.verifyData (withSignature headers h) t.h =
          DkimSigner.signingData cfg headers (DkimSigner.unsigned evp cfg canonBody)

/-- The tags that the signer wrote are the ones that are read. -/
def OwnTags (cfg : DkimSignConfig) (signature : Bytes) (t : DkimTags) : Prop :=
  t.domain = cfg.domain ∧ t.selector = cfg.selector ∧ t.b = signature

/-- The header fields of the message select nothing to sign and nothing to verify, and
    begin with the tags of another signature, which the key published for them accepts,
    undecoded, for the empty text. -/
structure CoversNothing (evp : Evp PrivateKey PublicKey) (lookupTxt : Bytes → List Bytes)
    (cfg : DkimSignConfig) (key : PrivateKey) (headers bare : Bytes) (t : DkimTags) : Prop where
  read : DkimVerifier.tags
    (withSignature headers (bare ++ DkimSigner.signature evp cfg key headers bare)) = some t
  foreign : ¬ OwnTags cfg (DkimSigner.signature evp cfg key headers bare) t
  accepted : DkimVerifier.Accepts evp lookupTxt t []
  unread : DkimVerifier.canonHeaders
    (withSignature headers (bare ++ DkimSigner.signature evp cfg key headers bare)) t.h = []
  unsigned : DkimSigner.canonHeaders cfg headers bare = []

theorem own_rejected {key : PrivateKey} {t : DkimTags} {data : Bytes}
    (published : Published evp lookupTxt cfg key)
    (own : OwnTags cfg (DkimSigner.signature evp cfg key headers bare) t) :
    ¬ DkimVerifier.Accepts evp lookupTxt t data := by
  obtain ⟨txt, more, pub, size, records, loaded, pair⟩ := published
  obtain ⟨domain, selector, b⟩ := own
  rintro ⟨_, _, txt', more', pub', records', loaded', accepted⟩
  rw [DkimVerifier.keyName, domain, selector, records] at records'
  obtain ⟨rfl, rfl⟩ := List.cons.inj records'
  obtain rfl := Option.some.inj (loaded.symm.trans loaded')
  have encoded := pair.length _ _ accepted
  have raw := pair.length _ _ (pair.signed (DkimSigner.signingData cfg headers bare))
  have longer := Base64.length_encode (evp.digestSign key (DkimSigner.signingData cfg headers bare))
  have positive := pair.positive
  rw [b, DkimSigner.signature] at encoded
  omega

/-- When the message passes with the same bytes fed as signed, neither were any, and the
    signature that was accepted is another one. -/
theorem SignedPasses.covers (passes : SignedPasses evp lookupTxt cfg headers body) {key : PrivateKey}
    {canonBody : Bytes} (canonical : DkimCanon.canonicalizeBodyRelaxed body = some canonBody)
    (loaded : evp.loadPrivateKey cfg.privateKeyPath = some key)
    (published : Published evp lookupTxt cfg key) :
    ∃ t, CoversNothing evp lookupTxt cfg key headers (DkimSigner.unsigned evp cfg canonBody) t := by
  obtain ⟨verdict, fed⟩ := passes
    (DkimSigner.unsigned evp cfg canonBody ++
      DkimSigner.signature evp cfg key headers (DkimSigner.unsigned evp cfg canonBody))
    (by simp [DkimSigner.sign, canonical, loaded])
    (by simp [DkimSigner.unsigned, DkimSigner.dkimHeaderBare, ascii])
  obtain ⟨⟨t, read, accepted⟩, _⟩ := DkimVerifier.verdict_pass.mp verdict
  have same := fed t canonBody read canonical
  obtain ⟨unread, unsigned⟩ := fed_eq_signed.mp same
  have foreign : ¬ OwnTags cfg
      (DkimSigner.signature evp cfg key headers (DkimSigner.unsigned evp cfg canonBody)) t :=
    fun own => own_rejected published own accepted
  rw [same, DkimSigner.signingData_nil.mpr unsigned] at accepted
  exact ⟨t, read, foreign, accepted, unread, unsigned⟩

/-- A signed message passes, with the same bytes fed as signed, if and only if nothing
    was signed or the signature covers nothing and is another one. -/
theorem signed_passes_iff
    (published : ∀ key, evp.loadPrivateKey cfg.privateKeyPath = some key →
      Published evp lookupTxt cfg key) :
    SignedPasses evp lookupTxt cfg headers body ↔
      ∀ canonBody key, DkimCanon.canonicalizeBodyRelaxed body = some canonBody →
        evp.loadPrivateKey cfg.privateKeyPath = some key →
        ∃ t, CoversNothing evp lookupTxt cfg key headers (DkimSigner.unsigned evp cfg canonBody) t := by
  constructor
  · intro passes canonBody key canonical loaded
    exact passes.covers canonical loaded (published key loaded)
  · intro covers h signed nonempty
    cases canonical : DkimCanon.canonicalizeBodyRelaxed body with
    | none => simp [DkimSigner.sign, canonical] at signed
    | some canonBody =>
        cases loaded : evp.loadPrivateKey cfg.privateKeyPath with
        | none =>
            simp only [DkimSigner.sign, canonical, loaded, Option.some.injEq] at signed
            exact absurd signed.symm nonempty
        | some key =>
            simp only [DkimSigner.sign, canonical, loaded, Option.some.injEq] at signed
            obtain ⟨t, covers⟩ := covers canonBody key canonical loaded
            have same := fed_eq_signed.mpr ⟨covers.unread, covers.unsigned⟩
            subst signed
            refine ⟨DkimVerifier.verdict_pass.mpr ⟨⟨t, covers.read, ?_⟩, canonBody, canonical⟩, ?_⟩
            · rw [same, DkimSigner.signingData_nil.mpr covers.unsigned]
              exact covers.accepted
            · intro t' canonBody' read canonical'
              obtain rfl := Option.some.inj (covers.read.symm.trans read)
              obtain rfl := Option.some.inj canonical'
              exact same

/-! ## Ordinary messages -/

/-- A value that is written into a tag as it is. -/
def TagValue (value : Bytes) : Prop := equals ∉ value ∧ semicolon ∉ value ∧ cr ∉ value

instance (value : Bytes) : Decidable (TagValue value) := inferInstanceAs (Decidable (_ ∧ _ ∧ _))

/-- Encoded data does not end in what looks like the tag of the signature. -/
theorem find_b_encode (data rest : Bytes) :
    find (ascii "b=") (Base64.encode data ++ (semicolon :: rest)) =
      find (ascii "b=") (semicolon :: rest) := by
  have letters : ∀ {n}, n < 64 → equals ≠ Base64.letter n :=
    fun small same => Base64.letter_ne_pad small same.symm
  have stops : ∀ x y more, x ≠ 98 →
      find (ascii "b=") (x :: y :: more) = find (ascii "b=") (y :: more) := by
    intro x y more other
    have starts : ¬ (ascii "b=").isPrefixOf (x :: y :: more) := by
      simp [ascii, List.isPrefixOf, other.symm]
    rw [find, if_neg starts]
  induction data using Base64.encode.induct with
  | case1 a b c rest' ih =>
      have boundA := a.toNat_lt
      have boundB := b.toNat_lt
      have boundC := c.toNat_lt
      have clean : equals ∉ [Base64.letter (a.toNat / 4),
          Base64.letter (a.toNat % 4 * 16 + b.toNat / 16),
          Base64.letter (b.toNat % 16 * 4 + c.toNat / 64), Base64.letter (c.toNat % 64)] := by
        simp only [List.mem_cons, List.not_mem_nil, or_false, not_or]
        exact ⟨letters (by omega), letters (by omega), letters (by omega), letters (by omega)⟩
      have first := @Base64.head_encode_append rest' rest semicolon (by decide)
      rw [← ih]
      exact find_pair clean first
  | case2 a b =>
      have boundA := a.toNat_lt
      have boundB := b.toNat_lt
      have clean : equals ∉ [Base64.letter (a.toNat / 4),
          Base64.letter (a.toNat % 4 * 16 + b.toNat / 16)] := by
        simp only [List.mem_cons, List.not_mem_nil, or_false, not_or]
        exact ⟨letters (by omega), letters (by omega)⟩
      have last : ∀ n : Fin 16, Base64.letter (n.val * 4) ≠ 98 := by decide
      have other := last ⟨b.toNat % 16, by omega⟩
      have paired := @find_pair _
        (Base64.letter (b.toNat % 16 * 4) :: Base64.pad :: semicolon :: rest)
        98 equals clean (by simpa using (letters (n := b.toNat % 16 * 4) (by omega)).symm)
      calc find (ascii "b=") (Base64.encode [a, b] ++ (semicolon :: rest))
          = find (ascii "b=") (Base64.letter (b.toNat % 16 * 4) :: Base64.pad :: semicolon :: rest) :=
            paired
        _ = find (ascii "b=") (Base64.pad :: semicolon :: rest) := stops _ _ _ other
        _ = find (ascii "b=") (semicolon :: rest) := stops _ _ _ (by decide)
  | case3 a =>
      have boundA := a.toNat_lt
      have clean : equals ∉ [Base64.letter (a.toNat / 4)] := by
        simpa using letters (n := a.toNat / 4) (by omega)
      have last : ∀ n : Fin 4, Base64.letter (n.val * 16) ≠ 98 := by decide
      have other := last ⟨a.toNat % 4, by omega⟩
      have paired := @find_pair _
        (Base64.letter (a.toNat % 4 * 16) :: Base64.pad :: Base64.pad :: semicolon :: rest)
        98 equals clean (by simpa using (letters (n := a.toNat % 4 * 16) (by omega)).symm)
      calc find (ascii "b=") (Base64.encode [a] ++ (semicolon :: rest))
          = find (ascii "b=")
              (Base64.letter (a.toNat % 4 * 16) :: Base64.pad :: Base64.pad :: semicolon :: rest) :=
            paired
        _ = find (ascii "b=") (Base64.pad :: Base64.pad :: semicolon :: rest) := stops _ _ _ other
        _ = find (ascii "b=") (Base64.pad :: semicolon :: rest) := stops _ _ _ (by decide)
        _ = find (ascii "b=") (semicolon :: rest) := stops _ _ _ (by decide)
  | case4 => rfl

theorem getTag_value {text tag value rest : Bytes} (clean : semicolon ∉ value)
    (found : find (tag ++ [equals]) text = some (tag ++ [equals] ++ (value ++ semicolon :: rest))) :
    getTag text tag = value := by
  have stop := bne_of_not_mem clean
  have begins : (tag ++ [equals] ++ (value ++ semicolon :: rest)).drop (tag.length + 1) =
      value ++ semicolon :: rest := List.drop_left' (by simp)
  simp only [getTag, found, begins]
  rw [List.takeWhile_append_of_pos stop]
  simp

theorem getTag_last {text tag value : Bytes} (clean : semicolon ∉ value)
    (found : find (tag ++ [equals]) text = some (tag ++ [equals] ++ value)) :
    getTag text tag = value := by
  have stop := bne_of_not_mem clean
  have begins : (tag ++ [equals] ++ value).drop (tag.length + 1) = value := List.drop_left' (by simp)
  simp only [getTag, found, begins]
  exact List.takeWhile_eq_self_iff.mpr stop

section Ordinary

variable {hash raw : Bytes}

theorem own_header (fresh : find (ascii "DKIM-Signature:") headers = none)
    (domain : TagValue cfg.domain) (selector : TagValue cfg.selector)
    (names : TagValue cfg.headersToSign) :
    (find (ascii "DKIM-Signature:") (withSignature headers
        (DkimSigner.dkimHeaderBare cfg (Base64.encode hash) ++ Base64.encode raw))).map (upTo crlf) =
      some (DkimSigner.dkimHeaderBare cfg (Base64.encode hash) ++ Base64.encode raw) := by
  have inCode : ∀ data, cr ∉ Base64.encode data := fun data => Base64.not_mem_encode data (by decide)
  have clean : cr ∉ DkimSigner.dkimHeaderBare cfg (Base64.encode hash) ++ Base64.encode raw := by
    have literals : cr ∉ ascii "DKIM-Signature: v=1; a=rsa-sha256; c=relaxed/relaxed; " ∧
        cr ∉ ascii "d=" ∧ cr ∉ ascii "; " ∧ cr ∉ ascii "s=" ∧ cr ∉ ascii "h=" ∧
        cr ∉ ascii "bh=" ∧ cr ∉ ascii "b=" := by decide
    simp only [DkimSigner.dkimHeaderBare, List.mem_append, not_or]
    simp [literals, domain.2.2, selector.2.2, names.2.2, inCode]
  have found : find (ascii "DKIM-Signature:") (withSignature headers
        (DkimSigner.dkimHeaderBare cfg (Base64.encode hash) ++ Base64.encode raw)) =
      some (DkimSigner.dkimHeaderBare cfg (Base64.encode hash) ++ Base64.encode raw ++ crlf) := by
    have skip := @find_append _ _
      ([lf] ++ (DkimSigner.dkimHeaderBare cfg (Base64.encode hash) ++ Base64.encode raw ++ crlf)) cr
      fresh (by decide)
    rw [withSignature, List.append_assoc, List.append_assoc]
    exact skip
  have header := @upTo_crlf _ [] clean
  rw [List.append_nil] at header
  rw [found, Option.map_some, header]

theorem own_tags (fresh : find (ascii "DKIM-Signature:") headers = none)
    (domain : TagValue cfg.domain) (selector : TagValue cfg.selector)
    (names : TagValue cfg.headersToSign) :
    ∃ t, DkimVerifier.tags (withSignature headers
        (DkimSigner.dkimHeaderBare cfg (Base64.encode hash) ++ Base64.encode raw)) = some t ∧
      OwnTags cfg (Base64.encode raw) t := by
  have header := @own_header cfg headers hash raw fresh domain selector names
  obtain ⟨rest, found, upTo⟩ := Option.map_eq_some_iff.mp header
  refine ⟨_, by rw [DkimVerifier.tags, found, Option.map_some], ?_⟩
  dsimp only [OwnTags]
  rw [upTo]
  have afterValue : ∀ (word : Bytes) (t : UInt8) {value rest : Bytes}, word = [t, equals] →
      equals ∉ value → find word (value ++ (ascii "; " ++ rest)) = find word (ascii "; " ++ rest) := by
    intro word t value rest pair clean
    rw [pair]
    exact find_pair clean (by simp [ascii, equals])
  simp only [DkimSigner.dkimHeaderBare, List.append_assoc]
  refine ⟨getTag_value domain.2.1 rfl, ?_, getTag_last (Base64.not_mem_encode raw (by decide)) ?_⟩
  · have start : ∀ rest, find (ascii "s=")
        (ascii "DKIM-Signature: v=1; a=rsa-sha256; c=relaxed/relaxed; " ++ (ascii "d=" ++ rest)) =
          find (ascii "s=") rest := fun _ => rfl
    exact getTag_value selector.2.1 ((start _).trans (afterValue (ascii "s=") 115 rfl domain.1))
  · have start : ∀ rest, find (ascii "b=")
        (ascii "DKIM-Signature: v=1; a=rsa-sha256; c=relaxed/relaxed; " ++ (ascii "d=" ++ rest)) =
          find (ascii "b=") rest := fun _ => rfl
    have next : ∀ rest,
        find (ascii "b=") (ascii "; " ++ (ascii "s=" ++ rest)) = find (ascii "b=") rest ∧
        find (ascii "b=") (ascii "; " ++ (ascii "h=" ++ rest)) = find (ascii "b=") rest ∧
        find (ascii "b=") (ascii "; " ++ (ascii "bh=" ++ rest)) = find (ascii "b=") rest :=
      fun _ => ⟨rfl, rfl, rfl⟩
    change find (ascii "b=") _ = some (ascii "b=" ++ _)
    rw [start, afterValue (ascii "b=") 98 rfl domain.1, (next _).1,
      afterValue (ascii "b=") 98 rfl selector.1, (next _).2.1,
      afterValue (ascii "b=") 98 rfl names.1, (next _).2.2]
    exact find_b_encode hash (ascii " b=" ++ Base64.encode raw)

theorem ordinary_fails (fresh : find (ascii "DKIM-Signature:") headers = none)
    (domain : TagValue cfg.domain) (selector : TagValue cfg.selector)
    (names : TagValue cfg.headersToSign) {key : PrivateKey} {canonBody : Bytes}
    (loaded : evp.loadPrivateKey cfg.privateKeyPath = some key)
    (canonical : DkimCanon.canonicalizeBodyRelaxed body = some canonBody)
    (published : Published evp lookupTxt cfg key) :
    ¬ SignedPasses evp lookupTxt cfg headers body := by
  intro passes
  obtain ⟨t, covers⟩ := passes.covers canonical loaded published
  obtain ⟨t', read, own⟩ := @own_tags cfg headers (evp.sha256 canonBody)
    (evp.digestSign key (DkimSigner.signingData cfg headers (DkimSigner.unsigned evp cfg canonBody)))
    fresh domain selector names
  obtain rfl := Option.some.inj (read.symm.trans covers.read)
  exact covers.foreign own

end Ordinary

/-! ## Examples -/

/-- A key of 64 bytes whose signatures are checksums. -/
def checksumEvp : Evp Unit Unit where
  sha256 data := List.replicate 32 (data.foldr UInt8.add 0)
  loadPrivateKey _ := some ()
  readPublicKey _ := some ()
  digestSign _ data := List.replicate 64 (data.foldr UInt8.add 0)
  digestVerify _ data sig := sig == List.replicate 64 (data.foldr UInt8.add 0)

def publishedKey : Bytes → List Bytes := fun _ => [ascii "v=DKIM1; k=rsa; p=key"]

def signConfig (names : Bytes) : DkimSignConfig where
  domain := ascii "example.com"
  selector := ascii "mail"
  privateKeyPath := ascii "dkim.pem"
  headersToSign := names

theorem checksum_published (names : Bytes) :
    Published checksumEvp publishedKey (signConfig names) () := by
  refine ⟨_, _, (), 64, rfl, rfl, ?_, ?_, by decide⟩
  · intro data
    simp [checksumEvp]
  · intro data sig accepted
    have same : sig = List.replicate 64 (data.foldr UInt8.add 0) := by
      simpa [checksumEvp] using accepted
    rw [same, List.length_replicate]

/-- A signature of nothing before the one that is written. -/
def signedNothing : Bytes := ascii "DKIM-Signature: d=example.org; s=old; b=" ++ List.replicate 64 0

/-- A message passes because of an earlier signature of the empty text. -/
theorem signed_passes_iff_nothing :
    SignedPasses checksumEvp publishedKey (signConfig (ascii "x-none")) signedNothing
      (ascii "hello") := by
  refine (signed_passes_iff fun key _ => checksum_published _).mpr ?_
  rintro canonBody ⟨⟩ canonical _
  have body : canonBody = ascii "hello\r\n" := (Option.some.inj canonical).symm
  subst body
  refine ⟨{ domain := ascii "example.org", selector := ascii "old", bh := [],
            b := List.replicate 64 0, h := [] }, ?_⟩
  exact {
    read := by decide +kernel
    foreign := fun own => absurd own.1 (by decide)
    accepted := ⟨by decide, by decide, _, _, (), rfl, rfl, by decide⟩
    unread := by decide +kernel
    unsigned := by decide +kernel }

/-- An ordinary signed message does not pass. -/
theorem signed_message_fails :
    Published checksumEvp publishedKey (signConfig (ascii "from")) () ∧
      ¬ SignedPasses checksumEvp publishedKey (signConfig (ascii "from"))
        (ascii "From: alice@example.com") (ascii "hello") := by
  have published := checksum_published (ascii "from")
  exact ⟨published, ordinary_fails (by decide) (by decide) (by decide) (by decide) rfl rfl published⟩

end EmailServer.AntiSpam
