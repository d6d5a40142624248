import EmailServer.AntiSpam.DkimCanon
import EmailServer.Library.Base64

/-! # DKIM signer and verifier

`DkimSigner::sign` and `DkimVerifier::verify`. DNS and OpenSSL are parameters. Log
lines are left out.
-/

namespace EmailServer.AntiSpam

open EmailServer.Bytes

inductive DkimResult where
  | none
  | pass
  | fail
  | tempError
  | permError
  deriving DecidableEq

structure DkimAuthResult where
  result : DkimResult := .none
  headerDomain : Bytes := []
  deriving DecidableEq

/-- What OpenSSL does. -/
structure Evp (PrivateKey PublicKey : Type) where
  sha256 : Bytes → Bytes
  /-- The private key in a PEM file. -/
  loadPrivateKey : Bytes → Option PrivateKey
  /-- `PEM_read_bio_PUBKEY` -/
  readPublicKey : Bytes → Option PublicKey
  digestSign : PrivateKey → Bytes → Bytes
  /-- Whether `EVP_DigestVerifyFinal` returns 1, for the data and a signature. -/
  digestVerify : PublicKey → Bytes → Bytes → Bool

variable {PrivateKey PublicKey : Type}

/-! ## Signing -/

structure DkimSignConfig where
  domain : Bytes
  selector : Bytes
  privateKeyPath : Bytes
  headersToSign : Bytes

def splitHeaderNames (h : Bytes) : List Bytes := (getlines colon h).filter (· ≠ [])

namespace DkimSigner

def dkimHeaderBare (cfg : DkimSignConfig) (bh : Bytes) : Bytes :=
  ascii "DKIM-Signature: v=1; a=rsa-sha256; c=relaxed/relaxed; " ++
    (ascii "d=" ++ (cfg.domain ++ (ascii "; " ++
      (ascii "s=" ++ (cfg.selector ++ (ascii "; " ++
        (ascii "h=" ++ (cfg.headersToSign ++ (ascii "; " ++
          (ascii "bh=" ++ (bh ++ (ascii "; " ++
            ascii "b="))))))))))))

/-- The header without its signature, for a canonical body. -/
def unsigned (evp : Evp PrivateKey PublicKey) (cfg : DkimSignConfig) (canonBody : Bytes) : Bytes :=
  dkimHeaderBare cfg (Base64.encode (evp.sha256 canonBody))

def canonHeaders (cfg : DkimSignConfig) (headers bare : Bytes) : List Bytes :=
  DkimCanon.canonicalizeHeadersRelaxed (headers ++ crlf ++ bare) (splitHeaderNames cfg.headersToSign)

def signingData (cfg : DkimSignConfig) (headers bare : Bytes) : Bytes :=
  (canonHeaders cfg headers bare).flatten

def signature (evp : Evp PrivateKey PublicKey) (cfg : DkimSignConfig) (key : PrivateKey)
    (headers bare : Bytes) : Bytes :=
  Base64.encode (evp.digestSign key (signingData cfg headers bare))

/-- The empty text without a key, `none` for an exception. -/
def sign (evp : Evp PrivateKey PublicKey) (cfg : DkimSignConfig) (headers body : Bytes) :
    Option Bytes :=
  match DkimCanon.canonicalizeBodyRelaxed body with
  | none => none
  | some canonBody =>
      let bare := unsigned evp cfg canonBody
      match evp.loadPrivateKey cfg.privateKeyPath with
      | none => some []
      | some key => some (bare ++ signature evp cfg key headers bare)

end DkimSigner

/-! ## Verifying -/

def getTag (h tag : Bytes) : Bytes :=
  match find (tag ++ [equals]) h with
  | none => []
  | some rest => (rest.drop (tag.length + 1)).takeWhile (· != semicolon)

def loadPublicKey (evp : Evp PrivateKey PublicKey) (txt : Bytes) : Option PublicKey :=
  (find (ascii "p=") txt).bind fun p => evp.readPublicKey (p.drop 2)

structure DkimTags where
  domain : Bytes
  selector : Bytes
  bh : Bytes
  b : Bytes
  h : Bytes
  deriving DecidableEq

namespace DkimVerifier

/-- The tags of the first signature in a header block. -/
def tags (headers : Bytes) : Option DkimTags :=
  (find (ascii "DKIM-Signature:") headers).map fun rest =>
    let dkimHeader := upTo crlf rest
    { domain := getTag dkimHeader (ascii "d")
      selector := getTag dkimHeader (ascii "s")
      bh := getTag dkimHeader (ascii "bh")
      b := getTag dkimHeader (ascii "b")
      h := getTag dkimHeader (ascii "h") }

def keyName (t : DkimTags) : Bytes := t.selector ++ ascii "._domainkey." ++ t.domain

def canonHeaders (headers h : Bytes) : List Bytes :=
  DkimCanon.canonicalizeHeadersRelaxed headers (getlines colon h)

/-- What is fed to the digest. -/
def verifyData (headers h : Bytes) : Bytes := (canonHeaders headers h).flatMap (· ++ crlf)

/-- `none` is an exception. The body is canonicalized and hashed, and the hash is
    compared with nothing. -/
def verify (evp : Evp PrivateKey PublicKey) (lookupTxt : Bytes → List Bytes)
    (headers body : Bytes) : Option DkimAuthResult :=
  match tags headers with
  | none => some {}
  | some t =>
      if t.domain = [] ∨ t.selector = [] then some { result := .permError }
      else match lookupTxt (keyName t) with
        | [] => some ⟨.tempError, t.domain⟩
        | txt :: _ =>
            match loadPublicKey evp txt with
            | none => some ⟨.permError, t.domain⟩
            | some pub =>
                match DkimCanon.canonicalizeBodyRelaxed body with
                | none => none
                | some canonBody =>
                    let _bhRaw := evp.sha256 canonBody
                    let ok := evp.digestVerify pub (verifyData headers t.h) t.b
                    some ⟨if ok then .pass else .fail, t.domain⟩

/-- The key published for the tags accepts their signature, as it stands, of the data. -/
def Accepts (evp : Evp PrivateKey PublicKey) (lookupTxt : Bytes → List Bytes) (t : DkimTags)
    (data : Bytes) : Prop :=
  t.domain ≠ [] ∧ t.selector ≠ [] ∧ ∃ txt more pub, lookupTxt (keyName t) = txt :: more ∧
    loadPublicKey evp txt = some pub ∧ evp.digestVerify pub data t.b = true

/-- `verify` returns, with this result. -/
def Verdict (evp : Evp PrivateKey PublicKey) (lookupTxt : Bytes → List Bytes)
    (headers body : Bytes) (result : DkimResult) : Prop :=
  ∃ r, verify evp lookupTxt headers body = some r ∧ r.result = result

/-- A message passes if its signature is accepted for its header fields. The body only
    has to be one that can be canonicalized. -/
theorem verdict_pass {evp : Evp PrivateKey PublicKey} {lookupTxt : Bytes → List Bytes}
    {headers body : Bytes} : Verdict evp lookupTxt headers body .pass ↔
      (∃ t, tags headers = some t ∧ Accepts evp lookupTxt t (verifyData headers t.h)) ∧
        ∃ canonBody, DkimCanon.canonicalizeBodyRelaxed body = some canonBody := by
  unfold Verdict verify
  cases found : tags headers with
  | none => simp
  | some t =>
      by_cases unnamed : t.domain = [] ∨ t.selector = []
      · have refused : ∀ data, ¬ Accepts evp lookupTxt t data := by
          rintro data ⟨domain, selector, _⟩
          exact unnamed.elim domain selector
        simp [unnamed, refused]
      · obtain ⟨domain, selector⟩ := not_or.mp unnamed
        cases records : lookupTxt (keyName t) with
        | nil => simp [unnamed, Accepts, records]
        | cons txt more =>
            cases loaded : loadPublicKey evp txt with
            | none => simp [unnamed, Accepts, records, loaded]
            | some pub =>
                cases canonical : DkimCanon.canonicalizeBodyRelaxed body with
                | none => simp [unnamed, records, loaded]
                | some canonBody => simp [Accepts, records, loaded, domain, selector]

end DkimVerifier

end EmailServer.AntiSpam
