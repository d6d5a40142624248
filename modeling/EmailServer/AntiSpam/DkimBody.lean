import EmailServer.AntiSpam.Dkim

/-! # DKIM and the body

The verifier reads the hash of the body in the tag `bh`, and hashes the body, but does
not compare the two. Whether a message passes depends on its header fields alone.
-/

namespace EmailServer.AntiSpam

open EmailServer.Bytes

variable {PrivateKey PublicKey : Type} {evp : Evp PrivateKey PublicKey}
  {lookupTxt : Bytes → List Bytes} {headers body : Bytes}

/-- The signature of a header block is accepted. -/
def SignatureAccepted (evp : Evp PrivateKey PublicKey) (lookupTxt : Bytes → List Bytes)
    (headers : Bytes) : Prop :=
  ∃ t, DkimVerifier.tags headers = some t ∧
    DkimVerifier.Accepts evp lookupTxt t (DkimVerifier.verifyData headers t.h)

/-- Two bodies that pass with the same header block have the same hash, and it is the
    one in the signature. -/
def BodyProtected (evp : Evp PrivateKey PublicKey) (lookupTxt : Bytes → List Bytes)
    (headers : Bytes) : Prop :=
  ∀ body₁ body₂, DkimVerifier.Verdict evp lookupTxt headers body₁ .pass →
    DkimVerifier.Verdict evp lookupTxt headers body₂ .pass →
    ∀ t canon₁ canon₂, DkimVerifier.tags headers = some t →
      DkimCanon.canonicalizeBodyRelaxed body₁ = some canon₁ →
      DkimCanon.canonicalizeBodyRelaxed body₂ = some canon₂ →
      evp.sha256 canon₁ = evp.sha256 canon₂ ∧
        Base64.encode (evp.sha256 canon₁) = t.bh ∧ Base64.encode (evp.sha256 canon₂) = t.bh

theorem accepted_passes {canonBody : Bytes} (accepted : SignatureAccepted evp lookupTxt headers)
    (canonical : DkimCanon.canonicalizeBodyRelaxed body = some canonBody) :
    DkimVerifier.Verdict evp lookupTxt headers body .pass :=
  DkimVerifier.verdict_pass.mpr ⟨accepted, canonBody, canonical⟩

/-- The body is protected if and only if the signature is not accepted, so that no body
    passes, or the hash of every body is the one in the signature. -/
theorem body_protected_iff : BodyProtected evp lookupTxt headers ↔
    ¬ SignatureAccepted evp lookupTxt headers ∨
      ∀ t body canonBody, DkimVerifier.tags headers = some t →
        DkimCanon.canonicalizeBodyRelaxed body = some canonBody →
        Base64.encode (evp.sha256 canonBody) = t.bh := by
  constructor
  · intro isProtected
    by_cases accepted : SignatureAccepted evp lookupTxt headers
    · refine .inr fun t body canonBody read canonical => ?_
      have passes := accepted_passes accepted canonical
      exact (isProtected body body passes passes t _ _ read canonical canonical).2.1
    · exact .inl accepted
  · rintro (rejected | constant) body₁ body₂ passes₁ passes₂ t canon₁ canon₂ read canonical₁
      canonical₂
    · exact absurd (DkimVerifier.verdict_pass.mp passes₁).1 rejected
    · have first := constant t body₁ canon₁ read canonical₁
      have second := constant t body₂ canon₂ read canonical₂
      exact ⟨Base64.encode_injective (first.trans second.symm), first, second⟩

theorem accepted_unprotected {canon₁ canon₂ body₁ body₂ : Bytes}
    (accepted : SignatureAccepted evp lookupTxt headers)
    (canonical₁ : DkimCanon.canonicalizeBodyRelaxed body₁ = some canon₁)
    (canonical₂ : DkimCanon.canonicalizeBodyRelaxed body₂ = some canon₂)
    (different : evp.sha256 canon₁ ≠ evp.sha256 canon₂) : ¬ BodyProtected evp lookupTxt headers := by
  intro isProtected
  have passes₁ := accepted_passes accepted canonical₁
  have passes₂ := accepted_passes accepted canonical₂
  obtain ⟨t, read, _⟩ := accepted
  exact different (isProtected _ _ passes₁ passes₂ t _ _ read canonical₁ canonical₂).1

/-! ## Another body -/

/-- Every key accepts the signature `c2ln`, and the hash is the checksum of the bytes. -/
def trustingEvp : Evp Unit Unit where
  sha256 data := [data.foldr UInt8.add 0]
  loadPrivateKey _ := some ()
  readPublicKey _ := some ()
  digestSign _ _ := ascii "c2ln"
  digestVerify _ _ sig := sig == ascii "c2ln"

/-- The header block of a message whose signature is accepted, with the hash of
    the body `pay 1`. -/
def signedBlock : Bytes :=
  ascii "DKIM-Signature: d=example.com; s=mail; h=from; bh=sg==; b=c2ln\r\nFrom: alice@example.com\r\n"

/-- Any body passes under this header block. -/
theorem replaced_body_passes : ∃ lookupTxt,
    DkimVerifier.Verdict trustingEvp lookupTxt signedBlock (ascii "pay 1") .pass ∧
    DkimVerifier.Verdict trustingEvp lookupTxt signedBlock (ascii "pay 1000") .pass ∧
    ¬ BodyProtected trustingEvp lookupTxt signedBlock := by
  have accepted : SignatureAccepted trustingEvp (fun _ => [ascii "p=key"]) signedBlock := by
    refine ⟨_, rfl, by decide, by decide, _, _, (), rfl, rfl, ?_⟩
    decide +kernel
  have first : DkimCanon.canonicalizeBodyRelaxed (ascii "pay 1") = some (ascii "pay 1\r\n") := rfl
  have second :
      DkimCanon.canonicalizeBodyRelaxed (ascii "pay 1000") = some (ascii "pay 1000\r\n") := rfl
  exact ⟨_, accepted_passes accepted first, accepted_passes accepted second,
    accepted_unprotected accepted first second (by decide)⟩

end EmailServer.AntiSpam
