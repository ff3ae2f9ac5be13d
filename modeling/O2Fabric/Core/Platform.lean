/-
  O2Fabric.Core.Platform

  What the fabric takes from outside its own source: hashing, the canonical
  codec, locale-aware comparison, number formatting and signature checks.
  Every definition that rests on one of them takes the platform as a
  parameter, so a result about the code holds whatever they compute.

  A port that fails (a store that rejects a write, a sink that rejects a
  publication) is a step that never completes.
-/

import O2Fabric.Core.Certificate
import O2Fabric.Core.Cid
import O2Fabric.Js.Number

namespace O2Fabric

/-- A byte string. -/
abbrev Bytes := List (Fin 256)

/-- The values the canonical codec knows. -/
inductive CanonicalValue
  | null
  | bool (value : Bool)
  | number (value : JsNumber)
  | text (value : JsString)
  | bytes (value : Bytes)
  | cid (value : Cid)
  | list (items : List CanonicalValue)
  | record (fields : List (JsString × CanonicalValue))

structure ResultWork where
  moduleCid : Cid
  inputCid : Cid
  partitionIndex : Nat
  outputCid : Cid
  deriving DecidableEq

/-- The functions the code calls and does not define. -/
structure Platform where
  /-- SHA-256 of a byte string. -/
  sha256 : Bytes → Bytes
  /-- SHA-256 of a text's UTF-8 encoding. -/
  hashText : JsString → Bytes
  /-- The bytes of a content address. -/
  cidBytes : Cid → Bytes
  /-- `a.localeCompare(b)`. -/
  localeCompare : JsString → JsString → Int
  /-- `String(x)`. -/
  numberText : JsNumber → JsString
  /-- The address of a value's canonical encoding, or the codec's error as text. -/
  canonicalCid : CanonicalValue → Except JsString Cid
  /-- `CID.parse`, `none` where it throws. -/
  parseCid : JsString → Option Cid
  /-- Why a signed statement about some work is refused under the trusted issuers at
      the given time: its certificate does not verify, or its signature does not. -/
  refusesAttestation : ResultAttestation → ResultWork → List JsString → ℚ → Option JsString

namespace Platform

variable (p : Platform)

/-- The statement's certificate, where certificate and signature verify. -/
def verifyResultAttestation (attested : AttestedResult) (work : ResultWork)
    (trustedIssuers : List JsString) (now : ℚ) : Except JsString NodeCertificate :=
  match attested with
  | .signedByNobody =>
    .error (js "the executor stated that it signs nothing — there is no attestation to check")
  | .signed attestation =>
    match p.refusesAttestation attestation work trustedIssuers now with
    | some reason => .error reason
    | none => .ok attestation.certificate

/-- A `<` or a tie that `localeCompare` breaks. -/
def OrderedBy {α : Type} (key : α → ℚ) (name : α → JsString) (a b : α) : Prop :=
  key a < key b ∨ key a = key b ∧ p.localeCompare (name a) (name b) ≤ 0

instance {α : Type} (key : α → ℚ) (name : α → JsString) :
    DecidableRel (p.OrderedBy key name) := fun _ _ =>
  inferInstanceAs (Decidable (_ ∨ _))

end Platform

/-! ## A platform to run on -/

/-- The address that every value has on the plain platform. -/
def plainCid : Cid := ⟨js "c", by decide, by decide⟩

/-- Texts compare by code unit, hashes say nothing, every value has the same
    address and no signature verifies. -/
def plain : Platform where
  sha256 _ := []
  hashText _ := []
  cidBytes _ := []
  localeCompare a b := if a < b then -1 else if b < a then 1 else 0
  numberText _ := []
  canonicalCid _ := .ok plainCid
  parseCid _ := some plainCid
  refusesAttestation _ _ _ _ := some []

/-- The plain platform, with addresses that read back. -/
def readingPlatform : Platform :=
  { plain with
    parseCid := fun text =>
      if h : NUL ∉ text ∧ PIPE ∉ text then some ⟨text, h.1, h.2⟩ else none }

theorem readingPlatform_parses (cid : Cid) : readingPlatform.parseCid cid.toText = some cid :=
  dif_pos ⟨cid.nulFree, cid.pipeFree⟩

end O2Fabric
