/-
  O2Fabric.Core.SealedRecord

  The envelope a secret is sealed in, with all it takes to derive its key again
  but the passphrase.

  The key derivation and the cipher are parameters.
-/

import O2Fabric.Core.Base64Url
import O2Fabric.Core.Checkpoint
import O2Fabric.Js.Utf8
import O2Fabric.Lib.Fallible

namespace O2Fabric

/-- `argon2idAsync` and `xchacha20poly1305`. -/
structure SealCiphers where
  /-- From a passphrase's bytes, a salt, and `t`, `m`, `p`, `dkLen` and `version`. -/
  argon2id : Bytes → Bytes → Nat → Nat → Nat → Nat → Nat → Bytes
  encrypt : (key nonce header secret : Bytes) → Bytes
  /-- `none` where it throws. -/
  decrypt : (key nonce header ciphertext : Bytes) → Option Bytes

/-- What was encrypted is decrypted; the tag is sixteen bytes. -/
structure SealCiphers.Correct (ciphers : SealCiphers) : Prop where
  decrypt_encrypt : ∀ key nonce header secret,
    ciphers.decrypt key nonce header (ciphers.encrypt key nonce header secret) = some secret
  length_encrypt : ∀ key nonce header secret,
    (ciphers.encrypt key nonce header secret).length = secret.length + 16

def SEAL_VERSION : Nat := 1

def ARGON2_VERSION : Nat := 0x13

def SALT_BYTES : Nat := 16

def NONCE_BYTES : Nat := 24

structure SealKdfParams where
  t : Nat
  m : Nat
  p : Nat
  dkLen : Nat
  version : Option Nat
  deriving DecidableEq

def DEFAULT_KDF_PARAMS : SealKdfParams := ⟨2, 19456, 1, 32, none⟩

/-- `params.version ?? ARGON2_VERSION`. -/
def SealKdfParams.kdfVersion (params : SealKdfParams) : Nat := params.version.getD ARGON2_VERSION

/-- An envelope without its ciphertext.  The two algorithms it names are fixed. -/
structure SealHeader where
  v : Nat
  kdfVersion : Nat
  t : Nat
  m : Nat
  p : Nat
  dkLen : Nat
  salt : JsString
  nonce : JsString
  deriving DecidableEq

structure SealedSecret where
  header : SealHeader
  ciphertext : JsString
  deriving DecidableEq

/-- The additional data the cipher covers. -/
def sealHeaderBytes (header : SealHeader) : Bytes :=
  textEncoder (List.intercalate (js "\n")
    [js "v=" ++ decimal header.v, js "kdf=argon2id", js "kdfVersion=" ++ decimal header.kdfVersion,
      js "t=" ++ decimal header.t, js "m=" ++ decimal header.m, js "p=" ++ decimal header.p,
      js "dkLen=" ++ decimal header.dkLen, js "salt=" ++ header.salt, js "aead=xchacha20poly1305",
      js "nonce=" ++ header.nonce])

section

variable (ciphers : SealCiphers)

def deriveSealKey (passphrase : JsString) (salt : Bytes) (params : SealKdfParams) : Bytes :=
  ciphers.argon2id (textEncoder passphrase) salt params.t params.m params.p params.dkLen
    params.kdfVersion

def sealWithKey (key secret : Bytes) (params : SealKdfParams) (salt nonce : Bytes) : SealedSecret :=
  let header : SealHeader :=
    ⟨SEAL_VERSION, params.kdfVersion, params.t, params.m, params.p, params.dkLen, toBase64Url salt,
      toBase64Url nonce⟩
  ⟨header, toBase64Url (ciphers.encrypt key nonce (sealHeaderBytes header) secret)⟩

end

/-! ## The boundary -/

/-- `intAtLeast(record, key, min)`. -/
def intAtLeast (record : List (JsString × CanonicalValue)) (key : JsString) (min : Nat) :
    Option Nat :=
  match field record key with
  | some (.number (.finite x)) =>
    if isSafeInteger x && decide ((min : ℚ) ≤ x) then some x.num.toNat else none
  | _ => none

/-- `BASE64URL.test(value)`. -/
def isBase64Url (value : JsString) : Bool := !value.isEmpty && value.all (BASE64_ALPHABET.contains ·)

/-- `base64UrlField(record, key, min, max)`: `error` is thrown, where a length leaves nothing to
    decode. -/
def base64UrlField (record : List (JsString × CanonicalValue)) (key : JsString) (min max : Nat) :
    Except Unit (Option JsString) :=
  match field record key with
  | some (.text value) =>
    if !isBase64Url value then .ok none
    else match fromBase64Url value with
      | none => .error ()
      | some decoded =>
        if decoded.length < min ∨ max < decoded.length then .ok none else .ok (some value)
  | _ => .ok none

/-- The envelope a stored value is, or nothing.  It throws only what `base64UrlField` throws. -/
def parseSealedSecret (value : CanonicalValue) : Except Unit (Option SealedSecret) :=
  match asRecord value with
  | none => .ok none
  | some record => do
    let numbers : Option (Nat × Nat × Nat × Nat × Nat × Nat) := do
      let v ← intAtLeast record (js "v") 0
      guard (asText (field record (js "kdf")) = some (js "argon2id"))
      guard (asText (field record (js "aead")) = some (js "xchacha20poly1305"))
      let kdfVersion ← intAtLeast record (js "kdfVersion") 0
      guard (kdfVersion = 0x10 ∨ kdfVersion = 0x13)
      let t ← intAtLeast record (js "t") 1
      let m ← intAtLeast record (js "m") 8
      let p ← intAtLeast record (js "p") 1
      let dkLen ← intAtLeast record (js "dkLen") 4
      guard (8 * p ≤ m)
      some (v, kdfVersion, t, m, p, dkLen)
    match numbers with
    | none => return none
    | some (v, kdfVersion, t, m, p, dkLen) =>
      let salt ← base64UrlField record (js "salt") 8 4096
      let nonce ← base64UrlField record (js "nonce") NONCE_BYTES NONCE_BYTES
      let ciphertext ← base64UrlField record (js "ciphertext") 16 65536
      return do
        let salt ← salt
        let nonce ← nonce
        let ciphertext ← ciphertext
        some ⟨⟨v, kdfVersion, t, m, p, dkLen, salt, nonce⟩, ciphertext⟩

def SealedSecret.toValue (envelope : SealedSecret) : CanonicalValue :=
  .record
    [(js "v", whole envelope.header.v), (js "kdf", .text (js "argon2id")),
      (js "kdfVersion", whole envelope.header.kdfVersion), (js "t", whole envelope.header.t),
      (js "m", whole envelope.header.m), (js "p", whole envelope.header.p),
      (js "dkLen", whole envelope.header.dkLen), (js "salt", .text envelope.header.salt),
      (js "aead", .text (js "xchacha20poly1305")), (js "nonce", .text envelope.header.nonce),
      (js "ciphertext", .text envelope.ciphertext)]

/-- Why a stored value is not opened. -/
inductive OpenError
  | sealedSecretShape
  | sealedSecretVersion (received : Nat)
  | secretUnlock
  /-- Thrown where a length leaves nothing to decode. -/
  | invalidCharacter

def openWithKey (ciphers : SealCiphers) (key : Bytes) (value : CanonicalValue) :
    Except OpenError Bytes :=
  match parseSealedSecret value with
  | .error () => .error .invalidCharacter
  | .ok none => .error .sealedSecretShape
  | .ok (some envelope) =>
    if envelope.header.v ≠ SEAL_VERSION then .error (.sealedSecretVersion envelope.header.v)
    else match fromBase64Url envelope.header.nonce, fromBase64Url envelope.ciphertext with
      | some nonce, some ciphertext =>
        match ciphers.decrypt key nonce (sealHeaderBytes envelope.header) ciphertext with
        | some secret => .ok secret
        | none => .error .secretUnlock
      | _, _ => .error .secretUnlock

/-! ## Sealing and opening -/

theorem intAtLeast_whole {record : List (JsString × CanonicalValue)} {key : JsString} {n min : Nat}
    (hfield : field record key = some (whole n)) (hsafe : n ≤ 9007199254740991) (hmin : min ≤ n) :
    intAtLeast record key min = some n := by
  have hint : ((n : ℚ)).isInt = true := beq_iff_eq.mpr (Rat.den_natCast n)
  have hbound : |(n : ℚ)| ≤ 2 ^ 53 - 1 := by
    rw [abs_of_nonneg (Nat.cast_nonneg n)]
    have hcast : (n : ℚ) ≤ 9007199254740991 := by exact_mod_cast hsafe
    linarith
  have hleast : (min : ℚ) ≤ n := by exact_mod_cast hmin
  simp only [intAtLeast, hfield, whole, isSafeInteger, hint, decide_eq_true hbound,
    decide_eq_true hleast, Bool.and_self, if_true, Rat.num_natCast]
  rfl

theorem isBase64Url_toBase64Url {bytes : Bytes} (h : bytes ≠ []) :
    isBase64Url (toBase64Url bytes) = true := by
  have hne : toBase64Url bytes ≠ [] := by
    unfold toBase64Url
    rw [ne_eq, List.map_eq_nil_iff]
    exact Base64.encode_ne_nil h
  have hall : ∀ u ∈ toBase64Url bytes, BASE64_ALPHABET.contains u = true := by
    intro u hu
    obtain ⟨n, rfl⟩ := mem_toBase64Url hu
    exact List.contains_iff_mem.mpr (List.get_mem _ _)
  unfold isBase64Url
  rw [List.isEmpty_eq_false_iff.mpr hne, List.all_eq_true.mpr hall]
  rfl

theorem base64UrlField_toBase64Url {record : List (JsString × CanonicalValue)} {key : JsString}
    {bytes : Bytes} {min max : Nat} (hfield : field record key = some (.text (toBase64Url bytes)))
    (hne : bytes ≠ []) (hmin : min ≤ bytes.length) (hmax : bytes.length ≤ max) :
    base64UrlField record key min max = .ok (some (toBase64Url bytes)) := by
  simp only [base64UrlField, hfield, isBase64Url_toBase64Url hne, Bool.not_true,
    Bool.false_eq_true, if_false, fromBase64Url_toBase64Url]
  rw [if_neg (by omega)]

/-- Parameters that `parseSealedSecret` accepts. -/
structure SealKdfParams.Usable (params : SealKdfParams) : Prop where
  kdfVersion : params.kdfVersion = 0x10 ∨ params.kdfVersion = 0x13
  t : 1 ≤ params.t ∧ params.t ≤ 9007199254740991
  m : 8 * params.p ≤ params.m ∧ params.m ≤ 9007199254740991
  p : 1 ≤ params.p
  dkLen : 4 ≤ params.dkLen ∧ params.dkLen ≤ 9007199254740991

theorem DEFAULT_KDF_PARAMS_usable : DEFAULT_KDF_PARAMS.Usable := by
  constructor <;> decide

/-- What was sealed is stored as an envelope. -/
theorem parseSealedSecret_sealWithKey {ciphers : SealCiphers} (hcorrect : ciphers.Correct)
    {key secret salt nonce : Bytes} {params : SealKdfParams} (hparams : params.Usable)
    (hsalt : 8 ≤ salt.length ∧ salt.length ≤ 4096) (hnonce : nonce.length = NONCE_BYTES)
    (hsecret : secret.length ≤ 65520) :
    parseSealedSecret (sealWithKey ciphers key secret params salt nonce).toValue
      = .ok (some (sealWithKey ciphers key secret params salt nonce)) := by
  have hfields : asRecord (sealWithKey ciphers key secret params salt nonce).toValue
      = some [(js "v", whole SEAL_VERSION), (js "kdf", .text (js "argon2id")),
        (js "kdfVersion", whole params.kdfVersion), (js "t", whole params.t),
        (js "m", whole params.m), (js "p", whole params.p), (js "dkLen", whole params.dkLen),
        (js "salt", .text (toBase64Url salt)), (js "aead", .text (js "xchacha20poly1305")),
        (js "nonce", .text (toBase64Url nonce)),
        (js "ciphertext", .text (sealWithKey ciphers key secret params salt nonce).ciphertext)] :=
    rfl
  have hciphertext : (sealWithKey ciphers key secret params salt nonce).ciphertext
      = toBase64Url (ciphers.encrypt key nonce
        (sealHeaderBytes (sealWithKey ciphers key secret params salt nonce).header) secret) := rfl
  rw [hciphertext] at hfields
  have hlength := hcorrect.length_encrypt key nonce
    (sealHeaderBytes (sealWithKey ciphers key secret params salt nonce).header) secret
  generalize hrecord : [(js "v", whole SEAL_VERSION), (js "kdf", CanonicalValue.text (js "argon2id")),
    _, _, _, _, _, _, _, _, _] = record at hfields
  have hv : intAtLeast record (js "v") 0 = some SEAL_VERSION :=
    intAtLeast_whole (by simp [← hrecord, field, InsertionMap.lookup]) (by decide) (by decide)
  have hkdfVersion : intAtLeast record (js "kdfVersion") 0 = some params.kdfVersion := by
    refine intAtLeast_whole (by simp [← hrecord, field, InsertionMap.lookup]) ?_ (Nat.zero_le _)
    rcases hparams.kdfVersion with h | h <;> omega
  have ht : intAtLeast record (js "t") 1 = some params.t :=
    intAtLeast_whole (by simp [← hrecord, field, InsertionMap.lookup]) hparams.t.2 hparams.t.1
  have hm : intAtLeast record (js "m") 8 = some params.m := by
    refine intAtLeast_whole (by simp [← hrecord, field, InsertionMap.lookup]) hparams.m.2 ?_
    have := hparams.m.1
    have := hparams.p
    omega
  have hp : intAtLeast record (js "p") 1 = some params.p := by
    refine intAtLeast_whole (by simp [← hrecord, field, InsertionMap.lookup]) ?_ hparams.p
    have := hparams.m.1
    have := hparams.m.2
    omega
  have hdkLen : intAtLeast record (js "dkLen") 4 = some params.dkLen :=
    intAtLeast_whole (by simp [← hrecord, field, InsertionMap.lookup]) hparams.dkLen.2
      hparams.dkLen.1
  have hkdf : asText (field record (js "kdf")) = some (js "argon2id") := by
    simp [← hrecord, field, InsertionMap.lookup, asText]
  have haead : asText (field record (js "aead")) = some (js "xchacha20poly1305") := by
    simp [← hrecord, field, InsertionMap.lookup, asText]
  have hne : ∀ {bytes : Bytes}, 0 < bytes.length → bytes ≠ [] := by
    rintro bytes hpos rfl
    exact absurd hpos (Nat.lt_irrefl 0)
  have hsaltField : base64UrlField record (js "salt") 8 4096 = .ok (some (toBase64Url salt)) :=
    base64UrlField_toBase64Url (by simp [← hrecord, field, InsertionMap.lookup])
      (hne (by omega)) hsalt.1 hsalt.2
  have hnonceField : base64UrlField record (js "nonce") NONCE_BYTES NONCE_BYTES
      = .ok (some (toBase64Url nonce)) := by
    refine base64UrlField_toBase64Url (by simp [← hrecord, field, InsertionMap.lookup])
      (hne ?_) (Nat.le_of_eq hnonce.symm) (Nat.le_of_eq hnonce)
    rw [hnonce]
    decide
  have hciphertextField : base64UrlField record (js "ciphertext") 16 65536
      = .ok (some (sealWithKey ciphers key secret params salt nonce).ciphertext) := by
    rw [hciphertext]
    exact base64UrlField_toBase64Url (by simp [← hrecord, field, InsertionMap.lookup])
      (hne (by omega)) (by omega) (by omega)
  simp only [parseSealedSecret, hfields, hv, hkdfVersion, ht, hm, hp, hdkLen, hkdf, haead,
    hsaltField, hnonceField, hciphertextField]
  simp only [Option.bind_eq_bind, Option.bind_some, guard, hparams.kdfVersion, hparams.m.1, if_true]
  rfl

theorem openWithKey_sealWithKey {ciphers : SealCiphers} (hcorrect : ciphers.Correct)
    {key secret salt nonce : Bytes} {params : SealKdfParams} {value : CanonicalValue}
    (hvalue : parseSealedSecret value = .ok (some (sealWithKey ciphers key secret params salt nonce))) :
    openWithKey ciphers key value = .ok secret := by
  simp [openWithKey, hvalue, sealWithKey, fromBase64Url_toBase64Url, hcorrect.decrypt_encrypt]

end O2Fabric

/-! # Undecodable

When the reading of an envelope throws instead of returning: a text in the
URL-safe alphabet whose length is a whole number of fours and one has passed
the pattern, and nothing decodes it.
-/

namespace O2Fabric.Sealed

abbrev Record := List (JsString × CanonicalValue)

/-- The version, the algorithms and the costs of an envelope, where they are all well-formed. -/
def numbersOf (record : Record) : Option (Nat × Nat × Nat × Nat × Nat × Nat) := do
  let v ← intAtLeast record (js "v") 0
  guard (asText (field record (js "kdf")) = some (js "argon2id"))
  guard (asText (field record (js "aead")) = some (js "xchacha20poly1305"))
  let kdfVersion ← intAtLeast record (js "kdfVersion") 0
  guard (kdfVersion = 0x10 ∨ kdfVersion = 0x13)
  let t ← intAtLeast record (js "t") 1
  let m ← intAtLeast record (js "m") 8
  let p ← intAtLeast record (js "p") 1
  let dkLen ← intAtLeast record (js "dkLen") 4
  guard (8 * p ≤ m)
  some (v, kdfVersion, t, m, p, dkLen)

/-- The three texts, decoded to be measured, one after the other. -/
def textsOf (record : Record) :
    Nat × Nat × Nat × Nat × Nat × Nat → Except Unit (Option SealedSecret)
  | (v, kdfVersion, t, m, p, dkLen) => do
    let salt ← base64UrlField record (js "salt") 8 4096
    let nonce ← base64UrlField record (js "nonce") NONCE_BYTES NONCE_BYTES
    let ciphertext ← base64UrlField record (js "ciphertext") 16 65536
    return do
      let salt ← salt
      let nonce ← nonce
      let ciphertext ← ciphertext
      some ⟨⟨v, kdfVersion, t, m, p, dkLen, salt, nonce⟩, ciphertext⟩

theorem parseSealedSecret_record (record : Record) :
    parseSealedSecret (.record record) = match numbersOf record with
      | none => .ok none
      | some numbers => textsOf record numbers := by
  have hparse : parseSealedSecret (.record record) = match numbersOf record with
      | none => .ok none
      | some (v, kdfVersion, t, m, p, dkLen) => textsOf record (v, kdfVersion, t, m, p, dkLen) := rfl
  rw [hparse]
  cases numbersOf record <;> rfl

/-- A text that the pattern passes, a whole number of fours and one character long. -/
def isOneOver : Option CanonicalValue → Bool
  | some (.text text) => isBase64Url text && decide (text.length % 4 = 1)
  | _ => false

/-- An envelope whose numbers are well-formed, and one of whose texts has no decoding. -/
def Undecodable (value : CanonicalValue) : Prop :=
  ∃ record, value = .record record ∧ (numbersOf record).isSome = true ∧
    (isOneOver (field record (js "salt")) = true ∨ isOneOver (field record (js "nonce")) = true ∨
      isOneOver (field record (js "ciphertext")) = true)

/-! ## One field -/

theorem contains_of_isBase64Url {text : JsString} (h : isBase64Url text = true) :
    ∀ u ∈ text, BASE64_ALPHABET.contains u = true := by
  rw [isBase64Url, Bool.and_eq_true] at h
  exact List.all_eq_true.mp h.2

theorem base64UrlField_throws_iff {record : Record} {key : JsString} {min max : Nat} :
    base64UrlField record key min max = .error () ↔ isOneOver (field record key) = true := by
  cases hfield : field record key with
  | none => simp [base64UrlField, isOneOver, hfield]
  | some value =>
    cases value with
    | text text =>
      by_cases halphabet : isBase64Url text = true
      · have hnone := fromBase64Url_eq_none_iff (contains_of_isBase64Url halphabet)
        cases hdecoded : fromBase64Url text with
        | none => simp [base64UrlField, isOneOver, hfield, halphabet, hdecoded, hnone.mp hdecoded]
        | some decoded =>
          have hlength : text.length % 4 ≠ 1 := by
            rw [ne_eq, ← hnone, hdecoded]
            rintro ⟨⟩
          simp only [base64UrlField, isOneOver, hfield, halphabet, hdecoded, hlength]
          simp
          split <;> simp
      · simp [base64UrlField, isOneOver, hfield, halphabet]
    | _ => simp [base64UrlField, isOneOver, hfield]

/-! ## An envelope -/

/-- Steps of which none asks what another returned throw where one of them does. -/
theorem throws_of_three {α β : Type} (x y z : Except Unit α) (f : α → α → α → β) :
    (do let a ← x; let b ← y; let c ← z; return f a b c) = Except.error ()
      ↔ x = .error () ∨ y = .error () ∨ z = .error () := by
  cases x with
  | error e => simp [bind, Except.bind]
  | ok a =>
    cases y with
    | error e => simp [bind, Except.bind]
    | ok b => cases z <;> simp [bind, Except.bind, pure, Except.pure]

theorem textsOf_throws_iff (record : Record) (numbers : Nat × Nat × Nat × Nat × Nat × Nat) :
    textsOf record numbers = .error ()
      ↔ isOneOver (field record (js "salt")) = true ∨
        isOneOver (field record (js "nonce")) = true ∨
        isOneOver (field record (js "ciphertext")) = true := by
  obtain ⟨v, kdfVersion, t, m, p, dkLen⟩ := numbers
  rw [textsOf, throws_of_three, base64UrlField_throws_iff, base64UrlField_throws_iff,
    base64UrlField_throws_iff]

theorem parseSealedSecret_throws_iff (value : CanonicalValue) :
    parseSealedSecret value = .error () ↔ Undecodable value := by
  cases value with
  | record record =>
    rw [parseSealedSecret_record]
    cases hnumbers : numbersOf record with
    | none => simp [Undecodable, hnumbers]
    | some numbers => simp [Undecodable, hnumbers, textsOf_throws_iff]
  | _ => simp [parseSealedSecret, asRecord, Undecodable]

/-! ## Refusals -/

/-- A secret, or one of the three refusals an envelope's reader has a name for. -/
def Named : Except OpenError Bytes → Prop
  | .ok _ => True
  | .error .sealedSecretShape => True
  | .error (.sealedSecretVersion _) => True
  | .error .secretUnlock => True
  | .error .invalidCharacter => False

/-- What is not thrown by the reading of the envelope has a name. -/
theorem named_openWithKey_iff (ciphers : SealCiphers) (key : Bytes) (value : CanonicalValue) :
    Named (openWithKey ciphers key value) ↔ parseSealedSecret value ≠ .error () := by
  unfold openWithKey
  cases parseSealedSecret value with
  | error thrown => simp [Named]
  | ok parsed =>
    cases parsed with
    | none => simp [Named]
    | some envelope =>
      simp only [ne_eq, reduceCtorEq, not_false_eq_true, iff_true]
      split
      · trivial
      · split
        · split <;> trivial
        · trivial

/-- The reader of envelopes returns, and what opens them refuses by name, on every value but an
    envelope one of whose texts has no decoding. -/
theorem refusals_are_named_iff (ciphers : SealCiphers) (key : Bytes) (value : CanonicalValue) :
    (∃ parsed, parseSealedSecret value = .ok parsed) ∧ Named (openWithKey ciphers key value)
      ↔ ¬ Undecodable value := by
  rw [named_openWithKey_iff, ← parseSealedSecret_throws_iff]
  cases parseSealedSecret value with
  | error thrown => simp
  | ok parsed => simp

/-- An envelope's fields, with a salt that is nine characters long. -/
def nineCharacterSalt : Record :=
  [(js "v", whole 1), (js "kdf", .text (js "argon2id")), (js "kdfVersion", whole 19),
    (js "t", whole 2), (js "m", whole 19456), (js "p", whole 1), (js "dkLen", whole 32),
    (js "salt", .text (js "AAAAAAAAA")), (js "aead", .text (js "xchacha20poly1305")),
    (js "nonce", .text (List.replicate 32 0x41)), (js "ciphertext", .text (List.replicate 64 0x41))]

theorem numbersOf_nineCharacterSalt : (numbersOf nineCharacterSalt).isSome = true := by
  have hwhole : ∀ (key : JsString) (n least : Nat),
      field nineCharacterSalt key = some (whole n) → n ≤ 19456 → least ≤ n →
      intAtLeast nineCharacterSalt key least = some n :=
    fun _ _ _ hfield hsmall hleast => intAtLeast_whole hfield (by omega) hleast
  have hv := hwhole (js "v") 1 0 rfl (by omega) (by omega)
  have hkdfVersion := hwhole (js "kdfVersion") 19 0 rfl (by omega) (by omega)
  have ht := hwhole (js "t") 2 1 rfl (by omega) (by omega)
  have hm := hwhole (js "m") 19456 8 rfl (by omega) (by omega)
  have hp := hwhole (js "p") 1 1 rfl (by omega) (by omega)
  have hdkLen := hwhole (js "dkLen") 32 4 rfl (by omega) (by omega)
  simp only [numbersOf, hv, hkdfVersion, ht, hm, hp, hdkLen]
  rfl

/-- Ciphers that never open anything. -/
def closedCiphers : SealCiphers where
  argon2id _ _ _ _ _ _ _ := []
  encrypt _ _ _ _ := []
  decrypt _ _ _ _ := none

theorem nine_character_salt_throws :
    parseSealedSecret (.record nineCharacterSalt) = .error () ∧
      openWithKey closedCiphers [] (.record nineCharacterSalt) = .error .invalidCharacter := by
  have hthrows : parseSealedSecret (.record nineCharacterSalt) = .error () :=
    (parseSealedSecret_throws_iff _).mpr
      ⟨_, rfl, numbersOf_nineCharacterSalt, .inl (by decide)⟩
  exact ⟨hthrows, by rw [openWithKey, hthrows]⟩

end O2Fabric.Sealed
