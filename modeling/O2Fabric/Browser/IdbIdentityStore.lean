/-
  O2Fabric.Browser.IdbIdentityStore

  The identity database that the tabs of one origin share.

  A tab is a thread over the database: it takes the salt, derives its key, and
  reads, migrates or mints its secrets.  One action is one `readwrite`
  transaction, which the browser runs alone; the derivation touches nothing.
-/

import O2Fabric.Core.SealedRecord
import O2Fabric.Lib.Threads
import O2Fabric.Libp2p.IdentityProtection

namespace O2Fabric.Browser

open O2Fabric.Libp2p

/-- The keys of the store that an identity is kept under. -/
inductive IdentityKey
  | SEED_KEY
  | PROVIDER_KEY
  | SEALED_SEED_KEY
  | SEALED_PROVIDER_KEY
  | SALT_KEY
  deriving DecidableEq

def IdentityKey.text : IdentityKey → JsString
  | .SEED_KEY => js "node-seed"
  | .PROVIDER_KEY => js "provider-seed"
  | .SEALED_SEED_KEY => js "node-seed-sealed"
  | .SEALED_PROVIDER_KEY => js "provider-seed-sealed"
  | .SALT_KEY => js "kdf-salt"

/-- Which of the two secrets a call is about. -/
inductive IdentitySecret
  | node
  | provider
  deriving DecidableEq

def IdentitySecret.sealedKey : IdentitySecret → IdentityKey
  | .node => .SEALED_SEED_KEY
  | .provider => .SEALED_PROVIDER_KEY

def IdentitySecret.legacyKey : IdentitySecret → IdentityKey
  | .node => .SEED_KEY
  | .provider => .PROVIDER_KEY

/-- What each key holds, where it holds anything. -/
abbrev IdentityDb := IdentityKey → Option CanonicalValue

/-- Why a transaction is aborted. -/
inductive IdentityRecordError
  | malformedSeedRecord (key : IdentityKey) (received : Nat)
  /-- `mint` threw: there is nothing, and nothing is to be created. -/
  | mint
  /-- Thrown by the parsing of an envelope. -/
  | invalidCharacter

def IdentityRecordError.message (database : JsString) : IdentityRecordError → JsString
  | .malformedSeedRecord key received => database ++ js "/" ++ key.text ++ js " holds "
      ++ decimal received ++ js " bytes, expected exactly " ++ decimal SEED_BYTES
      ++ js " — refusing to seal and then delete a record this tab cannot use as an identity"
  | .mint => js "mint"
  | .invalidCharacter => js "InvalidCharacterError"

/-- What `crypto.getRandomValues` fills. -/
structure Drawn (width : Nat) where
  bytes : Bytes
  width_eq : bytes.length = width

/-- `parseSealedSecret(await tx.store.get(key))`. -/
def envelopeUnder (db : IdentityDb) (key : IdentityKey) : Except Unit (Option SealedSecret) :=
  match db key with
  | none => .ok none
  | some value => parseSealedSecret value

def loadOrCreateSalt (db : IdentityDb) (drawn : Drawn SALT_BYTES) : IdentityDb × Bytes :=
  match db .SALT_KEY with
  | some (.bytes existing) =>
    if existing.length = SALT_BYTES then (db, existing)
    else (Function.update db .SALT_KEY (some (.bytes drawn.bytes)), drawn.bytes)
  | _ => (Function.update db .SALT_KEY (some (.bytes drawn.bytes)), drawn.bytes)

/-- With what `mint` returns, or `none` where it throws, and the nonce that is drawn. -/
def loadOrMintSealed (ciphers : SealCiphers) (db : IdentityDb) (secret : IdentitySecret)
    (key : Bytes) (params : SealKdfParams) (salt : Bytes) (mint : Option Seed)
    (nonce : Drawn NONCE_BYTES) : Except IdentityRecordError (IdentityDb × SealedSecret) :=
  match envelopeUnder db secret.sealedKey with
  | .error () => .error .invalidCharacter
  | .ok (some existing) => .ok (db, existing)
  | .ok none =>
    match db secret.legacyKey with
    | some (.bytes legacy) =>
      if legacy.length ≠ SEED_BYTES then
        .error (.malformedSeedRecord secret.legacyKey legacy.length)
      else
        let migrated := sealWithKey ciphers key legacy params salt nonce.bytes
        let put := Function.update db secret.sealedKey (some migrated.toValue)
        .ok (Function.update put secret.legacyKey none, migrated)
    | _ =>
      match mint with
      | none => .error .mint
      | some minted =>
        let envelope := sealWithKey ciphers key minted.bytes params salt nonce.bytes
        .ok (Function.update db secret.sealedKey (some envelope.toValue), envelope)

/-- Every key that an identity is kept under. -/
def forgetStoredIdentity (_ : IdentityDb) : IdentityDb := fun _ => none

/-! ## Tabs -/

inductive TabStage
  | closed
  /-- The salt it has taken: the key is derived. -/
  | salted (salt : Bytes)
  | keyed (salt key : Bytes)
  | dead

structure Tab where
  passphrase : JsString
  stage : TabStage
  /-- What its calls have answered, the last first. -/
  answers : List (IdentitySecret × SealedSecret)

inductive Act
  /-- A tab starts, with the passphrase typed into it. -/
  | salts (passphrase : JsString) (drawn : Drawn SALT_BYTES)
  | derives
  | loads (secret : IdentitySecret) (mint : Option Seed) (nonce : Drawn NONCE_BYTES)
  | dies

inductive Alone
  | forgets

def act (ciphers : SealCiphers) (db : IdentityDb) (tab : Tab) : Act → Option (IdentityDb × Tab)
  | .salts passphrase drawn =>
    match tab.stage with
    | .closed =>
      let (db, salt) := loadOrCreateSalt db drawn
      some (db, ⟨passphrase, .salted salt, []⟩)
    | _ => none
  | .derives =>
    match tab.stage with
    | .salted salt =>
      let key := deriveSealKey ciphers tab.passphrase salt DEFAULT_KDF_PARAMS
      some (db, { tab with stage := .keyed salt key })
    | _ => none
  | .loads secret mint nonce =>
    match tab.stage with
    | .keyed salt key =>
      match loadOrMintSealed ciphers db secret key DEFAULT_KDF_PARAMS salt mint nonce with
      | .error _ => some (db, tab)
      | .ok (db, envelope) => some (db, { tab with answers := (secret, envelope) :: tab.answers })
    | _ => none
  | .dies => some (db, { tab with stage := .dead })

def tabs (ciphers : SealCiphers) : Threads.System Nat IdentityDb Tab Act Alone where
  own _ a db tab := act ciphers db tab a
  alone _ db := some (forgetStoredIdentity db)

abbrev Tabs := Threads.Config Nat IdentityDb Tab

def Tabs.start (db : IdentityDb) : Tabs := ⟨db, fun _ => ⟨[], .closed, []⟩⟩

end O2Fabric.Browser

/-! # One salt

Tabs that share an identity database agree on what is in it, and every
envelope is sealed under the salt beside it, as long as nothing is forgotten
between a tab's taking of the salt and its sealing.

That the secrets agree needs no condition: what is read, decided and written
is one transaction.  The salt is another, and nothing looks at it again.
-/

namespace O2Fabric.Browser

open O2Fabric.Libp2p O2Fabric.Threads O2Fabric.Threads.System

variable {ciphers : SealCiphers} {db db' : IdentityDb} {tab tab' : Tab} {c c' : Tabs}
  {secret : IdentitySecret} {envelope : SealedSecret}

/-- The envelope of a secret, where its key holds one. -/
def envelopeOf (db : IdentityDb) (secret : IdentitySecret) : Option SealedSecret :=
  match envelopeUnder db secret.sealedKey with
  | .ok found => found
  | .error () => none

/-! ## What is claimed -/

/-- No secret is there both sealed and in plaintext. -/
def Apart (db : IdentityDb) : Prop :=
  ∀ secret legacy, envelopeOf db secret ≠ none → db secret.legacyKey ≠ some (.bytes legacy)

def OneSalt (ciphers : SealCiphers) (db : IdentityDb) : Prop :=
  ∀ secret envelope, envelopeOf db secret = some envelope →
    ∃ salt, db .SALT_KEY = some (.bytes salt) ∧ salt.length = SALT_BYTES ∧
      ∃ passphrase params nonce opened, envelope =
        sealWithKey ciphers (deriveSealKey ciphers passphrase salt params) opened params salt nonce

/-- So the right passphrase and the salt that is there open it. -/
def Opens (ciphers : SealCiphers) (db : IdentityDb) : Prop :=
  ∀ secret envelope value, envelopeOf db secret = some envelope →
    db secret.sealedKey = some value → ∃ salt passphrase params opened,
      db .SALT_KEY = some (.bytes salt) ∧
      openWithKey ciphers (deriveSealKey ciphers passphrase salt params) value = .ok opened

/-- A step is a call that answers this envelope. -/
def Answers (c : Tabs) (e : Event Nat Act Alone) (c' : Tabs) (secret : IdentitySecret)
    (envelope : SealedSecret) : Prop :=
  ∃ i mint nonce, e = .own i (.loads secret mint nonce) ∧
    (c'.locals i).answers = (secret, envelope) :: (c.locals i).answers

/-- What a step of a tab does to a plaintext seed: nothing, or it seals it and no other. -/
def SealsLegacy (ciphers : SealCiphers) (c : Tabs) (e : Event Nat Act Alone) (c' : Tabs) : Prop :=
  ∀ i a secret legacy, e = .own i a → c.shared secret.legacyKey = some (.bytes legacy) →
    c'.shared secret.legacyKey = some (.bytes legacy) ∧
      envelopeOf c'.shared secret = envelopeOf c.shared secret ∨
    ∃ key salt nonce, envelopeOf c'.shared secret
      = some (sealWithKey ciphers key legacy DEFAULT_KDF_PARAMS salt nonce)

/-! ## The condition -/

/-- A call that finds no envelope, and a seed to seal. -/
def Writes (db : IdentityDb) (secret : IdentitySecret) (mint : Option Seed) : Bool :=
  match envelopeUnder db secret.sealedKey with
  | .ok none =>
    match db secret.legacyKey with
    | some (.bytes legacy) => decide (legacy.length = SEED_BYTES)
    | _ => mint.isSome
  | _ => false

def holdsSalt (db : IdentityDb) (salt : Bytes) : Bool :=
  match db .SALT_KEY with
  | some (.bytes kept) => decide (kept = salt)
  | _ => false

/-- A call that writes finds the salt its key was derived from. -/
def Clean (c : Tabs) : Event Nat Act Alone → Prop
  | .own i (.loads secret mint _) =>
    match (c.locals i).stage with
    | .keyed salt _ => (!Writes c.shared secret mint || holdsSalt c.shared salt) = true
    | _ => True
  | _ => True

def NoForget (_ : Tabs) : Event Nat Act Alone → Prop
  | .alone .forgets => False
  | _ => True

/-! ## One transaction -/

theorem envelopeOf_congr (h : db' secret.sealedKey = db secret.sealedKey) :
    envelopeOf db' secret = envelopeOf db secret := by
  unfold envelopeOf envelopeUnder
  rw [h]

theorem sealedKey_ne_legacyKey (secret other : IdentitySecret) :
    secret.sealedKey ≠ other.legacyKey := by
  cases secret <;> cases other <;> decide

theorem sealedKey_inj {secret other : IdentitySecret} (h : secret.sealedKey = other.sealedKey) :
    secret = other := by
  revert h
  cases secret <;> cases other <;> decide

theorem legacyKey_inj {secret other : IdentitySecret} (h : secret.legacyKey = other.legacyKey) :
    secret = other := by
  revert h
  cases secret <;> cases other <;> decide

theorem sealedKey_ne_salt (secret : IdentitySecret) : secret.sealedKey ≠ .SALT_KEY := by
  cases secret <;> decide

theorem legacyKey_ne_salt (secret : IdentitySecret) : secret.legacyKey ≠ .SALT_KEY := by
  cases secret <;> decide

/-- What a call that seals a secret does. -/
structure Seals (ciphers : SealCiphers) (db db' : IdentityDb) (secret : IdentitySecret)
    (key salt nonce : Bytes) (envelope : SealedSecret) (opened : Bytes) : Prop where
  sealed_ : envelope = sealWithKey ciphers key opened DEFAULT_KDF_PARAMS salt nonce
  length : opened.length = SEED_BYTES
  absent : envelopeUnder db secret.sealedKey = .ok none
  stored : db' secret.sealedKey = some envelope.toValue
  /-- A plaintext is what is sealed, and goes. -/
  legacy : ∀ legacy, db secret.legacyKey = some (.bytes legacy) → opened = legacy
  gone : ∀ legacy, db' secret.legacyKey ≠ some (.bytes legacy)
  others : ∀ key, key ≠ secret.sealedKey → key ≠ secret.legacyKey → db' key = db key

variable {key : Bytes}

/-- A call answers what is there, or seals. -/
theorem loadOrMintSealed_cases {salt : Bytes} {mint : Option Seed} {nonce : Drawn NONCE_BYTES}
    (h : loadOrMintSealed ciphers db secret key DEFAULT_KDF_PARAMS salt mint nonce
      = .ok (db', envelope)) :
    (db' = db ∧ envelopeOf db secret = some envelope) ∨
    Writes db secret mint = true ∧
      ∃ opened, Seals ciphers db db' secret key salt nonce.bytes envelope opened := by
  unfold loadOrMintSealed at h
  split at h
  · cases h
  next existing hexisting =>
    cases h
    refine Or.inl ⟨rfl, ?_⟩
    unfold envelopeOf
    rw [hexisting]
  next habsent =>
    refine Or.inr ?_
    split at h
    next legacy hlegacy =>
      split at h
      · cases h
      next hlength =>
        cases h
        have hwidth : legacy.length = SEED_BYTES := not_not.mp hlength
        refine ⟨?_, legacy, rfl, hwidth, habsent, ?_, ?_, ?_, ?_⟩
        · simp only [Writes, habsent, hlegacy, hwidth, decide_true]
        · rw [Function.update_of_ne (sealedKey_ne_legacyKey _ _), Function.update_self]
        · intro other hother
          rw [hlegacy] at hother
          cases hother
          rfl
        · intro other hother
          rw [Function.update_self] at hother
          cases hother
        · intro key hsealed hlegacyKey
          rw [Function.update_of_ne hlegacyKey, Function.update_of_ne hsealed]
    next hnot =>
      split at h
      · cases h
      next minted =>
        cases h
        refine ⟨?_, minted.bytes, rfl, minted.width, habsent, ?_, ?_, ?_, ?_⟩
        · simp only [Writes, habsent]
          rfl
        · rw [Function.update_self]
        · exact fun legacy hlegacy => absurd hlegacy (hnot legacy)
        · intro legacy hlegacy
          rw [Function.update_of_ne (sealedKey_ne_legacyKey _ _).symm] at hlegacy
          exact hnot legacy hlegacy
        · intro key hsealed _
          rw [Function.update_of_ne hsealed]

variable {opened : Bytes}

theorem Seals.envelopeOf {salt : Bytes} {nonce : Drawn NONCE_BYTES}
    (h : Seals ciphers db db' secret key salt nonce.bytes envelope opened)
    (hcorrect : ciphers.Correct) (hsalt : salt.length = SALT_BYTES) :
    Browser.envelopeOf db' secret = some envelope := by
  have hparsed : parseSealedSecret envelope.toValue = .ok (some envelope) := by
    rw [h.sealed_]
    refine parseSealedSecret_sealWithKey hcorrect DEFAULT_KDF_PARAMS_usable ?_ nonce.width_eq ?_
    · rw [hsalt]
      decide
    · rw [h.length]
      decide
  unfold Browser.envelopeOf envelopeUnder
  rw [h.stored]
  simp only [hparsed]

theorem loadOrCreateSalt_leaves (drawn : Drawn SALT_BYTES) {key : IdentityKey}
    (h : key ≠ .SALT_KEY) : (loadOrCreateSalt db drawn).1 key = db key := by
  unfold loadOrCreateSalt
  split
  · split
    · rfl
    · exact Function.update_of_ne h _ _
  · exact Function.update_of_ne h _ _

/-- A tab leaves with the salt that is then there. -/
theorem loadOrCreateSalt_holds (drawn : Drawn SALT_BYTES) :
    (loadOrCreateSalt db drawn).2.length = SALT_BYTES ∧
    (loadOrCreateSalt db drawn).1 .SALT_KEY = some (.bytes (loadOrCreateSalt db drawn).2) := by
  have hcreated : Function.update db .SALT_KEY (some (CanonicalValue.bytes drawn.bytes)) .SALT_KEY
      = some (.bytes drawn.bytes) := Function.update_self ..
  unfold loadOrCreateSalt
  split
  next existing hexisting =>
    split
    next hlength => exact ⟨hlength, hexisting⟩
    · exact ⟨drawn.width_eq, hcreated⟩
  · exact ⟨drawn.width_eq, hcreated⟩

/-- A salt that is there is left. -/
theorem loadOrCreateSalt_keeps (drawn : Drawn SALT_BYTES) {salt : Bytes}
    (h : db .SALT_KEY = some (.bytes salt)) (hlength : salt.length = SALT_BYTES) :
    (loadOrCreateSalt db drawn).1 = db := by
  unfold loadOrCreateSalt
  simp only [h, hlength, if_true]

theorem Seals.other {salt nonce : Bytes} {other : IdentitySecret}
    (h : Seals ciphers db db' secret key salt nonce envelope opened) (hne : other ≠ secret) :
    Browser.envelopeOf db' other = Browser.envelopeOf db other ∧
      db' other.legacyKey = db other.legacyKey := by
  constructor
  · apply envelopeOf_congr
    refine h.others _ (fun heq => hne (sealedKey_inj heq)) (sealedKey_ne_legacyKey _ _)
  · exact h.others _ (sealedKey_ne_legacyKey _ _).symm fun heq => hne (legacyKey_inj heq)

theorem Seals.salt {salt nonce : Bytes}
    (h : Seals ciphers db db' secret key salt nonce envelope opened) :
    db' .SALT_KEY = db .SALT_KEY :=
  h.others _ (sealedKey_ne_salt _).symm (legacyKey_ne_salt _).symm

/-! ## One action -/

/-- What a tab knows of its salt and its key. -/
def Derived (ciphers : SealCiphers) (tab : Tab) : Prop :=
  match tab.stage with
  | .salted salt => salt.length = SALT_BYTES
  | .keyed salt key => salt.length = SALT_BYTES ∧
      key = deriveSealKey ciphers tab.passphrase salt DEFAULT_KDF_PARAMS
  | _ => True

/-- What an action of a tab does to the database. -/
inductive Does (ciphers : SealCiphers) (db : IdentityDb) (tab : Tab) (a : Act) (db' : IdentityDb)
    (tab' : Tab) : Prop
  | takesSalt (passphrase : JsString) (drawn : Drawn SALT_BYTES) (action : a = .salts passphrase drawn)
      (database : db' = (loadOrCreateSalt db drawn).1) (answers : tab'.answers = [])
  | leaves (database : db' = db) (answers : tab'.answers = tab.answers)
  | finds (secret : IdentitySecret) (mint : Option Seed) (nonce : Drawn NONCE_BYTES)
      (envelope : SealedSecret) (action : a = .loads secret mint nonce) (database : db' = db)
      (found : envelopeOf db secret = some envelope)
      (answers : tab'.answers = (secret, envelope) :: tab.answers)
  | seals_ (secret : IdentitySecret) (mint : Option Seed) (nonce : Drawn NONCE_BYTES)
      (envelope : SealedSecret) (salt key opened : Bytes) (action : a = .loads secret mint nonce)
      (stage : tab.stage = .keyed salt key) (writes : Writes db secret mint = true)
      (seals : Seals ciphers db db' secret key salt nonce.bytes envelope opened)
      (answers : tab'.answers = (secret, envelope) :: tab.answers)

variable {a : Act}

theorem act_does (h : act ciphers db tab a = some (db', tab')) :
    Does ciphers db tab a db' tab' := by
  unfold act at h
  split at h
  next passphrase drawn =>
    split at h
    · cases h
      exact .takesSalt passphrase drawn rfl rfl rfl
    · cases h
  · split at h
    · cases h
      exact .leaves rfl rfl
    · cases h
  next secret mint nonce =>
    split at h
    next salt key hstage =>
      split at h
      · cases h
        exact .leaves rfl rfl
      next db'' envelope hloaded =>
        cases h
        rcases loadOrMintSealed_cases hloaded with ⟨rfl, hfound⟩ | ⟨hwrites, opened, hseals⟩
        · exact .finds secret mint nonce envelope rfl rfl hfound rfl
        · exact .seals_ secret mint nonce envelope salt key opened rfl hstage hwrites hseals rfl
    · cases h
  · cases h
    exact .leaves rfl rfl

theorem act_derived (hderived : Derived ciphers tab) (h : act ciphers db tab a = some (db', tab')) :
    Derived ciphers tab' := by
  unfold act at h
  split at h
  next passphrase drawn =>
    split at h
    · cases h
      exact (loadOrCreateSalt_holds drawn).1
    · cases h
  · split at h
    next salt hstage =>
      cases h
      unfold Derived at hderived
      rw [hstage] at hderived
      exact ⟨hderived, rfl⟩
    · cases h
  · split at h
    · split at h <;> cases h <;> exact hderived
    · cases h
  · cases h
    trivial

theorem Does.apart (h : Does ciphers db tab a db' tab') (hapart : Apart db) :
    Apart db' := by
  cases h with
  | takesSalt passphrase drawn _ hdb _ =>
    intro secret legacy henvelope
    rw [hdb, envelopeOf_congr (loadOrCreateSalt_leaves drawn (sealedKey_ne_salt secret))]
      at henvelope
    rw [hdb, loadOrCreateSalt_leaves drawn (legacyKey_ne_salt secret)]
    exact hapart secret legacy henvelope
  | leaves hdb _ => exact hdb ▸ hapart
  | finds _ _ _ _ _ hdb _ _ => exact hdb ▸ hapart
  | seals_ secret mint nonce envelope salt key opened _ _ _ hseals _ =>
    intro other legacy henvelope
    by_cases hsame : other = secret
    · rw [hsame]
      exact hseals.gone legacy
    · obtain ⟨hother, hlegacy⟩ := hseals.other hsame
      rw [hlegacy]
      rw [hother] at henvelope
      exact hapart other legacy henvelope

/-- An action leaves one salt where what it writes is sealed under the salt that is there. -/
theorem Does.oneSalt (h : Does ciphers db tab a db' tab') (hcorrect : ciphers.Correct)
    (hderived : Derived ciphers tab)
    (hsalt : ∀ secret mint nonce salt key, a = .loads secret mint nonce →
      tab.stage = .keyed salt key → Writes db secret mint = true →
        db .SALT_KEY = some (.bytes salt)) (hone : OneSalt ciphers db) : OneSalt ciphers db' := by
  cases h with
  | takesSalt passphrase drawn _ hdb _ =>
    intro secret envelope henvelope
    have hbefore : envelopeOf db secret = some envelope := by
      rw [hdb, envelopeOf_congr (loadOrCreateSalt_leaves drawn (sealedKey_ne_salt secret))]
        at henvelope
      exact henvelope
    -- there is an envelope, so there is a salt, and it is taken as it is
    obtain ⟨salt, hkept, hlength, hunder⟩ := hone secret envelope hbefore
    rw [hdb, loadOrCreateSalt_keeps drawn hkept hlength]
    exact ⟨salt, hkept, hlength, hunder⟩
  | leaves hdb _ => exact hdb ▸ hone
  | finds _ _ _ _ _ hdb _ _ => exact hdb ▸ hone
  | seals_ secret mint nonce envelope salt key opened ha hstage hwrites hseals _ =>
    have hkept := hsalt secret mint nonce salt key ha hstage hwrites
    unfold Derived at hderived
    rw [hstage] at hderived
    obtain ⟨hlength, hkey⟩ := hderived
    intro other found hfound
    rw [hseals.salt]
    by_cases hsame : other = secret
    · rw [hsame, hseals.envelopeOf hcorrect hlength] at hfound
      cases hfound
      refine ⟨salt, hkept, hlength, tab.passphrase, DEFAULT_KDF_PARAMS, nonce.bytes, opened, ?_⟩
      rw [hseals.sealed_, hkey]
    · rw [(hseals.other hsame).1] at hfound
      exact hone other found hfound

/-- An envelope that is there stays. -/
theorem Does.keeps (h : Does ciphers db tab a db' tab')
    (hfound : envelopeOf db secret = some envelope) : envelopeOf db' secret = some envelope := by
  cases h with
  | takesSalt passphrase drawn _ hdb _ =>
    rw [hdb, envelopeOf_congr (loadOrCreateSalt_leaves drawn (sealedKey_ne_salt secret))]
    exact hfound
  | leaves hdb _ => exact hdb ▸ hfound
  | finds _ _ _ _ _ hdb _ _ => exact hdb ▸ hfound
  | seals_ other mint nonce sealed_ salt key opened _ _ _ hseals _ =>
    have hne : secret ≠ other := by
      rintro rfl
      unfold envelopeOf at hfound
      rw [hseals.absent] at hfound
      cases hfound
    rw [(hseals.other hne).1]
    exact hfound

theorem Does.answers (h : Does ciphers db tab a db' tab') (hcorrect : ciphers.Correct)
    (hderived : Derived ciphers tab) (hanswers : tab'.answers = (secret, envelope) :: tab.answers) :
    envelopeOf db' secret = some envelope := by
  cases h with
  | takesSalt _ _ _ _ hnone =>
    rw [hnone] at hanswers
    cases hanswers
  | leaves _ hsame =>
    rw [hsame] at hanswers
    have hlength := congrArg List.length hanswers
    simp at hlength
  | finds other _ _ found _ hdb hfound hone =>
    rw [hone, List.cons.injEq, Prod.mk.injEq] at hanswers
    obtain ⟨⟨rfl, rfl⟩, -⟩ := hanswers
    rw [hdb]
    exact hfound
  | seals_ other _ nonce found salt key opened _ hstage _ hseals hone =>
    rw [hone, List.cons.injEq, Prod.mk.injEq] at hanswers
    obtain ⟨⟨rfl, rfl⟩, -⟩ := hanswers
    unfold Derived at hderived
    rw [hstage] at hderived
    exact hseals.envelopeOf hcorrect hderived.1

theorem Does.legacy (h : Does ciphers db tab a db' tab') (hcorrect : ciphers.Correct)
    (hderived : Derived ciphers tab) {legacy : Bytes}
    (hlegacy : db secret.legacyKey = some (.bytes legacy)) :
    db' secret.legacyKey = some (.bytes legacy) ∧ envelopeOf db' secret = envelopeOf db secret ∨
      ∃ key salt nonce, envelopeOf db' secret
        = some (sealWithKey ciphers key legacy DEFAULT_KDF_PARAMS salt nonce) := by
  cases h with
  | takesSalt passphrase drawn _ hdb _ =>
    refine Or.inl ⟨?_, ?_⟩
    · rw [hdb, loadOrCreateSalt_leaves drawn (legacyKey_ne_salt secret)]
      exact hlegacy
    · rw [hdb, envelopeOf_congr (loadOrCreateSalt_leaves drawn (sealedKey_ne_salt secret))]
  | leaves hdb _ => exact Or.inl ⟨hdb ▸ hlegacy, hdb ▸ rfl⟩
  | finds _ _ _ _ _ hdb _ _ => exact Or.inl ⟨hdb ▸ hlegacy, hdb ▸ rfl⟩
  | seals_ other _ nonce found salt key opened _ hstage _ hseals _ =>
    by_cases hsame : secret = other
    · subst hsame
      unfold Derived at hderived
      rw [hstage] at hderived
      refine Or.inr ⟨key, salt, nonce.bytes, ?_⟩
      rw [hseals.envelopeOf hcorrect hderived.1, hseals.sealed_, hseals.legacy legacy hlegacy]
    · obtain ⟨hother, hkept⟩ := hseals.other hsame
      exact Or.inl ⟨hkept.trans hlegacy, hother⟩

/-! ## Whole runs -/

variable {first : IdentityDb}

theorem derived_of_reaches (h : (tabs ciphers).Reaches anything (Tabs.start first) c) (i : Nat) :
    Derived ciphers (c.locals i) := by
  refine h.eachLocal (I := fun _ tab => Derived ciphers tab) (fun _ => trivial) ?_ i
  intro c i a db tab _ hderived hstep
  exact act_derived hderived hstep

theorem apart_of_reaches (hfirst : Apart first)
    (h : (tabs ciphers).Reaches anything (Tabs.start first) c) : Apart c.shared := by
  refine h.invariant (I := fun c => Apart c.shared) hfirst ?_
  intro c e c' _ hapart hstep
  obtain ⟨i, a, db, tab, -, hown, rfl⟩ | ⟨b, db, -, halone, rfl⟩ := step_cases hstep
  · exact (act_does hown).apart hapart
  · cases halone
    intro secret legacy _ hlegacy
    cases hlegacy

theorem oneSalt_of_reaches (hcorrect : ciphers.Correct) (hfirst : OneSalt ciphers first)
    (h : (tabs ciphers).Reaches Clean (Tabs.start first) c) : OneSalt ciphers c.shared := by
  have hderived : ∀ c, (tabs ciphers).Reaches Clean (Tabs.start first) c →
      ∀ i, Derived ciphers (c.locals i) := fun c hreach =>
    derived_of_reaches (hreach.mono fun _ _ _ => trivial)
  refine (h.assuming hderived).invariant (I := fun c => OneSalt ciphers c.shared) hfirst ?_
  rintro c e c' ⟨hclean, hknown⟩ hone hstep
  obtain ⟨i, a, db, tab, rfl, hown, rfl⟩ | ⟨b, db, -, halone, rfl⟩ := step_cases hstep
  · refine (act_does hown).oneSalt hcorrect (hknown i) ?_ hone
    rintro secret mint nonce salt key rfl hstage hwrites
    simp only [Clean, hstage, hwrites, Bool.not_true, Bool.false_or, holdsSalt] at hclean
    split at hclean
    next kept hkept => exact hkept.trans (by rw [of_decide_eq_true hclean])
    · cases hclean
  · cases halone
    intro secret envelope hfound
    cases hfound

theorem OneSalt.opens (hcorrect : ciphers.Correct) (h : OneSalt ciphers db) : Opens ciphers db := by
  intro secret envelope value hfound hvalue
  obtain ⟨salt, hsalt, -, passphrase, params, nonce, opened, rfl⟩ := h secret envelope hfound
  have hparsed : parseSealedSecret value = .ok (some
      (sealWithKey ciphers (deriveSealKey ciphers passphrase salt params) opened params salt nonce)) := by
    unfold envelopeOf envelopeUnder at hfound
    rw [hvalue] at hfound
    dsimp only at hfound
    split at hfound
    next found hparsed => rw [hparsed, hfound]
    · cases hfound
  exact ⟨salt, passphrase, params, opened, hsalt, openWithKey_sealWithKey hcorrect hparsed⟩

/-- What a call answers is what the database then holds. -/
theorem envelopeOf_answered (hcorrect : ciphers.Correct)
    (h : (tabs ciphers).Reaches anything (Tabs.start first) c) {e : Event Nat Act Alone}
    (hstep : (tabs ciphers).step c e = some c') (hanswers : Answers c e c' secret envelope) :
    envelopeOf c'.shared secret = some envelope := by
  obtain ⟨i, mint, nonce, rfl, hone⟩ := hanswers
  obtain ⟨j, a, db, tab, heq, hown, rfl⟩ | ⟨b, db, heq, -, -⟩ := step_cases hstep
  · cases heq
    replace hone : (Function.update c.locals i tab i).answers
      = (secret, envelope) :: (c.locals i).answers := hone
    rw [Function.update_self] at hone
    have hdoes : Does ciphers c.shared (c.locals i) (.loads secret mint nonce) db tab := act_does hown
    exact hdoes.answers hcorrect (derived_of_reaches h i) hone
  · cases heq

/-- An envelope stays until it is forgotten. -/
theorem envelopeOf_kept (hreach : (tabs ciphers).Reaches NoForget c c')
    (hfound : envelopeOf c.shared secret = some envelope) :
    envelopeOf c'.shared secret = some envelope := by
  refine hreach.invariant (I := fun c => envelopeOf c.shared secret = some envelope) hfound ?_
  intro c e c' hkept hfound hstep
  obtain ⟨i, a, db, tab, -, hown, rfl⟩ | ⟨b, db, rfl, -, -⟩ := step_cases hstep
  · exact (act_does hown).keeps hfound
  · cases b
    exact hkept.elim

/-- Whatever the tabs do and whenever one starts over: no secret is there twice, a plaintext seed
    is sealed and never replaced, and calls on one secret with no start-over between them answer
    one envelope.  As long as calls that write find the salt of their key, every envelope is
    sealed under the salt that is there. -/
theorem tabs_agree (hcorrect : ciphers.Correct) (first : IdentityDb) (hapart : Apart first) :
    (∀ c, (tabs ciphers).Reaches anything (Tabs.start first) c → Apart c.shared ∧
      ∀ e c', (tabs ciphers).step c e = some c' → SealsLegacy ciphers c e c' ∧
        ∀ secret envelope, Answers c e c' secret envelope →
          ∀ d, (tabs ciphers).Reaches NoForget c' d →
            ∀ e' d', (tabs ciphers).step d e' = some d' →
              ∀ envelope', Answers d e' d' secret envelope' → envelope' = envelope) ∧
    (OneSalt ciphers first → ∀ c, (tabs ciphers).Reaches Clean (Tabs.start first) c →
      OneSalt ciphers c.shared ∧ Opens ciphers c.shared) := by
  constructor
  · intro c hreach
    refine ⟨apart_of_reaches hapart hreach, fun e c' hstep => ⟨?_, ?_⟩⟩
    · rintro i a secret legacy rfl hlegacy
      obtain ⟨j, a', db, tab, heq, hown, rfl⟩ | ⟨b, db, heq, -, -⟩ := step_cases hstep
      · cases heq
        exact (act_does hown).legacy hcorrect (derived_of_reaches hreach i) hlegacy
      · cases heq
    · intro secret envelope hanswers d hlater e' d' hstep' envelope' hanswers'
      have hthere := envelopeOf_answered hcorrect hreach hstep hanswers
      have hstill := envelopeOf_kept hlater hthere
      have hreach' : (tabs ciphers).Reaches anything (Tabs.start first) d := by
        have hrest : (tabs ciphers).Reaches anything c' d := hlater.mono fun _ _ _ => trivial
        exact (hreach.tail trivial hstep).trans hrest
      have hanswered := envelopeOf_answered hcorrect hreach' hstep' hanswers'
      have hnoForget : NoForget d e' := by
        obtain ⟨i, mint, nonce, rfl, -⟩ := hanswers'
        trivial
      have hkept := envelopeOf_kept (Reaches.tail Reaches.refl hnoForget hstep') hstill
      exact Option.some.inj (hanswered.symm.trans hkept)
  · intro hone c hreach
    have hsalt := oneSalt_of_reaches hcorrect hone hreach
    exact ⟨hsalt, hsalt.opens hcorrect⟩

/-! ## Two tabs, and a start-over between two steps of one -/

instance (c : Tabs) : (e : Event Nat Act Alone) → Decidable (Clean c e)
  | .own i (.loads secret mint nonce) => by
    show Decidable (match (c.locals i).stage with
      | .keyed salt _ => (!Writes c.shared secret mint || holdsSalt c.shared salt) = true
      | _ => True)
    cases (c.locals i).stage <;> infer_instance
  | .own _ (.salts _ _) => instDecidableTrue
  | .own _ .derives => instDecidableTrue
  | .own _ .dies => instDecidableTrue
  | .alone _ => instDecidableTrue

/-- A cipher that hides nothing, with a tag of zeros. -/
def plainCiphers : SealCiphers where
  argon2id passphrase salt _ _ _ _ _ := passphrase ++ salt
  encrypt _ _ _ secret := secret ++ List.replicate 16 0
  decrypt _ _ _ ciphertext := some (ciphertext.take (ciphertext.length - 16))

theorem plainCiphers_correct : plainCiphers.Correct where
  decrypt_encrypt key nonce header secret := by
    simp [plainCiphers]
  length_encrypt key nonce header secret := by
    simp [plainCiphers]

def saltOf (n : Fin 256) : Drawn SALT_BYTES := ⟨List.replicate 16 n, rfl⟩

def nonceOf (n : Fin 256) : Drawn NONCE_BYTES := ⟨List.replicate 24 n, rfl⟩

def seedOf (n : Fin 256) : Seed := ⟨List.replicate 32 n, rfl⟩

theorem empty_apart : Apart fun _ => none := by
  intro secret legacy _ h
  cases h

theorem empty_oneSalt : OneSalt plainCiphers fun _ => none := by
  intro secret envelope h
  cases h

/-- Two tabs of one cold origin. -/
theorem tabs_agree_cold : ∃ c,
    (tabs plainCiphers).Reaches Clean (Tabs.start fun _ => none) c ∧
    (c.locals 0).answers = (c.locals 1).answers ∧ (c.locals 0).answers.length = 1 ∧
    OneSalt plainCiphers c.shared ∧ Opens plainCiphers c.shared := by
  have hcomputed : ((tabs plainCiphers).runWhere Clean (Tabs.start fun _ => none)
      [.own 0 (.salts (js "one passphrase") (saltOf 1)),
        .own 1 (.salts (js "one passphrase") (saltOf 2)), .own 0 .derives, .own 1 .derives,
        .own 1 (.loads .node (some (seedOf 2)) (nonceOf 2)),
        .own 0 (.loads .node (some (seedOf 1)) (nonceOf 1))]).map
      (fun c => decide ((c.locals 0).answers = (c.locals 1).answers) &&
        decide ((c.locals 0).answers.length = 1)) = some true := by decide +kernel
  obtain ⟨c, hrun, hboth⟩ := Option.map_eq_some_iff.mp hcomputed
  have hreaches : (tabs plainCiphers).Reaches Clean (Tabs.start fun _ => none) c :=
    Reaches.of_runWhere hrun
  rw [Bool.and_eq_true, decide_eq_true_eq, decide_eq_true_eq] at hboth
  exact ⟨c, hreaches, hboth.1, hboth.2,
    (tabs_agree plainCiphers_correct _ empty_apart).2 empty_oneSalt c hreaches⟩

/-- A tab whose salt is forgotten before it seals leaves an envelope without one. -/
theorem forgotten_salt :
    ¬ ∀ c, (tabs plainCiphers).Reaches anything (Tabs.start fun _ => none) c →
      OneSalt plainCiphers c.shared := by
  intro hone
  have hcomputed : ((tabs plainCiphers).run (Tabs.start fun _ => none)
      [.own 0 (.salts (js "one passphrase") (saltOf 1)), .own 0 .derives, .alone .forgets,
        .own 0 (.loads .node (some (seedOf 1)) (nonceOf 1))]).map
      (fun c => (envelopeOf c.shared .node).isSome && (c.shared .SALT_KEY).isNone)
      = some true := by decide +kernel
  obtain ⟨c, hrun, hboth⟩ := Option.map_eq_some_iff.mp hcomputed
  rw [Bool.and_eq_true, Option.isNone_iff_eq_none] at hboth
  obtain ⟨envelope, hfound⟩ := Option.isSome_iff_exists.mp hboth.1
  have hreaches : (tabs plainCiphers).Reaches anything (Tabs.start fun _ => none) c :=
    Reaches.of_run (fun _ _ _ => trivial) hrun
  obtain ⟨salt, hsalt, -⟩ := hone c hreaches .node envelope hfound
  rw [hboth.2] at hsalt
  cases hsalt

end O2Fabric.Browser
