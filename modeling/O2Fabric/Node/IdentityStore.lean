/-
  O2Fabric.Node.IdentityStore

  The seed of a node, in two files of one directory: sealed, or in the
  plaintext an older build wrote.

  A call of `loadOrCreateSealedSeed` is a thread over the directory, in
  whichever process it runs.  One action is one file operation, with what the
  call does up to its next one.
-/

import O2Fabric.Core.SealedSecret
import O2Fabric.Lib.Threads
import O2Fabric.Libp2p.IdentityProtection

namespace O2Fabric.Node

open O2Fabric.Libp2p

/-- `sealedPath` and `legacyPath`. -/
inductive SeedPath
  | sealedPath
  | legacyPath

/-- Why no seed is returned. -/
inductive SeedFileError
  | weakPassphrase (received : Nat)
  | sealedIdentityNeedsPassphrase
  /-- An envelope that does not open, with what was thrown. -/
  | sealedIdentityUnlock (cause : JsString)
  | malformedSeedFile (path : SeedPath) (received : Nat)
  /-- The plaintext is not there to be unlinked. -/
  | notFound

def SeedFileError.message (name : SeedPath → JsString) : SeedFileError → JsString
  | .weakPassphrase received => weakPassphraseMessage received
  | .sealedIdentityNeedsPassphrase => name .sealedPath
      ++ js " holds a sealed identity and no passphrase was supplied — refusing to mint a new identity "
      ++ js "over one that already exists, which would give this node a different peer id and orphan any "
      ++ js "certificate naming the old one. Supply --identity-passphrase-file, or point --dir somewhere else."
  | .sealedIdentityUnlock cause => name .sealedPath
      ++ js " did not open — either the passphrase is wrong or the envelope has been altered, and the "
      ++ js "authenticated cipher reports the same failure for both, so this refusal does not claim to know "
      ++ js "which (" ++ cause ++ js "). "
      ++ js "Refusing to mint a new identity — starting anyway would give this node a different peer id and "
      ++ js "orphan any certificate naming the old one."
  | .malformedSeedFile path received => name path ++ js " holds " ++ decimal received
      ++ js " bytes, expected exactly " ++ decimal SEED_BYTES
      ++ js " bytes — refusing to reinterpret it as a new identity"
  | .notFound => js "ENOENT: no such file or directory, unlink '" ++ name .legacyPath ++ js "'"

/-- `openSealedSeed`, when the key is derived. -/
def openSealedSeed (v : SecretSeal) (text : Bytes) (passphrase : JsString) :
    Except SeedFileError Bytes :=
  match v.openSecret text passphrase with
  | .error cause => .error (.sealedIdentityUnlock cause)
  | .ok opened =>
    if opened.length ≠ SEED_BYTES then .error (.malformedSeedFile .sealedPath opened.length)
    else .ok opened

/-! ## The directory and its callers -/

/-- What the two files hold, where there are any. -/
structure SeedDirectory where
  envelope : Option Bytes
  legacy : Option Bytes

/-- Which file operation a call comes to next, or how it ended. -/
inductive LoadStage
  | uncalled
  /-- The envelope is read. -/
  | starting
  /-- There was none: the plaintext is read. -/
  | withoutEnvelope
  | opening (text : Bytes)
  /-- The seed, from the plaintext or minted, is sealed. -/
  | sealing (seed : Bytes) (migrating : Bool)
  /-- The envelope is written to a temporary file. -/
  | writing (seed : Bytes) (migrating : Bool) (envelope : Bytes)
  /-- The temporary file is written, and is renamed. -/
  | written (seed : Bytes) (migrating : Bool)
  /-- The envelope is read again. -/
  | rereading (seed : Bytes)
  /-- What was read again is opened. -/
  | verifying (seed text : Bytes)
  | unlinking (seed : Bytes)
  | returned (seed : Bytes) (unprotected : Bool)
  | refused (error : SeedFileError)
  | crashed

structure SeedLoad where
  protection : IdentityProtection
  /-- What the file under the name that is this call's alone holds. -/
  temporary : Option Bytes
  stage : LoadStage

def SeedLoad.uncalled : SeedLoad := ⟨.writesNoNewSecret, none, .uncalled⟩

inductive Act
  | calls (protection : IdentityProtection)
  | readsEnvelope
  | readsLegacy (drawn : Seed)
  | seals (drawn : Bytes)
  | writes
  | renames
  | rereads
  | opens
  | unlinks
  /-- With how much of the temporary file was written. -/
  | crashes (written : Nat)

section

variable (v : SecretSeal) (dir : SeedDirectory) (call : SeedLoad)

def calls (protection : IdentityProtection) : Option (SeedDirectory × SeedLoad) :=
  match call.stage with
  | .uncalled =>
    let stage := match assertUsablePassphrase protection with
      | .error received => LoadStage.refused (.weakPassphrase received)
      | .ok () => .starting
    some (dir, ⟨protection, none, stage⟩)
  | _ => none

def readsEnvelope : Option (SeedDirectory × SeedLoad) :=
  match call.stage with
  | .starting =>
    let stage := match dir.envelope, call.protection with
      | none, _ => LoadStage.withoutEnvelope
      | some _, .writesNoNewSecret => .refused .sealedIdentityNeedsPassphrase
      | some text, .passphrase _ => .opening text
    some (dir, { call with stage })
  | _ => none

def readsLegacy (drawn : Seed) : Option (SeedDirectory × SeedLoad) :=
  match call.stage with
  | .withoutEnvelope =>
    let stage := match dir.legacy, call.protection with
      | some legacy, protection =>
        if legacy.length ≠ SEED_BYTES then
          LoadStage.refused (.malformedSeedFile .legacyPath legacy.length)
        else match protection with
          | .writesNoNewSecret => .returned legacy true
          | .passphrase _ => .sealing legacy true
      | none, .writesNoNewSecret => .returned drawn.bytes false
      | none, .passphrase _ => .sealing drawn.bytes false
    some (dir, { call with stage })
  | _ => none

/-- `sealSecret` in `writeEnvelope`. -/
def seals (drawn : Bytes) : Option (SeedDirectory × SeedLoad) :=
  match call.stage, call.protection with
  | .sealing seed migrating, .passphrase passphrase =>
    let stage := LoadStage.writing seed migrating (v.sealSecret seed passphrase drawn)
    some (dir, { call with stage })
  | _, _ => none

/-- `writeFile` in `writeEnvelope`. -/
def writes : Option (SeedDirectory × SeedLoad) :=
  match call.stage with
  | .writing seed migrating envelope =>
    some (dir, { call with temporary := some envelope, stage := .written seed migrating })
  | _ => none

/-- `rename` in `writeEnvelope`. -/
def renames : Option (SeedDirectory × SeedLoad) :=
  match call.stage with
  | .written seed migrating =>
    let stage := if migrating then LoadStage.rereading seed else .returned seed false
    some ({ dir with envelope := call.temporary }, { call with temporary := none, stage })
  | _ => none

def rereads : Option (SeedDirectory × SeedLoad) :=
  match call.stage with
  | .rereading seed =>
    let stage := match dir.envelope with
      | none => LoadStage.refused
          (.sealedIdentityUnlock (js "Error: the envelope this migration just wrote is not there"))
      | some text => .verifying seed text
    some (dir, { call with stage })
  | _ => none

def opens : Option (SeedDirectory × SeedLoad) :=
  match call.stage, call.protection with
  | .opening text, .passphrase passphrase =>
    let stage := match openSealedSeed v text passphrase with
      | .error error => LoadStage.refused error
      | .ok seed => .returned seed false
    some (dir, { call with stage })
  | .verifying seed text, .passphrase passphrase =>
    let stage := match openSealedSeed v text passphrase with
      | .error error => LoadStage.refused error
      | .ok reopened =>
        if reopened ≠ seed then
          .refused (.sealedIdentityUnlock
            (js "Error: the envelope this migration just wrote opened to different bytes"))
        else .unlinking seed
    some (dir, { call with stage })
  | _, _ => none

def unlinks : Option (SeedDirectory × SeedLoad) :=
  match call.stage with
  | .unlinking seed =>
    match dir.legacy with
    | none => some (dir, { call with stage := .refused .notFound })
    | some _ => some ({ dir with legacy := none }, { call with stage := .returned seed false })
  | _ => none

/-- The process ends, wherever the call is. -/
def crashes (written : Nat) : Option (SeedDirectory × SeedLoad) :=
  match call.stage with
  | .uncalled => none
  | .returned _ _ => none
  | .refused _ => none
  | .crashed => none
  | .writing _ _ envelope =>
    some (dir, { call with temporary := some (envelope.take written), stage := .crashed })
  | _ => some (dir, { call with stage := .crashed })

end

/-- `loadOrCreateSealedSeed`, one file operation at a time. -/
def loadOrCreateSealedSeed (v : SecretSeal) :
    Threads.System Nat SeedDirectory SeedLoad Act Empty where
  own _ a dir call := match a with
    | .calls protection => calls dir call protection
    | .readsEnvelope => readsEnvelope dir call
    | .readsLegacy drawn => readsLegacy dir call drawn
    | .seals drawn => seals v dir call drawn
    | .writes => writes dir call
    | .renames => renames dir call
    | .rereads => rereads dir call
    | .opens => opens v dir call
    | .unlinks => unlinks dir call
    | .crashes written => crashes dir call written
  alone b _ := nomatch b

abbrev SeedLoads := Threads.Config Nat SeedDirectory SeedLoad

def SeedLoads.start (dir : SeedDirectory) : SeedLoads := ⟨dir, fun _ => .uncalled⟩

end O2Fabric.Node
