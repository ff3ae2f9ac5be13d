/-
  O2Fabric.Libp2p.IdentityProtection

  Identity seeds, and the passphrases they are protected by.
-/

import O2Fabric.Core.Platform

namespace O2Fabric.Libp2p

def SEED_BYTES : Nat := 32

/-- What `generateSeed` draws. -/
structure Seed where
  bytes : Bytes
  width : bytes.length = SEED_BYTES

def PASSPHRASE_MIN_LENGTH : Nat := 20

inductive IdentityProtection
  | passphrase (passphrase : JsString)
  | writesNoNewSecret
  deriving DecidableEq

/-- Why a passphrase is not used: `WeakPassphraseError`, with the characters received. -/
def assertUsablePassphrase : IdentityProtection → Except Nat Unit
  | .writesNoNewSecret => .ok ()
  | .passphrase passphrase =>
    if passphrase.length < PASSPHRASE_MIN_LENGTH then .error passphrase.length else .ok ()

def weakPassphraseMessage (received : Nat) : JsString :=
  js "the identity passphrase is " ++ decimal received ++ js " characters, and at least "
    ++ decimal PASSPHRASE_MIN_LENGTH ++ js " are required "
    ++ js "— the floor @libp2p/keychain enforces against NIST SP 800-132; refusing to seal a long-lived "
    ++ js "secret behind a passphrase that an offline attacker holding this disk could enumerate"

end O2Fabric.Libp2p
