/-
  O2Fabric.Core.SealedSecret

  Secrets sealed under a passphrase, as a key derivation and an authenticated
  cipher give them.  Both are parameters; what is relied on is `Ideal`.
-/

import O2Fabric.Core.Platform

namespace O2Fabric

/-- `sealSecret` and `openSecret`, with the record they pass as the text it is stored as. -/
structure SecretSeal where
  /-- The salt and the nonce are drawn anew by every call: `drawn`. -/
  sealSecret : (secret : Bytes) → (passphrase : JsString) → (drawn : Bytes) → Bytes
  /-- The secret, or what is thrown where the record does not open. -/
  openSecret : (stored : Bytes) → (passphrase : JsString) → Except JsString Bytes

/-- A record opens under the passphrase it was sealed under, to what was sealed, and any
    record opens under one passphrase and to one secret at most. -/
structure SecretSeal.Ideal (v : SecretSeal) : Prop where
  opens : ∀ secret passphrase drawn,
    v.openSecret (v.sealSecret secret passphrase drawn) passphrase = .ok secret
  one : ∀ stored passphrase passphrase' secret secret',
    v.openSecret stored passphrase = .ok secret → v.openSecret stored passphrase' = .ok secret' →
      passphrase = passphrase' ∧ secret = secret'

/-- The record holds this secret: some passphrase opens it to that. -/
def SecretSeal.HoldsSecret (v : SecretSeal) (stored secret : Bytes) : Prop :=
  ∃ passphrase, v.openSecret stored passphrase = .ok secret

namespace SecretSeal

variable {v : SecretSeal} {stored secret secret' : Bytes}

theorem Ideal.holdsSecret_inj (hideal : v.Ideal) (h : v.HoldsSecret stored secret)
    (h' : v.HoldsSecret stored secret') : secret = secret' := by
  obtain ⟨passphrase, hopen⟩ := h
  obtain ⟨passphrase', hopen'⟩ := h'
  exact (hideal.one _ _ _ _ _ hopen hopen').2

theorem Ideal.holdsSecret_seal (hideal : v.Ideal) (passphrase : JsString) (drawn : Bytes) :
    v.HoldsSecret (v.sealSecret secret passphrase drawn) secret :=
  ⟨passphrase, hideal.opens secret passphrase drawn⟩

/-! ## A seal that hides nothing -/

/-- A passphrase before a secret, so that where it ends can be told. -/
def header : JsString → Bytes
  | [] => [0]
  | unit :: rest => 1 :: Fin.ofNat 256 (unit.val / 256) :: Fin.ofNat 256 unit.val :: header rest

/-- The passphrase is kept beside the secret. -/
def beside : SecretSeal where
  sealSecret secret passphrase _ := header passphrase ++ secret
  openSecret stored passphrase :=
    if header passphrase <+: stored then .ok (stored.drop (header passphrase).length)
    else .error (js "OperationError")

theorem header_append_inj {passphrase passphrase' : JsString}
    (h : header passphrase ++ secret = header passphrase' ++ secret') :
    passphrase = passphrase' ∧ secret = secret' := by
  induction passphrase generalizing passphrase' with
  | nil =>
    cases passphrase' with
    | nil => exact ⟨rfl, (List.cons.inj h).2⟩
    | cons unit rest => cases (List.cons.inj h).1
  | cons unit rest ih =>
    cases passphrase' with
    | nil => cases (List.cons.inj h).1
    | cons unit' rest' =>
      simp only [header, List.cons_append, List.cons.injEq, true_and] at h
      obtain ⟨hhigh, hlow, hrest⟩ := h
      obtain ⟨rfl, rfl⟩ := ih hrest
      have hhigh := congrArg Fin.val hhigh
      have hlow := congrArg Fin.val hlow
      simp only [Fin.val_ofNat] at hhigh hlow
      have hunit : unit = unit' := Fin.ext (by omega)
      exact ⟨by rw [hunit], rfl⟩

theorem beside_opens {passphrase : JsString} (h : beside.openSecret stored passphrase = .ok secret) :
    stored = header passphrase ++ secret := by
  simp only [beside] at h
  split at h
  next hprefix =>
    cases h
    exact (List.prefix_iff_eq_append.mp hprefix).symm
  · cases h

theorem beside_ideal : beside.Ideal where
  opens secret passphrase drawn := by
    simp [beside]
  one stored passphrase passphrase' secret secret' h h' :=
    header_append_inj ((beside_opens h).symm.trans (beside_opens h'))

end SecretSeal

end O2Fabric
