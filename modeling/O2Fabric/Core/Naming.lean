/-
  O2Fabric.Core.Naming

  What is signed outside the fabric and carried through it: which bytes a name
  stands for, and who may act on an owner's data.
-/

import O2Fabric.Core.Cid
import Mathlib.Data.Rat.Defs

namespace O2Fabric

/-- An anchor lets another key sign names. -/
structure NameDelegation where
  root : JsString
  delegate : JsString
  expiresAt : ℚ
  signature : JsString
  deriving DecidableEq

/-- A signed name of some bytes.  `wantsNetworkReach` is `true` or absent. -/
structure NameRecord where
  name : JsString
  cid : Cid
  version : Nat
  expiresAt : ℚ
  signer : JsString
  signature : JsString
  translationKeyCid : Option Cid
  delegation : Option NameDelegation
  wantsNetworkReach : Bool
  deriving DecidableEq

/-- What a delegation permits. -/
inductive Ability
  | execute
  | read
  | delegate
  deriving DecidableEq

/-- One link of a capability chain. -/
structure Delegation where
  issuer : JsString
  audience : JsString
  ownerId : JsString
  abilities : List Ability
  expiresAt : ℚ
  signature : JsString
  deriving DecidableEq

end O2Fabric
