/-
  O2Fabric.Core.Coverage

  Which owners an aggregate covers, of those it was to cover.
-/

import O2Fabric.Core.Quorum

namespace O2Fabric

structure CoverageReport where
  covered : Nat
  total : Nat
  missing : List JsString
  unexpected : List JsString
  complete : Bool
  deriving DecidableEq

def coverageOf (expected contributed : List JsString) : CoverageReport :=
  let wanted := distinct expected
  let got := distinct contributed
  let missing := (wanted.filter fun owner => decide (owner ∉ got)).insertionSort (· ≤ ·)
  let unexpected := (got.filter fun owner => decide (owner ∉ wanted)).insertionSort (· ≤ ·)
  { covered := (wanted.filter fun owner => decide (owner ∈ got)).length
    total := wanted.length
    missing := missing
    unexpected := unexpected
    complete := decide (0 < wanted.length ∧ missing = [] ∧ unexpected = []) }

end O2Fabric
