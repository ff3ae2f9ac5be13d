/-
  O2Fabric.Core.Cid

  Content addresses.  The fabric compares, keys and joins a CID by its text, so
  that text is what is kept, with the one fact the separators rely on: it
  contains neither NUL nor `|`.
-/

import O2Fabric.Js.Text

namespace O2Fabric

/-- A content address, by the text `cid.toString()` gives. -/
structure Cid where
  toText : JsString
  nulFree : NUL ∉ toText
  pipeFree : PIPE ∉ toText
  deriving DecidableEq

theorem Cid.toText_injective : Function.Injective Cid.toText := by
  intro a b h
  cases a
  cases b
  cases h
  rfl

end O2Fabric
