/-
  O2Fabric.Lib.Format

  A written form of some values, and a reader of it.  A format is exact on a
  domain when it reads back what is in the domain and never reads anything
  else; then what it read once it reads again from its own writing, and two
  values of the domain are written alike only if they are one.
-/

import O2Fabric.Lib.InsertionMap

namespace O2Fabric

universe u v

/-- A way to write values down, and one to read them. -/
structure Format (α : Type u) (V : Type v) where
  encode : α → V
  parse : V → Option α

namespace Format

variable {α : Type u} {V : Type v} {format : Format α V} {domain : α → Prop}

/-- What is in the domain is read back, and nothing else is read from anything. -/
structure Exact (format : Format α V) (domain : α → Prop) : Prop where
  reads : ∀ {a}, domain a → format.parse (format.encode a) = some a
  accepts : ∀ {v a}, format.parse v = some a → domain a

namespace Exact

/-- The domain is what comes back. -/
theorem returns_iff (exact : format.Exact domain) {a : α} :
    format.parse (format.encode a) = some a ↔ domain a :=
  ⟨exact.accepts, exact.reads⟩

/-- What was read is read again from its own writing. -/
theorem reread (exact : format.Exact domain) {v : V} {a : α} (h : format.parse v = some a) :
    format.parse (format.encode a) = some a :=
  exact.reads (exact.accepts h)

end Exact

/-! ## Lists -/

/-- One after another; a list is read if each of its items is. -/
def list (format : Format α V) : Format (List α) (List V) where
  encode as := as.map format.encode
  parse vs := vs.mapM format.parse

theorem Exact.list (exact : format.Exact domain) :
    format.list.Exact fun as => ∀ a ∈ as, domain a where
  reads := by
    intro as h
    show (as.map format.encode).mapM format.parse = some as
    rw [mapM_eq_some_iff, List.forall₂_map_left_iff, List.forall₂_same]
    intro a ha
    exact exact.reads (h a ha)
  accepts := by
    intro vs as h a ha
    have hread : List.Forall₂ (fun a v => format.parse v = some a) as vs :=
      (mapM_eq_some_iff.mp h).flip
    obtain ⟨v, -, hv⟩ := exists_of_mem_of_forall₂ hread ha
    exact exact.accepts hv

end Format

end O2Fabric
