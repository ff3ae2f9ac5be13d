/-
  O2Fabric.Core.Discovery.ExtensionOrder

  Where the order of the extensions is canonical.  They are sorted by the UTF-8
  bytes of their ids, and an id that comes twice is looked for among neighbours.
  Two ids that are not well formed can have the same bytes; then the sort leaves
  them as they came, and may leave something between two entries of one id.
-/

import O2Fabric.Core.Discovery
import O2Fabric.Js.WellFormed
import O2Fabric.Lib.StableSort

namespace O2Fabric

open StableSort

/-! ## The order -/

theorem compareBytes_eq {left right : Bytes} (h : compareBytes left right ≤ 0)
    (h' : compareBytes right left ≤ 0) : left = right := by
  induction left generalizing right with
  | nil =>
    cases right with
    | nil => rfl
    | cons other right => simp [compareBytes] at h'
  | cons byte left ih =>
    cases right with
    | nil => simp [compareBytes] at h
    | cons other right =>
      rcases lt_trichotomy byte other with hlt | rfl | hgt
      · simp [compareBytes, hlt.ne', hlt.not_gt] at h'
      · simp only [compareBytes, ne_eq, not_true_eq_false, if_false] at h h'
        rw [ih h h']
      · simp [compareBytes, hgt.ne', hgt.not_gt] at h

def CapabilityExtension.idBytes (one : CapabilityExtension) : Bytes := textEncoder one.id

/-- Ids with the same bytes are tied, and no others are. -/
theorem notAfter_ties : Ties CapabilityExtension.NotAfter CapabilityExtension.idBytes := by
  intro a b
  constructor
  · rintro ⟨hab, hba⟩
    exact compareBytes_eq hab hba
  · intro hkey
    have hself : compareBytes a.idBytes a.idBytes ≤ 0 :=
      (compareBytes_total a.idBytes a.idBytes).elim id id
    constructor
    · show compareBytes a.idBytes b.idBytes ≤ 0
      rw [← hkey]
      exact hself
    · show compareBytes b.idBytes a.idBytes ≤ 0
      rw [← hkey]
      exact hself

/-! ## The ids that come twice -/

/-- An id is refused that comes twice in a row. -/
theorem repeatedId_eq_none {ordered : List CapabilityExtension} :
    repeatedId ordered = none ↔
      ¬ ∃ before a b after, ordered = before ++ a :: b :: after ∧ a.id = b.id := by
  induction ordered with
  | nil => simp [repeatedId]
  | cons first rest ih =>
    cases rest with
    | nil =>
      refine ⟨fun _ => ?_, fun _ => rfl⟩
      rintro ⟨before, a, b, after, heq, -⟩
      have hlength := congrArg List.length heq
      simp at hlength
      omega
    | cons second rest =>
      rw [repeatedId]
      split
      · next hsame =>
        refine ⟨nofun, fun hnone => ?_⟩
        exact absurd ⟨[], first, second, rest, rfl, hsame⟩ hnone
      · next hother =>
        rw [ih, not_iff_not]
        constructor
        · rintro ⟨before, a, b, after, heq, hsame⟩
          exact ⟨first :: before, a, b, after, congrArg (first :: ·) heq, hsame⟩
        · rintro ⟨before, a, b, after, heq, hsame⟩
          cases before with
          | nil =>
            cases heq
            exact absurd hsame hother
          | cons _ before =>
            exact ⟨before, a, b, after, (List.cons.inj heq).2, hsame⟩

variable {extensions : List CapabilityExtension}

/-- The extensions are refused exactly if two entries of one id have no id with
    their bytes between them. -/
theorem orderExtensions_eq_ok :
    orderExtensions extensions = .ok (sortExtensions extensions) ↔
      ¬ Neighbours CapabilityExtension.idBytes (fun a b => a.id = b.id) extensions := by
  have hadjacent := adjacent_insertionSort notAfter_ties (fun a b => a.id = b.id) extensions
  rw [← hadjacent]
  have hbytes : (∃ before a b after, sortExtensions extensions = before ++ a :: b :: after ∧
      a.idBytes = b.idBytes ∧ a.id = b.id) ↔
      ∃ before a b after, sortExtensions extensions = before ++ a :: b :: after ∧ a.id = b.id := by
    constructor
    · rintro ⟨before, a, b, after, heq, -, hsame⟩
      exact ⟨before, a, b, after, heq, hsame⟩
    · rintro ⟨before, a, b, after, heq, hsame⟩
      exact ⟨before, a, b, after, heq, congrArg textEncoder hsame, hsame⟩
  show _ ↔ ¬ ∃ before a b after, sortExtensions extensions = before ++ a :: b :: after ∧ _
  rw [hbytes, ← repeatedId_eq_none]
  unfold orderExtensions
  dsimp only
  cases repeatedId (sortExtensions extensions) with
  | none => exact ⟨fun _ => rfl, fun _ => rfl⟩
  | some duplicate => exact ⟨nofun, nofun⟩

theorem orderExtensions_cases (extensions : List CapabilityExtension) :
    orderExtensions extensions = .ok (sortExtensions extensions) ∨
      ∃ duplicate, orderExtensions extensions = .error duplicate := by
  unfold orderExtensions
  dsimp only
  cases repeatedId (sortExtensions extensions) with
  | none => exact Or.inl rfl
  | some duplicate => exact Or.inr ⟨duplicate, rfl⟩

/-- Neighbours of one id are an id that comes twice. -/
theorem not_nodup_of_neighbours
    (h : Neighbours CapabilityExtension.idBytes (fun a b => a.id = b.id) extensions) :
    ¬ (extensions.map CapabilityExtension.id).Nodup := by
  obtain ⟨before, a, mid, b, after, rfl, -, hsame, -⟩ := h
  intro hnodup
  rw [List.map_append, List.map_cons] at hnodup
  have hrest := (List.nodup_cons.mp (List.nodup_append.mp hnodup).2.1).1
  apply hrest
  rw [hsame]
  exact List.mem_map_of_mem (List.mem_append_right _ List.mem_cons_self)

/-! ## The canonical form -/

/-- The extensions are refused exactly if an id comes twice, and are otherwise put
    in an order that does not depend on how they came. -/
def OrdersCanonically (extensions : List CapabilityExtension) : Prop :=
  ((∃ duplicate, orderExtensions extensions = .error duplicate) ↔
    ¬ (extensions.map CapabilityExtension.id).Nodup) ∧
  ((¬ ∃ duplicate, orderExtensions extensions = .error duplicate) →
    ∀ extensions', extensions'.Perm extensions →
      orderExtensions extensions' = orderExtensions extensions)

/-- No two ids have the same bytes. -/
theorem ordersCanonically_of_bytes (hbytes : (extensions.map CapabilityExtension.idBytes).Nodup) :
    OrdersCanonically extensions := by
  have hids : (extensions.map CapabilityExtension.id).Nodup := by
    apply List.Nodup.of_map textEncoder
    rw [List.map_map]
    exact hbytes
  have hok : ∀ {extensions'}, extensions'.Perm extensions →
      orderExtensions extensions' = .ok (sortExtensions extensions') := by
    intro extensions' hperm
    apply orderExtensions_eq_ok.mpr
    exact fun h => not_nodup_of_neighbours h ((hperm.map _).nodup_iff.mpr hids)
  constructor
  · constructor
    · rintro ⟨duplicate, herror⟩
      rw [hok (.refl _)] at herror
      cases herror
    · exact fun hnot => absurd hids hnot
  · intro _ extensions' hperm
    rw [hok hperm, hok (.refl _)]
    exact congrArg Except.ok (insertionSort_congr notAfter_ties hperm hbytes)

/-- The order is canonical exactly if no two ids have the same bytes, or two entries
    of one id have no id with their bytes between them. -/
theorem orderExtensions_canonical_iff (extensions : List CapabilityExtension) :
    OrdersCanonically extensions ↔
      (extensions.map CapabilityExtension.idBytes).Nodup ∨
        Neighbours CapabilityExtension.idBytes (fun a b => a.id = b.id) extensions := by
  constructor
  · rintro ⟨-, hsame⟩
    by_contra hnot
    rw [not_or] at hnot
    obtain ⟨hbytes, hapart⟩ := hnot
    have hok := orderExtensions_eq_ok.mpr hapart
    -- two entries of other ids and the same bytes change places
    obtain ⟨before, a, mid, b, after, rfl, hkey, -, hmid⟩ := exists_neighbours hbytes
    have hswap : (before ++ b :: (mid ++ a :: after)).Perm (before ++ a :: (mid ++ b :: after)) := by
      apply List.Perm.append_left
      refine (List.perm_middle.cons b).trans ?_
      refine (List.Perm.swap a b _).trans ?_
      exact List.perm_middle.symm.cons a
    have hagain := hsame (by rw [hok]; rintro ⟨duplicate, ⟨⟩⟩) _ hswap
    have hsorted := (orderExtensions_cases (before ++ b :: (mid ++ a :: after))).resolve_right
      (by rw [hagain, hok]; rintro ⟨duplicate, ⟨⟩⟩)
    rw [hagain, hok] at hsorted
    have heq := eq_of_swap notAfter_ties hkey hmid (Except.ok.inj hsorted).symm
    apply hapart
    exact ⟨before, a, mid, b, after, rfl, hkey, congrArg CapabilityExtension.id heq, hmid⟩
  · rintro (hbytes | hneighbours)
    · exact ordersCanonically_of_bytes hbytes
    · -- an id comes twice, and is found
      have hrefused : ∃ duplicate, orderExtensions extensions = .error duplicate := by
        refine (orderExtensions_cases extensions).resolve_left fun hok => ?_
        exact orderExtensions_eq_ok.mp hok hneighbours
      exact ⟨⟨fun _ => not_nodup_of_neighbours hneighbours, fun _ => hrefused⟩,
        fun hnot => absurd hrefused hnot⟩

/-! ## Halves of pairs -/

def idOnly (id : JsString) : CapabilityExtension := ⟨id, false, .null⟩

/-- Two halves of pairs, one of them twice, are in no canonical order: the one that
    comes twice is not found.  Nor are two, of which the other order is another
    result. -/
theorem unpaired_ids_keep_their_order :
    (¬ (∃ duplicate, orderExtensions [idOnly [0xD800], idOnly [0xD801], idOnly [0xD800]]
      = .error duplicate) ∧ ¬ OrdersCanonically [idOnly [0xD800], idOnly [0xD801], idOnly [0xD800]]) ∧
    ¬ OrdersCanonically [idOnly [0xD800], idOnly [0xD801]] := by
  have hok : ∀ extensions : List CapabilityExtension,
      extensions.Pairwise CapabilityExtension.NotAfter → repeatedId extensions = none →
        orderExtensions extensions = .ok extensions := by
    intro extensions hsorted hnone
    unfold orderExtensions
    dsimp only
    rw [sortExtensions_of_sorted hsorted, hnone]
  have hthree := hok [idOnly [0xD800], idOnly [0xD801], idOnly [0xD800]] (by decide) (by decide)
  have hfound : ¬ ∃ duplicate, orderExtensions [idOnly [0xD800], idOnly [0xD801], idOnly [0xD800]]
      = .error duplicate := by
    rw [hthree]
    rintro ⟨duplicate, ⟨⟩⟩
  refine ⟨⟨hfound, fun h => hfound (h.1.mpr (by decide))⟩, fun h => ?_⟩
  have htwo := hok [idOnly [0xD800], idOnly [0xD801]] (by decide) (by decide)
  have hother := h.2 (by rw [htwo]; rintro ⟨duplicate, ⟨⟩⟩)
    [idOnly [0xD801], idOnly [0xD800]] (List.Perm.swap _ _ _)
  rw [htwo, hok [idOnly [0xD801], idOnly [0xD800]] (by decide) (by decide)] at hother
  have hid := congrArg CapabilityExtension.id (List.cons.inj (Except.ok.inj hother)).1
  exact absurd hid (by decide)

end O2Fabric
