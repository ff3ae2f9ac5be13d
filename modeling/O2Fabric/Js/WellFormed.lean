/-
  O2Fabric.Js.WellFormed

  `String.prototype.toWellFormed`: the text that is left of a text in UTF-8.
-/

import O2Fabric.Js.Utf8

namespace O2Fabric

/-- Half of a pair. -/
def isSurrogate (u : CodeUnit) : Bool := decide (0xD800 ≤ u.val ∧ u.val < 0xE000)

/-- A half that is alone becomes U+FFFD. -/
def unpaired (u : CodeUnit) : CodeUnit := if isSurrogate u then 0xFFFD else u

/-- `text.toWellFormed()`. -/
def toWellFormed : JsString → JsString
  | [] => []
  | [u] => [unpaired u]
  | u :: v :: rest =>
    if 0xD800 ≤ u.val ∧ u.val < 0xDC00 ∧ 0xDC00 ≤ v.val ∧ v.val < 0xE000 then
      u :: v :: toWellFormed rest
    else unpaired u :: toWellFormed (v :: rest)

theorem unpaired_val (u : CodeUnit) :
    ¬ (0xD800 ≤ (unpaired u).val ∧ (unpaired u).val < 0xE000) ∧
      (unpaired u).val = if 0xD800 ≤ u.val ∧ u.val < 0xE000 then 0xFFFD else u.val := by
  unfold unpaired isSurrogate
  by_cases hsurrogate : 0xD800 ≤ u.val ∧ u.val < 0xE000
  · rw [if_pos (decide_eq_true hsurrogate), if_pos hsurrogate]
    exact ⟨by decide, rfl⟩
  · rw [if_neg (by rw [decide_eq_true_eq]; exact hsurrogate), if_neg hsurrogate]
    exact ⟨hsurrogate, rfl⟩

theorem unpaired_eq_iff (u : CodeUnit) :
    unpaired u = u ↔ ¬ (0xD800 ≤ u.val ∧ u.val < 0xE000) := by
  constructor
  · intro h
    have hval := (unpaired_val u).1
    rw [h] at hval
    exact hval
  · intro h
    apply Fin.ext
    rw [(unpaired_val u).2, if_neg h]

theorem length_toWellFormed (text : JsString) : (toWellFormed text).length = text.length := by
  fun_induction toWellFormed text with
  | case1 => rfl
  | case2 u => rfl
  | case3 u v rest hpair ih =>
    rw [List.length_cons, List.length_cons, ih, List.length_cons, List.length_cons]
  | case4 u v rest hpair ih =>
    rw [List.length_cons, ih]
    rfl

/-- A code unit that starts no pair is encoded for itself. -/
theorem textEncoder_single {u : CodeUnit} (h : ¬ (0xD800 ≤ u.val ∧ u.val < 0xE000))
    (rest : JsString) : textEncoder (u :: rest) = utf8 u.val ++ textEncoder rest := by
  cases rest with
  | nil =>
    have hone : textEncoder [u]
        = utf8 (if 0xD800 ≤ u.val ∧ u.val < 0xE000 then 0xFFFD else u.val) := by
      unfold textEncoder
      rfl
    rw [hone, if_neg h]
    exact (List.append_nil _).symm
  | cons v rest => rw [textEncoder, if_neg (by omega), if_neg h]

/-- Nothing is lost of the bytes. -/
theorem textEncoder_toWellFormed (text : JsString) :
    textEncoder (toWellFormed text) = textEncoder text := by
  fun_induction toWellFormed text with
  | case1 => rfl
  | case2 u =>
    obtain ⟨hwhole, hval⟩ := unpaired_val u
    rw [textEncoder_single hwhole, hval]
    unfold textEncoder
    rw [List.append_nil]
  | case3 u v rest hpair ih => rw [textEncoder, if_pos hpair, ih, textEncoder, if_pos hpair]
  | case4 u v rest hpair ih =>
    obtain ⟨hwhole, hval⟩ := unpaired_val u
    rw [textEncoder_single hwhole, hval, ih, textEncoder, if_neg hpair]

/-- It changes nothing exactly where no half is alone. -/
theorem toWellFormed_eq_iff (text : JsString) :
    toWellFormed text = text ↔ isWellFormed text = true := by
  fun_induction toWellFormed text with
  | case1 => simp [isWellFormed]
  | case2 u =>
    rw [isWellFormed, decide_eq_true_eq, ← unpaired_eq_iff]
    exact ⟨fun h => (List.cons.inj h).1, fun h => congrArg (fun u => [u]) h⟩
  | case3 u v rest hpair ih =>
    have hlow : 0xDC00 ≤ v.val ∧ v.val < 0xE000 := ⟨hpair.2.2.1, hpair.2.2.2⟩
    rw [isWellFormed, if_pos ⟨hpair.1, hpair.2.1⟩, decide_eq_true hlow, Bool.true_and, ← ih]
    exact ⟨fun h => (List.cons.inj (List.cons.inj h).2).2, fun h => by rw [h]⟩
  | case4 u v rest hpair ih =>
    rw [isWellFormed]
    by_cases hhigh : 0xD800 ≤ u.val ∧ u.val < 0xDC00
    · -- the first of a pair without the second is replaced
      have hlow : ¬ (0xDC00 ≤ v.val ∧ v.val < 0xE000) := fun hlow =>
        hpair ⟨hhigh.1, hhigh.2, hlow.1, hlow.2⟩
      rw [if_pos hhigh, decide_eq_false hlow, Bool.false_and]
      constructor
      · intro h
        have hsame := (unpaired_eq_iff u).mp (List.cons.inj h).1
        omega
      · intro h
        cases h
    · rw [if_neg hhigh, Bool.and_eq_true, decide_eq_true_eq, ← ih]
      constructor
      · intro h
        have hsame := (unpaired_eq_iff u).mp (List.cons.inj h).1
        exact ⟨by omega, (List.cons.inj h).2⟩
      · rintro ⟨hlow, hrest⟩
        have hsame := (unpaired_eq_iff u).mpr (by omega)
        rw [hsame, hrest]

/-! ## Texts in a row -/

/-- Texts of the same lengths that are joined alike are the same. -/
theorem join_inj_of_lengths {separator : CodeUnit} {xs ys : List JsString}
    (hlengths : xs.map List.length = ys.map List.length)
    (hjoin : join separator xs = join separator ys) : xs = ys := by
  induction xs generalizing ys with
  | nil =>
    cases ys with
    | nil => rfl
    | cons y ys => cases hlengths
  | cons x xs ih =>
    cases ys with
    | nil => cases hlengths
    | cons y ys =>
      obtain ⟨hfirst, hrest⟩ := List.cons.inj hlengths
      cases xs with
      | nil =>
        have hnone : ys = [] := List.map_eq_nil_iff.mp hrest.symm
        rw [hnone] at hjoin ⊢
        have hsame : x = y := by simpa [join] using hjoin
        rw [hsame]
      | cons x' xs =>
        have hsome : ys ≠ [] := by
          rintro rfl
          cases hrest
        rw [join, join, List.intercalate_cons_of_ne_nil (List.cons_ne_nil x' xs),
          List.intercalate_cons_of_ne_nil hsome, List.append_assoc, List.append_assoc] at hjoin
        obtain ⟨hsame, hmore⟩ := List.append_inj hjoin hfirst
        rw [hsame, ih hrest (List.append_cancel_left hmore)]

end O2Fabric
