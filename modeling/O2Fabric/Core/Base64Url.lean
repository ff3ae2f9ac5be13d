/-
  O2Fabric.Core.Base64Url

  Byte strings as text in the URL-safe alphabet, without padding.
-/

import O2Fabric.Core.Platform
import O2Fabric.Lib.Base64

namespace O2Fabric

def BASE64_ALPHABET : List CodeUnit :=
  js "ABCDEFGHIJKLMNOPQRSTUVWXYZabcdefghijklmnopqrstuvwxyz0123456789-_"

theorem length_BASE64_ALPHABET : BASE64_ALPHABET.length = 64 := by decide

/-- `'='`. -/
def PAD : CodeUnit := 0x3D

def base64Digit (n : Base64.Sextet) : CodeUnit :=
  BASE64_ALPHABET.get (n.cast length_BASE64_ALPHABET.symm)

def toBase64Url (bytes : Bytes) : JsString := (Base64.encode bytes).map base64Digit

/-- The six bits of a character of the URL-safe alphabet, or of the two it replaces. -/
def base64Value (u : CodeUnit) : Option Base64.Sextet :=
  let unit := if u = 0x2B then 0x2D else if u = 0x2F then 0x5F else u
  if BASE64_ALPHABET.contains unit then some (Fin.ofNat 64 (BASE64_ALPHABET.idxOf unit)) else none

/-- A whole number of fours loses the one or two `=` it ends with. -/
def trimPadding (text : JsString) : JsString :=
  if text.length % 4 = 0 then
    match text.reverse with
    | last :: before :: rest =>
      if last = PAD ∧ before = PAD then rest.reverse
      else if last = PAD then (before :: rest).reverse
      else text
    | _ => text
  else text

def isWhitespace (u : CodeUnit) : Bool :=
  ([0x09, 0x0A, 0x0C, 0x0D, 0x20] : List CodeUnit).contains u

/-- `atob(text)`, where `none` is thrown. -/
def atob (text : JsString) : Option Bytes :=
  ((trimPadding (text.filter fun u => !isWhitespace u)).mapM base64Value).bind Base64.decode

def fromBase64Url (value : JsString) : Option Bytes :=
  atob (value ++ List.replicate ((4 - value.length % 4) % 4) PAD)

/-! ## Round trip -/

theorem base64Value_digit (n : Base64.Sextet) : base64Value (base64Digit n) = some n := by
  revert n
  decide +kernel

theorem base64Digit_plain (n : Base64.Sextet) :
    base64Digit n ≠ PAD ∧ isWhitespace (base64Digit n) = false := by
  revert n
  decide +kernel

theorem mapM_base64Value (groups : List Base64.Sextet) :
    (groups.map base64Digit).mapM base64Value = some groups := by
  induction groups with
  | nil => rfl
  | cons n rest ih => simp [base64Value_digit, ih]

theorem trimPadding_pad {text : JsString} (hplain : ∀ u ∈ text, u ≠ PAD)
    (hmod : text.length % 4 ≠ 1) :
    trimPadding (text ++ List.replicate ((4 - text.length % 4) % 4) PAD) = text := by
  have hpads : (4 - text.length % 4) % 4 = 0 ∨ (4 - text.length % 4) % 4 = 1 ∨
      (4 - text.length % 4) % 4 = 2 := by omega
  have hlength : (text ++ List.replicate ((4 - text.length % 4) % 4) PAD).length % 4 = 0 := by
    rw [List.length_append, List.length_replicate]
    omega
  unfold trimPadding
  rw [if_pos hlength]
  rcases hpads with hnone | hone | htwo
  · rw [hnone, List.replicate_zero, List.append_nil]
    cases hreverse : text.reverse with
    | nil => rfl
    | cons last rest =>
      have hlast : last ≠ PAD := hplain last (List.mem_reverse.mp (hreverse ▸ List.mem_cons_self))
      cases rest with
      | nil => rfl
      | cons before rest => simp [hlast]
  · rw [hone]
    cases hreverse : text.reverse with
    | nil =>
      rw [List.reverse_eq_nil_iff.mp hreverse] at hone
      cases hone
    | cons before rest =>
      have hbefore : before ≠ PAD :=
        hplain before (List.mem_reverse.mp (hreverse ▸ List.mem_cons_self))
      have htext : text = (before :: rest).reverse := by rw [← hreverse, List.reverse_reverse]
      simp only [List.replicate_one, List.reverse_append, List.reverse_singleton,
        List.singleton_append, hreverse]
      rw [if_neg (fun h => hbefore h.2), if_pos trivial, htext]
  · rw [htwo]
    simp [List.replicate_succ]

/-- Encoded bytes are in the URL-safe alphabet. -/
theorem mem_toBase64Url {bytes : Bytes} {u : CodeUnit} (h : u ∈ toBase64Url bytes) :
    ∃ n, u = base64Digit n := by
  obtain ⟨n, -, rfl⟩ := List.mem_map.mp h
  exact ⟨n, rfl⟩

theorem length_digits (groups : List Base64.Sextet) :
    (groups.map base64Digit).length = groups.length := List.length_map _

/-- Neither the digits nor the padding are white space. -/
theorem filter_digits (groups : List Base64.Sextet) (pads : Nat) :
    (groups.map base64Digit ++ List.replicate pads PAD).filter (fun u => !isWhitespace u)
      = groups.map base64Digit ++ List.replicate pads PAD := by
  refine List.filter_eq_self.mpr fun u hu => ?_
  rcases List.mem_append.mp hu with htext | hpad
  · obtain ⟨n, -, rfl⟩ := List.mem_map.mp htext
    rw [(base64Digit_plain n).2]
    rfl
  · rw [List.eq_of_mem_replicate hpad]
    decide

/-- Three pads are one too many: the one that is left is no digit. -/
theorem mapM_pad (text : JsString) : (text ++ [PAD]).mapM base64Value = none := by
  rw [List.mapM_append]
  cases text.mapM base64Value <;> rfl

/-- Digits are decoded by their values, and padded as needed. -/
theorem fromBase64Url_digits (groups : List Base64.Sextet) :
    fromBase64Url (groups.map base64Digit) = Base64.decode groups := by
  have hplain : ∀ u ∈ groups.map base64Digit, u ≠ PAD := by
    intro u hu
    obtain ⟨n, -, rfl⟩ := List.mem_map.mp hu
    exact (base64Digit_plain n).1
  unfold fromBase64Url atob
  rw [filter_digits]
  by_cases hmod : (groups.map base64Digit).length % 4 = 1
  · have hnone : Base64.decode groups = none :=
      Base64.decode_eq_none_iff.mpr (by rw [← hmod, length_digits])
    have hlength : (groups.map base64Digit ++ List.replicate 3 PAD).length % 4 = 0 := by
      rw [List.length_append, List.length_replicate]
      omega
    have htrim : trimPadding (groups.map base64Digit ++ List.replicate 3 PAD)
        = groups.map base64Digit ++ [PAD] := by
      unfold trimPadding
      rw [if_pos hlength]
      simp [List.replicate_succ]
    rw [hmod, show (4 - 1) % 4 = 3 from rfl, htrim, mapM_pad, hnone]
    rfl
  · rw [trimPadding_pad hplain hmod, mapM_base64Value, Option.bind_some]

theorem fromBase64Url_toBase64Url (bytes : Bytes) :
    fromBase64Url (toBase64Url bytes) = some bytes := by
  rw [toBase64Url, fromBase64Url_digits, Base64.decode_encode]

/-- Every character of the alphabet is a digit. -/
theorem exists_digit {u : CodeUnit} (h : BASE64_ALPHABET.contains u = true) :
    ∃ n, base64Digit n = u := by
  obtain ⟨i, hi⟩ := List.mem_iff_get.mp (List.contains_iff_mem.mp h)
  exact ⟨i.cast length_BASE64_ALPHABET, hi⟩

/-- A text of the alphabet is decoded unless it is a whole number of fours and one character. -/
theorem fromBase64Url_eq_none_iff {text : JsString}
    (h : ∀ u ∈ text, BASE64_ALPHABET.contains u = true) :
    fromBase64Url text = none ↔ text.length % 4 = 1 := by
  obtain ⟨groups, rfl⟩ : ∃ groups : List Base64.Sextet, groups.map base64Digit = text := by
    induction text with
    | nil => exact ⟨[], rfl⟩
    | cons u text ih =>
      obtain ⟨n, rfl⟩ := exists_digit (h u List.mem_cons_self)
      obtain ⟨groups, rfl⟩ := ih fun v hv => h v (List.mem_cons_of_mem _ hv)
      exact ⟨n :: groups, rfl⟩
  rw [fromBase64Url_digits, Base64.decode_eq_none_iff, length_digits]

end O2Fabric
