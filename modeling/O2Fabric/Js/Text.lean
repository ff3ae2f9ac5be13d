/-
  O2Fabric.Js.Text

  ECMAScript strings as sequences of UTF-16 code units, which is what `===`,
  `<` and `join` compare and build.  Unpaired surrogates are allowed, as they
  are in the language.
-/

import Mathlib.Data.List.Lex
import Mathlib.Order.Fin.Basic

namespace O2Fabric

abbrev CodeUnit := Fin 65536

/-- A string value.  `<` is the code-unit order of the language's `<`. -/
abbrev JsString := List CodeUnit

instance lawfulText : LawfulBEq JsString := inferInstance

instance neZeroByte : @NeZero Nat Zero.ofOfNat0 256 := Nat.instNeZeroSucc

instance neZeroCodeUnit : @NeZero Nat Zero.ofOfNat0 65536 := Nat.instNeZeroSucc

def utf16 (c : Char) : List CodeUnit :=
  if c.toNat < 0x10000 then [Fin.ofNat 65536 c.toNat]
  else [Fin.ofNat 65536 (0xD800 + (c.toNat - 0x10000) / 0x400),
    Fin.ofNat 65536 (0xDC00 + (c.toNat - 0x10000) % 0x400)]

/-- The string a source literal denotes. -/
def js (literal : String) : JsString := literal.toList.flatMap utf16

/-- The code units of a character tell which it is, whatever follows them. -/
theorem utf16_append_inj {c d : Char} {xs ys : List CodeUnit}
    (h : utf16 c ++ xs = utf16 d ++ ys) : c = d ∧ xs = ys := by
  have hc : c.toNat < 0xD800 ∨ 0xDFFF < c.toNat ∧ c.toNat < 0x110000 := c.valid
  have hd : d.toNat < 0xD800 ∨ 0xDFFF < d.toNat ∧ d.toNat < 0x110000 := d.valid
  have hval : ∀ m n : Nat, Fin.ofNat 65536 m = Fin.ofNat 65536 n → m % 65536 = n % 65536 :=
    fun m n heq => congrArg Fin.val heq
  -- One unit or two: a character of one unit is no surrogate, the first of two is one.
  by_cases hsmall : c.toNat < 0x10000 <;> by_cases hsmall' : d.toNat < 0x10000 <;>
    simp only [utf16, hsmall, hsmall', if_true, if_false, List.cons_append, List.nil_append,
      List.cons.injEq] at h
  · have hunit := hval _ _ h.1
    exact ⟨Char.toNat_inj.mp (by omega), h.2⟩
  · have hunit := hval _ _ h.1
    omega
  · have hunit := hval _ _ h.1
    omega
  · have hhigh := hval _ _ h.1
    have hlow := hval _ _ h.2.1
    exact ⟨Char.toNat_inj.mp (by omega), h.2.2⟩

theorem flatMap_utf16_inj {xs ys : List Char} (h : xs.flatMap utf16 = ys.flatMap utf16) :
    xs = ys := by
  have hne : ∀ c : Char, utf16 c ≠ [] := by
    intro c
    unfold utf16
    split <;> simp
  induction xs generalizing ys with
  | nil =>
    cases ys with
    | nil => rfl
    | cons d ys => simp [hne] at h
  | cons c xs ih =>
    cases ys with
    | nil => simp [hne] at h
    | cons d ys =>
      rw [List.flatMap_cons, List.flatMap_cons] at h
      obtain ⟨rfl, hrest⟩ := utf16_append_inj h
      rw [ih hrest]

/-- Two literals denote one string only where they are one. -/
@[simp] theorem js_inj {a b : String} : js a = js b ↔ a = b := by
  constructor
  · intro h
    exact String.toList_inj.mp (flatMap_utf16_inj h)
  · rintro rfl
    rfl

/-- `'\u0000'`. -/
def NUL : CodeUnit := 0

/-- `'|'`. -/
def PIPE : CodeUnit := 0x7C

/-- `','`. -/
def COMMA : CodeUnit := 0x2C

/-- `parts.join(separator)` for a separator of one code unit. -/
def join (separator : CodeUnit) (parts : List JsString) : JsString :=
  [separator].intercalate parts

variable {separator u : CodeUnit}

theorem mem_join_of_mem {parts : List JsString} {part : JsString} (hp : part ∈ parts)
    (hu : u ∈ part) : u ∈ join separator parts := by
  induction parts with
  | nil => cases hp
  | cons p rest ih =>
    rcases eq_or_ne rest [] with rfl | hrest
    · simp only [List.mem_singleton] at hp
      simpa [join, ← hp] using hu
    · simp only [join, List.intercalate_cons_of_ne_nil hrest, List.mem_append] at ih ⊢
      rcases List.mem_cons.mp hp with rfl | hp
      · exact Or.inl (Or.inl hu)
      · exact Or.inr (ih hp)

theorem mem_of_mem_join {parts : List JsString} (h : u ∈ join separator parts) :
    u = separator ∨ ∃ part ∈ parts, u ∈ part := by
  induction parts with
  | nil => cases h
  | cons p rest ih =>
    rcases eq_or_ne rest [] with rfl | hrest
    · exact Or.inr ⟨p, by simp, by simpa [join] using h⟩
    · simp only [join, List.intercalate_cons_of_ne_nil hrest, List.mem_append,
        List.mem_singleton] at h
      rcases h with (h | rfl) | h
      · exact Or.inr ⟨p, by simp, h⟩
      · exact Or.inl rfl
      · obtain rfl | ⟨part, hpart, hu⟩ := ih h
        · exact Or.inl rfl
        · exact Or.inr ⟨part, by simp [hpart], hu⟩

/-- Parts that do not contain the separator can be read back from their join. -/
theorem join_inj {xs ys : List JsString} (hx : xs ≠ []) (hy : ys ≠ [])
    (hxs : ∀ x ∈ xs, separator ∉ x) (hys : ∀ y ∈ ys, separator ∉ y)
    (h : join separator xs = join separator ys) : xs = ys := by
  have hread := congrArg (List.splitOn separator) h
  rwa [join, join, List.splitOn_intercalate separator hxs hx,
    List.splitOn_intercalate separator hys hy] at hread

/-- The last separator of a text parts it, whatever stands before. -/
theorem append_separator_inj {xs ys a b : JsString} (ha : separator ∉ a) (hb : separator ∉ b)
    (h : xs ++ separator :: a = ys ++ separator :: b) : xs = ys ∧ a = b := by
  rcases List.append_eq_append_iff.mp h with ⟨c, rfl, hc⟩ | ⟨c, rfl, hc⟩
  · cases c with
    | nil => exact ⟨(List.append_nil xs).symm, (List.cons.inj hc).2⟩
    | cons u c =>
      have hmem : separator ∈ a := by
        rw [(List.cons.inj hc).2]
        exact List.mem_append_right c List.mem_cons_self
      exact absurd hmem ha
  · cases c with
    | nil => exact ⟨List.append_nil ys, (List.cons.inj hc).2.symm⟩
    | cons u c =>
      have hmem : separator ∈ b := by
        rw [(List.cons.inj hc).2]
        exact List.mem_append_right c List.mem_cons_self
      exact absurd hmem hb

/-! ## Hexadecimal -/

/-- The sixteen digits `toHex` writes. -/
def HEX : List CodeUnit := js "0123456789abcdef"

/-- Two digits a byte, high half first. -/
def toHex (bytes : List (Fin 256)) : JsString :=
  bytes.flatMap fun byte =>
    [HEX.getD (byte.val / 16) NUL, HEX.getD (byte.val % 16) NUL]

theorem mem_HEX_of_mem_toHex {bytes : List (Fin 256)} (h : u ∈ toHex bytes) :
    u ∈ HEX := by
  have hget : ∀ i : Fin 16, HEX.getD i.val NUL ∈ HEX := by decide
  rw [toHex, List.mem_flatMap] at h
  obtain ⟨byte, -, h⟩ := h
  have hb := byte.isLt
  simp only [List.mem_cons, List.not_mem_nil, or_false] at h
  rcases h with rfl | rfl
  · exact hget ⟨byte.val / 16, by omega⟩
  · exact hget ⟨byte.val % 16, by omega⟩

theorem NUL_notMem_toHex (bytes : List (Fin 256)) : NUL ∉ toHex bytes := by
  have : NUL ∉ HEX := by decide
  exact fun h => this (mem_HEX_of_mem_toHex h)

theorem PIPE_notMem_toHex (bytes : List (Fin 256)) : PIPE ∉ toHex bytes := by
  have : PIPE ∉ HEX := by decide
  exact fun h => this (mem_HEX_of_mem_toHex h)

theorem toHex_injective : Function.Injective toHex := by
  intro xs
  induction xs with
  | nil =>
    intro ys h
    cases ys with
    | nil => rfl
    | cons y ys => simp [toHex] at h
  | cons x xs ih =>
    intro ys h
    cases ys with
    | nil => simp [toHex] at h
    | cons y ys =>
      simp only [toHex, List.flatMap_cons, List.cons_append, List.nil_append,
        List.cons.injEq] at h
      obtain ⟨hhigh, hlow, hrest⟩ := h
      have hdigit : ∀ i j : Fin 16, HEX.getD i.val NUL = HEX.getD j.val NUL → i = j := by
        decide
      have hx := x.isLt
      have hy := y.isLt
      have h1 : x.val / 16 = y.val / 16 := 
        congrArg Fin.val (hdigit ⟨x.val / 16, by omega⟩ ⟨y.val / 16, by omega⟩ hhigh)
      have h2 : x.val % 16 = y.val % 16 := 
        congrArg Fin.val (hdigit ⟨x.val % 16, by omega⟩ ⟨y.val % 16, by omega⟩ hlow)
      rw [ih hrest, Fin.ext (show x.val = y.val by omega)]

/-! ## Decimal -/

/-- `String(n)` for a counter or an index. -/
def decimal (n : Nat) : JsString := (Nat.toDigits 10 n).flatMap utf16

theorem decimal_injective : Function.Injective decimal := by
  intro m n h
  have hdigits := flatMap_utf16_inj h
  rw [← Nat.ofDigitChars_ten_toDigits (n := m), hdigits, Nat.ofDigitChars_ten_toDigits]

/-- Its code units are those of the ten digits. -/
theorem mem_decimal {n : Nat} (h : u ∈ decimal n) : 48 ≤ u.val ∧ u.val ≤ 57 := by
  obtain ⟨c, hc, hu⟩ := List.mem_flatMap.mp h
  have hdigit := Nat.isDigit_of_mem_toDigits (by omega) (by omega) hc
  simp only [Char.isDigit, Bool.and_eq_true, decide_eq_true_eq] at hdigit
  have hlow : 48 ≤ c.toNat := hdigit.1
  have hhigh : c.toNat ≤ 57 := hdigit.2
  rw [utf16, if_pos (by omega), List.mem_singleton] at hu
  have hval : u.val = c.toNat % 65536 := congrArg Fin.val hu
  omega

theorem NUL_notMem_decimal (n : Nat) : NUL ∉ decimal n := by
  intro h
  have hlow : 48 ≤ (0 : Nat) := (mem_decimal h).1
  omega

def MINUS : CodeUnit := 45

/-- `String(id)` for an integer.  From `2^53` on the language writes the shortest
    digits that read back and zeros after them; here all digits are the number's
    own.  Either way two numbers have two texts. -/
def integerText : ℤ → JsString
  | .ofNat n => decimal n
  | .negSucc n => MINUS :: decimal (n + 1)

theorem NUL_notMem_integerText (z : ℤ) : NUL ∉ integerText z := by
  cases z with
  | ofNat n => exact NUL_notMem_decimal n
  | negSucc n =>
    intro h
    rcases List.mem_cons.mp h with hminus | hdigits
    · exact absurd hminus (by decide)
    · exact NUL_notMem_decimal _ hdigits

theorem decimal_ne_minus (m : Nat) (l : JsString) : decimal m ≠ MINUS :: l := by
  intro h
  have hmem : MINUS ∈ decimal m := h ▸ List.mem_cons_self
  have hlow : 48 ≤ (45 : Nat) := (mem_decimal hmem).1
  omega

theorem integerText_injective : Function.Injective integerText := by
  intro a b h
  cases a with
  | ofNat m =>
    cases b with
    | ofNat n => exact congrArg Int.ofNat (decimal_injective h)
    | negSucc n => exact absurd h (decimal_ne_minus _ _)
  | negSucc m =>
    cases b with
    | ofNat n => exact absurd h.symm (decimal_ne_minus _ _)
    | negSucc n =>
      have hdecimal := decimal_injective (List.cons.inj h).2
      exact congrArg Int.negSucc (Nat.succ.inj hdecimal)

end O2Fabric
