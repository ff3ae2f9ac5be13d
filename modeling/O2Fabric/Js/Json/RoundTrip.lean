/-
  O2Fabric.Js.Json.RoundTrip

  What was written is read back.
-/

import O2Fabric.Js.Json
import O2Fabric.Js.Utf8

namespace O2Fabric.Json

/-! ## Numbers -/

/-- What may follow a number that is written with digits alone. -/
def EndsDigits (rest : JsString) : Prop :=
  ∀ u, rest.head? = some u → u.val ≤ 47 ∧ u.val ≠ 46 ∨ 58 ≤ u.val ∧ u.val ≠ 69 ∧ u.val ≠ 101

variable {u : CodeUnit}

theorem isDigit_of_mem_decimal {n : Nat} (h : u ∈ decimal n) : isDigit u = true :=
  decide_eq_true (mem_decimal h)

variable {rest : JsString}

theorem isDigit_of_endsDigits (h : EndsDigits rest) (hu : rest.head? = some u) :
    isDigit u = false := by
  have hends := h u hu
  apply decide_eq_false
  omega

/-- The span of digits is the digits that were written. -/
theorem span_digits {digits : JsString} (hdigits : ∀ u ∈ digits, isDigit u = true)
    (hends : EndsDigits rest) :
    (digits ++ rest).takeWhile isDigit = digits ∧ (digits ++ rest).dropWhile isDigit = rest := by
  induction digits with
  | nil =>
    cases rest with
    | nil => exact ⟨rfl, rfl⟩
    | cons u rest =>
      have hu := isDigit_of_endsDigits hends (u := u) rfl
      rw [List.nil_append, List.takeWhile_cons_of_neg (by simp [hu]),
        List.dropWhile_cons_of_neg (by simp [hu])]
      exact ⟨rfl, rfl⟩
  | cons u digits ih =>
    have hu := hdigits u List.mem_cons_self
    obtain ⟨htake, hdrop⟩ := ih (fun v hv => hdigits v (List.mem_cons_of_mem u hv))
    rw [List.cons_append, List.takeWhile_cons_of_pos hu, List.dropWhile_cons_of_pos hu, htake,
      hdrop]
    exact ⟨rfl, rfl⟩

theorem decimal_ne_nil (n : Nat) : decimal n ≠ [] := by
  intro h
  have hdigits : Nat.toDigits 10 n = [] := flatMap_utf16_inj h
  exact Nat.toDigits_ne_nil hdigits

theorem parseDigits_decimal (n : Nat) (hends : EndsDigits rest) :
    parseDigits (decimal n ++ rest) = some (decimal n, rest) := by
  obtain ⟨htake, hdrop⟩ := span_digits (fun u hu => isDigit_of_mem_decimal (n := n) hu) hends
  rw [parseDigits, htake, hdrop, if_neg (decimal_ne_nil n)]

/-- A digit character is one code unit. -/
theorem utf16_digit {c : Char} (h : c.isDigit = true) :
    utf16 c = [Fin.ofNat 65536 c.toNat] ∧ (Fin.ofNat 65536 c.toNat).val = c.toNat := by
  simp only [Char.isDigit, Bool.and_eq_true, decide_eq_true_eq] at h
  have hhigh : c.toNat ≤ 57 := h.2
  refine ⟨if_pos (by omega), ?_⟩
  show c.toNat % 65536 = c.toNat
  omega

theorem digitsValue_flatMap (digits : List Char) (hdigits : ∀ c ∈ digits, c.isDigit = true)
    (start : Nat) :
    (digits.flatMap utf16).foldl (fun n u => 10 * n + (u.val - 48)) start
      = Nat.ofDigitChars 10 digits start := by
  induction digits generalizing start with
  | nil => rw [Nat.ofDigitChars_nil]; rfl
  | cons c digits ih =>
    obtain ⟨hunits, hval⟩ := utf16_digit (hdigits c List.mem_cons_self)
    rw [List.flatMap_cons, hunits, List.singleton_append, List.foldl_cons, hval,
      ih (fun d hd => hdigits d (List.mem_cons_of_mem c hd)), Nat.ofDigitChars_cons]
    rfl

theorem digitsValue_decimal (n : Nat) : digitsValue (decimal n) = n := by
  have hdigits : ∀ c ∈ Nat.toDigits 10 n, c.isDigit = true := fun c hc =>
    Nat.isDigit_of_mem_toDigits (by omega) (by omega) hc
  rw [digitsValue, decimal, digitsValue_flatMap _ hdigits, Nat.ofDigitChars_ten_toDigits]

/-- A number of two digits or more does not start with a zero. -/
theorem head_toDigits (n : Nat) (h : 10 ≤ n) : (Nat.toDigits 10 n).head? ≠ some '0' := by
  induction n using Nat.strong_induction_on with
  | _ n ih =>
    rw [Nat.toDigits_of_base_le (by omega) h]
    by_cases hsmall : n / 10 < 10
    · rw [Nat.toDigits_of_lt_base hsmall, List.singleton_append, List.head?_cons]
      intro hzero
      have hpos : 0 < n / 10 := by omega
      have hdigit : Nat.digitChar (n / 10) = '0' := Option.some.inj hzero
      have hval := Nat.toNat_digitChar_sub_48_of_lt_ten hsmall
      rw [hdigit] at hval
      have : (48 : Nat) - 48 = n / 10 := hval
      omega
    · have hrest := ih (n / 10) (by omega) (by omega)
      rw [List.head?_append]
      cases hhead : (Nat.toDigits 10 (n / 10)).head? with
      | none =>
        rw [List.head?_eq_none_iff] at hhead
        exact absurd hhead Nat.toDigits_ne_nil
      | some c =>
        rw [hhead] at hrest
        exact hrest

/-- No number is written with a zero before another digit. -/
theorem decimal_no_leading_zero (n : Nat) :
    ¬ ((decimal n).head? = some 48 ∧ (decimal n).length ≠ 1) := by
  rintro ⟨hhead, hlength⟩
  have hdigits : ∀ c ∈ Nat.toDigits 10 n, c.isDigit = true := fun c hc =>
    Nat.isDigit_of_mem_toDigits (by omega) (by omega) hc
  by_cases hsmall : n < 10
  · have hone : decimal n = utf16 (Nat.digitChar n) := by
      rw [decimal, Nat.toDigits_of_lt_base hsmall, List.flatMap_singleton]
    have hmem : Nat.digitChar n ∈ Nat.toDigits 10 n := by
      rw [Nat.toDigits_of_lt_base hsmall]
      exact List.mem_singleton_self _
    rw [hone, (utf16_digit (hdigits _ hmem)).1] at hlength
    exact hlength rfl
  · have hfirst := head_toDigits n (by omega)
    unfold decimal at hhead
    cases hlist : Nat.toDigits 10 n with
    | nil => exact Nat.toDigits_ne_nil hlist
    | cons c cs =>
      rw [hlist] at hfirst hhead
      have hc := utf16_digit (hdigits c (by rw [hlist]; exact List.mem_cons_self))
      rw [List.flatMap_cons, hc.1, List.singleton_append, List.head?_cons] at hhead
      apply hfirst
      rw [List.head?_cons, Option.some.injEq]
      have hval := congrArg Fin.val (Option.some.inj hhead)
      rw [hc.2] at hval
      have hnat : c.toNat = 48 := hval
      exact Char.toNat_inj.mp (by rw [hnat]; rfl)

theorem parseWhole_decimal (n : Nat) (hends : EndsDigits rest) :
    parseWhole (decimal n ++ rest) = some (n, rest) := by
  rw [parseWhole, parseDigits_decimal n hends]
  show (if (decimal n).head? = some 48 ∧ (decimal n).length ≠ 1 then none
    else some (digitsValue (decimal n), rest)) = some (n, rest)
  rw [if_neg (decimal_no_leading_zero n), digitsValue_decimal]

theorem parseFraction_ends (hends : EndsDigits rest) :
    parseFraction rest = some (0, rest) := by
  cases rest with
  | nil => rfl
  | cons u rest =>
    have hu := hends u rfl
    unfold parseFraction
    split
    · next heq =>
      cases heq
      omega
    · rfl

theorem parseExponent_ends (hends : EndsDigits rest) :
    parseExponent rest = some (1, rest) := by
  cases rest with
  | nil => rfl
  | cons u rest =>
    have hu := hends u rfl
    unfold parseExponent
    exact if_neg (by omega)

theorem parseUnsigned_decimal (n : Nat) (hends : EndsDigits rest) :
    parseUnsigned (decimal n ++ rest) = some ((n : ℚ), rest) := by
  simp only [parseUnsigned, parseWhole_decimal n hends, parseFraction_ends hends,
    parseExponent_ends hends, Option.bind_eq_bind, Option.bind_some, add_zero, mul_one]

/-- The first unit of a number is a digit or a minus sign. -/
theorem head_decimal (n : Nat) : ∃ u units, decimal n = u :: units ∧ isDigit u = true := by
  cases hunits : decimal n with
  | nil => exact absurd hunits (decimal_ne_nil n)
  | cons u units =>
    refine ⟨u, units, rfl, isDigit_of_mem_decimal (n := n) ?_⟩
    rw [hunits]
    exact List.mem_cons_self

theorem parseNumber_integerText (z : ℤ) (hends : EndsDigits rest) :
    parseNumber (integerText z ++ rest) = some ((z : ℚ), rest) := by
  cases z with
  | ofNat n =>
    obtain ⟨u, units, hunits, hdigit⟩ := head_decimal n
    have hplus := parseUnsigned_decimal n hends
    have hminus : u ≠ MINUS := by
      rintro rfl
      exact absurd hdigit (by decide)
    show parseNumber (decimal n ++ rest) = _
    rw [hunits, List.cons_append] at hplus ⊢
    rw [parseNumber, if_neg hminus, hplus]
    rfl
  | negSucc n =>
    show parseNumber (MINUS :: (decimal (n + 1) ++ rest)) = _
    rw [parseNumber, if_pos rfl, parseUnsigned_decimal (n + 1) hends, Option.map_some]
    rw [Int.cast_negSucc]

/-! ## Strings -/

theorem hexValue_HEX (i : Fin 16) : hexValue (HEX.getD i.val NUL) = some i.val := by
  revert i
  decide

theorem unitOfHex_hex4 (u : CodeUnit) :
    unitOfHex (HEX.getD (u.val / 4096) NUL) (HEX.getD (u.val / 256 % 16) NUL)
      (HEX.getD (u.val / 16 % 16) NUL) (HEX.getD (u.val % 16) NUL) = some u := by
  have hu := u.isLt
  have hdigit : ∀ i, i < 16 → hexValue (HEX.getD i NUL) = some i := fun i hi =>
    hexValue_HEX ⟨i, hi⟩
  rw [unitOfHex, hdigit (u.val / 4096) (by omega), hdigit (u.val / 256 % 16) (by omega),
    hdigit (u.val / 16 % 16) (by omega), hdigit (u.val % 16) (by omega)]
  show some (Fin.ofNat 65536 (4096 * (u.val / 4096) + 256 * (u.val / 256 % 16)
    + 16 * (u.val / 16 % 16) + u.val % 16)) = some u
  refine congrArg some (Fin.ext ?_)
  rw [Fin.val_ofNat]
  omega

def consUnit (u : CodeUnit) (read : JsString × JsString) : JsString × JsString :=
  (u :: read.1, read.2)

theorem parseBody_unicodeEscape (u : CodeUnit) (text : JsString) :
    parseBody (unicodeEscape u ++ text) = (parseBody text).map (consUnit u) := by
  show parseBody (BACKSLASH :: 0x75 :: HEX.getD (u.val / 4096) NUL
    :: HEX.getD (u.val / 256 % 16) NUL :: HEX.getD (u.val / 16 % 16) NUL
    :: HEX.getD (u.val % 16) NUL :: text) = _
  rw [parseBody.eq_def]
  simp only [if_neg (show ¬ BACKSLASH = QUOTE by decide), if_true, unitOfHex_hex4,
    show ((0x75 : CodeUnit)).val = 0x75 from rfl, Option.bind_eq_bind, Option.bind_some]
  cases parseBody text <;> rfl

/-- A unit that stands for itself. -/
theorem parseBody_plain (hquote : u ≠ QUOTE) (hbackslash : u ≠ BACKSLASH) (hprint : ¬ u.val < 0x20)
    (text : JsString) :
    parseBody (u :: text) = (parseBody text).map (consUnit u) := by
  rw [parseBody.eq_def]
  simp only [if_neg hquote, if_neg hbackslash, if_neg hprint]
  cases parseBody text <;> rfl

theorem parseBody_shortEscape {letter : CodeUnit} (h : shortEscape u = some letter)
    (text : JsString) :
    parseBody (BACKSLASH :: letter :: text) = (parseBody text).map (consUnit u) := by
  have hback : letter.val ≠ 0x75 ∧ unescape letter = some u := by
    have hval : ∀ n : Nat, u.val = n → ∀ v : CodeUnit, v.val = n → u = v := by
      intro n hn v hv
      exact Fin.ext (hn.trans hv.symm)
    unfold shortEscape at h
    split at h
    · next hu => cases h; exact ⟨by decide, by rw [hval _ hu 0x08 rfl]; rfl⟩
    · next hu => cases h; exact ⟨by decide, by rw [hval _ hu 0x09 rfl]; rfl⟩
    · next hu => cases h; exact ⟨by decide, by rw [hval _ hu 0x0A rfl]; rfl⟩
    · next hu => cases h; exact ⟨by decide, by rw [hval _ hu 0x0C rfl]; rfl⟩
    · next hu => cases h; exact ⟨by decide, by rw [hval _ hu 0x0D rfl]; rfl⟩
    · next hu => cases h; exact ⟨by decide, by rw [hval _ hu 0x22 rfl]; rfl⟩
    · next hu => cases h; exact ⟨by decide, by rw [hval _ hu 0x5C rfl]; rfl⟩
    · cases h
  rw [parseBody.eq_def]
  simp only [if_neg (show ¬ BACKSLASH = QUOTE by decide), if_true, if_neg hback.1, hback.2,
    Option.bind_eq_bind, Option.bind_some]
  cases parseBody text <;> rfl

/-- A unit without a short escape is neither a quote nor a backslash. -/
theorem ne_of_shortEscape_none (h : shortEscape u = none) :
    u ≠ QUOTE ∧ u ≠ BACKSLASH := by
  refine ⟨?_, ?_⟩
  · rintro rfl
    cases h
  · rintro rfl
    cases h

theorem parseBody_quoteUnit (u : CodeUnit) (text : JsString) :
    parseBody (quoteUnit u ++ text) = (parseBody text).map (consUnit u) := by
  unfold quoteUnit
  cases hshort : shortEscape u with
  | some letter => exact parseBody_shortEscape hshort text
  | none =>
    by_cases hcontrol : u.val < 0x20 ∨ isHigh u ∨ isLow u
    · rw [if_pos hcontrol]
      exact parseBody_unicodeEscape u text
    · rw [if_neg hcontrol]
      obtain ⟨hquote, hbackslash⟩ := ne_of_shortEscape_none hshort
      exact parseBody_plain hquote hbackslash (fun hlow => hcontrol (Or.inl hlow)) text

/-- Half of a pair of surrogates stands for itself where it is written so. -/
theorem parseBody_surrogate (h : isHigh u = true ∨ isLow u = true) (text : JsString) :
    parseBody (u :: text) = (parseBody text).map (consUnit u) := by
  have hval : 0xD800 ≤ u.val := by
    rcases h with h | h
    · exact (of_decide_eq_true h).1
    · have hlow := (of_decide_eq_true h).1
      omega
  have hquote : u ≠ QUOTE := by
    rintro rfl
    exact absurd hval (by decide)
  have hbackslash : u ≠ BACKSLASH := by
    rintro rfl
    exact absurd hval (by decide)
  exact parseBody_plain hquote hbackslash (by omega) text

theorem parseBody_quote (rest : JsString) : parseBody (QUOTE :: rest) = some ([], rest) := by
  rw [parseBody.eq_def]
  exact if_pos rfl

theorem parseBody_quoteBody (text rest : JsString) :
    parseBody (quoteBody text ++ QUOTE :: rest) = some (text, rest) := by
  induction text using quoteBody.induct with
  | case1 => exact parseBody_quote rest
  | case2 u =>
    rw [quoteBody, parseBody_quoteUnit, parseBody_quote]
    rfl
  | case3 u v text hpair ih =>
    rw [quoteBody, if_pos hpair, List.cons_append, List.cons_append]
    rw [Bool.and_eq_true] at hpair
    rw [parseBody_surrogate (Or.inl hpair.1), parseBody_surrogate (Or.inr hpair.2), ih]
    rfl
  | case4 u v text hpair ih =>
    rw [quoteBody, if_neg hpair, List.append_assoc, parseBody_quoteUnit, ih]
    rfl

/-! ## Values -/

/-- A value whose numbers are whole and whose objects name no key twice. -/
inductive Plain : Json → Prop
  | null : Plain .null
  | bool (b : Bool) : Plain (.bool b)
  | number (z : ℤ) : Plain (.number z)
  | string (text : JsString) : Plain (.string text)
  | list {items : List Json} (each : ∀ item ∈ items, Plain item) : Plain (.list items)
  | record {fields : List (JsString × Json)} (nodup : (fields.map Prod.fst).Nodup)
      (each : ∀ field ∈ fields, Plain field.2) : Plain (.record fields)

section

variable {fraction : ℚ → JsString}

theorem numberText_intCast (z : ℤ) : numberText fraction (z : ℚ) = integerText z := by
  rw [numberText, if_pos (Rat.den_intCast z), Rat.num_intCast]

/-- Where a value that is not blank starts. -/
def Starts (text : JsString) : Prop :=
  ∃ u rest, text = u :: rest ∧ isBlank u = false ∧ u.val ≠ 0x5D ∧ u.val ≠ 0x7D

theorem starts_integerText (z : ℤ) : Starts (integerText z) := by
  cases z with
  | ofNat n =>
    obtain ⟨u, units, hunits, hdigit⟩ := head_decimal n
    have hrange := of_decide_eq_true hdigit
    refine ⟨u, units, hunits, decide_eq_false ?_, ?_, ?_⟩ <;> omega
  | negSucc n => exact ⟨MINUS, decimal (n + 1), rfl, by decide, by decide, by decide⟩

variable {value : Json}

theorem starts_stringify (h : Plain value) : Starts (stringify fraction value) := by
  cases h with
  | null => exact ⟨_, _, rfl, by decide, by decide, by decide⟩
  | bool b => cases b <;> exact ⟨_, _, rfl, by decide, by decide, by decide⟩
  | number z =>
    rw [stringify, numberText_intCast]
    exact starts_integerText z
  | string text => exact ⟨_, _, rfl, by decide, by decide, by decide⟩
  | list each => exact ⟨_, _, rfl, by decide, by decide, by decide⟩
  | record nodup each => exact ⟨_, _, rfl, by decide, by decide, by decide⟩

variable {u : CodeUnit}

theorem skipBlank_cons (hu : isBlank u = false) (rest : JsString) :
    skipBlank (u :: rest) = u :: rest := by
  rw [skipBlank, List.dropWhile_cons_of_neg (by simp [hu])]

theorem skipBlank_starts {text : JsString} (h : Starts text) (rest : JsString) :
    skipBlank (text ++ rest) = text ++ rest := by
  obtain ⟨u, tail, rfl, hu, -⟩ := h
  exact skipBlank_cons hu (tail ++ rest)

theorem expect_self (token rest : JsString) : expect token (token ++ rest) = some rest := by
  have hprefix : token.isPrefixOf (token ++ rest) = true :=
    List.isPrefixOf_iff_prefix.mpr ⟨rest, rfl⟩
  rw [expect, if_pos hprefix, List.drop_left]

theorem expect_one {v : CodeUnit} (h : u ≠ v) (rest : JsString) :
    expect [v] (u :: rest) = none := by
  have hnot : ¬ List.isPrefixOf [v] (u :: rest) = true := by
    intro hprefix
    obtain ⟨tail, htail⟩ := List.isPrefixOf_iff_prefix.mp hprefix
    exact h (List.cons.inj htail).1.symm
  rw [expect, if_neg hnot]

theorem join_cons {part : JsString} {parts : List JsString} (h : parts ≠ []) :
    join COMMA (part :: parts) = part ++ COMMA :: join COMMA parts := by
  rw [join, List.intercalate_cons_of_ne_nil h, List.append_assoc, List.singleton_append]
  rfl

theorem endsDigits_cons (hu : u.val ≤ 47 ∧ u.val ≠ 46 ∨ 58 ≤ u.val ∧ u.val ≠ 69 ∧ u.val ≠ 101)
    (rest : JsString) :
    EndsDigits (u :: rest) := by
  intro v hv
  cases hv
  exact hu

/-- A value is read back from its text, whatever follows. -/
def ReadBack (fraction : ℚ → JsString) (value : Json) : Prop :=
  ∀ (fuel : Nat) (rest : JsString), (stringify fraction value).length ≤ fuel → EndsDigits rest →
    parseValue fuel (stringify fraction value ++ rest) = some (value, rest)

variable {fuel : Nat} {rest : JsString}

theorem parseItems_join {items : List Json} (hne : items ≠ []) (hplain : ∀ item ∈ items, Plain item)
    (hread : ∀ item ∈ items, ReadBack fraction item)
    (hfuel : (join COMMA (stringifyItems fraction items)).length + 1 ≤ fuel) :
    parseItems fuel (join COMMA (stringifyItems fraction items) ++ 0x5D :: rest)
      = some (items, rest) := by
  induction items generalizing fuel with
  | nil => exact absurd rfl hne
  | cons item items ih =>
    obtain ⟨fuel, rfl⟩ : ∃ n, fuel = n + 1 := ⟨fuel - 1, by omega⟩
    have hitem := hread item List.mem_cons_self
    cases items with
    | nil =>
      have hone : join COMMA (stringifyItems fraction [item]) = stringify fraction item := by
        simp [stringifyItems, join]
      rw [hone] at hfuel ⊢
      rw [parseItems, hitem fuel _ (by omega) (endsDigits_cons (by decide) rest)]
      have hskip : skipBlank (0x5D :: rest) = 0x5D :: rest := skipBlank_cons (by decide) rest
      simp only [Option.bind_eq_bind, Option.bind_some, hskip]
      rfl
    | cons next items =>
      have hjoin : join COMMA (stringifyItems fraction (item :: next :: items))
          = stringify fraction item ++ COMMA
            :: join COMMA (stringifyItems fraction (next :: items)) :=
        join_cons (by simp [stringifyItems])
      rw [hjoin, List.length_append, List.length_cons] at hfuel
      rw [hjoin, List.append_assoc, List.cons_append]
      rw [parseItems, hitem fuel _ (by omega) (endsDigits_cons (by decide) _)]
      have hfirst : Starts (stringify fraction item) :=
        starts_stringify (hplain item List.mem_cons_self)
      have hless : (join COMMA (stringifyItems fraction (next :: items))).length + 1
          ≤ fuel := by
        obtain ⟨u, tail, htext, -⟩ := hfirst
        rw [htext, List.length_cons] at hfuel
        omega
      have hrest := ih (by simp) (fun i hi => hplain i (List.mem_cons_of_mem item hi))
        (fun i hi => hread i (List.mem_cons_of_mem item hi)) hless
      have hskip : skipBlank (COMMA :: (join COMMA (stringifyItems fraction (next :: items))
          ++ 0x5D :: rest)) = COMMA :: (join COMMA (stringifyItems fraction (next :: items))
          ++ 0x5D :: rest) := skipBlank_cons (by decide) _
      simp only [Option.bind_eq_bind, Option.bind_some, hskip, if_true, hrest]
      rfl

/-- A key is read back, with what follows its colon. -/
theorem parse_key (key tail : JsString) :
    expect [QUOTE] (skipBlank (quote key ++ tail)) = some (quoteBody key ++ QUOTE :: tail) := by
  show expect [QUOTE] (skipBlank (QUOTE :: (quoteBody key ++ [QUOTE] ++ tail))) = _
  rw [skipBlank_cons (by decide), List.append_assoc]
  exact expect_self [QUOTE] _

theorem parseFields_field {key : JsString} (hread : ReadBack fraction value)
    (hfuel : (stringify fraction value).length ≤ fuel) (hu : u = COMMA ∨ u.val = 0x7D) :
    parseFields (fuel + 1) ((quote key ++ 0x3A :: stringify fraction value) ++ u :: rest)
      = if u = COMMA then (parseFields fuel rest).map fun (fields, rest) =>
          ((key, value) :: fields, rest)
        else some ([(key, value)], rest) := by
  have hends : EndsDigits (u :: rest) := by
    apply endsDigits_cons
    rcases hu with rfl | hu
    · decide
    · omega
  have hblank : isBlank u = false := by
    apply decide_eq_false
    rcases hu with rfl | hu
    · decide
    · omega
  have hcolon : expect [0x3A] (skipBlank (0x3A :: (stringify fraction value ++ u :: rest)))
      = some (stringify fraction value ++ u :: rest) := by
    rw [skipBlank_cons (by decide)]
    exact expect_self [0x3A] _
  rw [List.append_assoc, List.cons_append, parseFields, parse_key]
  simp only [Option.bind_eq_bind, Option.bind_some, parseBody_quoteBody, hcolon,
    hread fuel _ hfuel hends,
    skipBlank_cons hblank]
  by_cases hcomma : u = COMMA
  · rw [if_pos hcomma, if_pos hcomma]
  · rw [if_neg hcomma, if_neg hcomma, if_pos (hu.resolve_left hcomma)]

theorem parseFields_join {fields : List (JsString × Json)} (hne : fields ≠ [])
    (hread : ∀ field ∈ fields, ReadBack fraction field.2)
    (hfuel : (join COMMA (stringifyFields fraction fields)).length + 1 ≤ fuel) :
    parseFields fuel (join COMMA (stringifyFields fraction fields) ++ 0x7D :: rest)
      = some (fields, rest) := by
  induction fields generalizing fuel with
  | nil => exact absurd rfl hne
  | cons field fields ih =>
    obtain ⟨key, value⟩ := field
    obtain ⟨fuel, rfl⟩ : ∃ n, fuel = n + 1 := ⟨fuel - 1, by omega⟩
    have hvalue : ReadBack fraction value := hread (key, value) List.mem_cons_self
    cases fields with
    | nil =>
      have hone : join COMMA (stringifyFields fraction [(key, value)])
          = quote key ++ 0x3A :: stringify fraction value := by
        simp [stringifyFields, join]
      rw [hone] at hfuel ⊢
      rw [List.length_append, List.length_cons] at hfuel
      rw [parseFields_field hvalue (by omega) (Or.inr rfl), if_neg (by decide)]
    | cons next fields =>
      have hjoin : join COMMA (stringifyFields fraction ((key, value) :: next :: fields))
          = (quote key ++ 0x3A :: stringify fraction value) ++ COMMA
            :: join COMMA (stringifyFields fraction (next :: fields)) :=
        join_cons (by simp [stringifyFields])
      rw [hjoin, List.length_append, List.length_append, List.length_cons,
        List.length_cons] at hfuel
      have hless : (join COMMA (stringifyFields fraction (next :: fields))).length + 1
          ≤ fuel := by omega
      have hrest := ih (by simp)
        (fun f hf => hread f (List.mem_cons_of_mem (key, value) hf)) hless
      rw [hjoin, List.append_assoc, List.cons_append,
        parseFields_field hvalue (by omega) (Or.inl rfl), if_pos rfl, hrest]
      rfl

theorem parseValue_number (z : ℤ) : ReadBack fraction (.number z) := by
  intro fuel rest hfuel hends
  rw [stringify, numberText_intCast] at hfuel ⊢
  have hparse := parseNumber_integerText z hends
  have hstarts : ∃ u tail, integerText z = u :: tail ∧ (isDigit u = true ∨ u = MINUS) := by
    cases z with
    | ofNat n =>
      obtain ⟨u, units, hunits, hdigit⟩ := head_decimal n
      exact ⟨u, units, hunits, Or.inl hdigit⟩
    | negSucc n => exact ⟨MINUS, decimal (n + 1), rfl, Or.inr rfl⟩
  obtain ⟨u, tail, htext, hfirst⟩ := hstarts
  have hrange : 45 ≤ u.val ∧ u.val ≤ 57 := by
    rcases hfirst with hdigit | rfl
    · have := of_decide_eq_true hdigit
      omega
    · decide
  rw [htext, List.length_cons] at hfuel
  rw [htext, List.cons_append] at hparse ⊢
  obtain ⟨fuel, rfl⟩ : ∃ n, fuel = n + 1 := ⟨fuel - 1, by omega⟩
  have hblank : isBlank u = false := decide_eq_false (by omega)
  have hquote : u ≠ QUOTE := by
    rintro rfl
    exact absurd hrange (by decide)
  rw [parseValue, skipBlank_cons hblank]
  simp only [if_neg hquote, if_neg (show ¬ u.val = 0x5B by omega),
    if_neg (show ¬ u.val = 0x7B by omega), if_neg (show ¬ u.val = 0x6E by omega),
    if_neg (show ¬ u.val = 0x74 by omega), if_neg (show ¬ u.val = 0x66 by omega), hparse,
    Option.map_some]

/-- A word, by the code unit it starts with. -/
theorem parseValue_word :
    parseValue (fuel + 1) (js "null" ++ rest) = some (.null, rest) ∧
    parseValue (fuel + 1) (js "true" ++ rest) = some (.bool true, rest) ∧
    parseValue (fuel + 1) (js "false" ++ rest) = some (.bool false, rest) := by
  have hword : ∀ token : JsString, expect token (token ++ rest) = some rest := fun token =>
    expect_self token rest
  refine ⟨?_, ?_, ?_⟩
  · show (expect (js "null") (js "null" ++ rest)).map _ = _
    rw [hword]
    rfl
  · show (expect (js "true") (js "true" ++ rest)).map _ = _
    rw [hword]
    rfl
  · show (expect (js "false") (js "false" ++ rest)).map _ = _
    rw [hword]
    rfl

/-- An array, after its bracket. -/
theorem parseValue_bracket (fuel : Nat) (text : JsString) :
    parseValue (fuel + 1) (0x5B :: text) = match expect [0x5D] (skipBlank text) with
      | some rest => some (Json.list [], rest)
      | none => (parseItems fuel text).map fun (items, rest) => (.list items, rest) := by
  rw [parseValue, skipBlank_cons (by decide)]
  rfl

/-- An object, after its brace. -/
theorem parseValue_brace (fuel : Nat) (text : JsString) :
    parseValue (fuel + 1) (0x7B :: text) = match expect [0x7D] (skipBlank text) with
      | some rest => some (Json.record [], rest)
      | none => (parseFields fuel text).map
          fun (fields, rest) => (.record (InsertionMap.ofPairs fields).entries, rest) := by
  rw [parseValue, skipBlank_cons (by decide)]
  rfl

theorem readBack (h : Plain value) : ReadBack fraction value := by
  induction h with
  | null =>
    intro fuel rest hfuel _
    obtain ⟨fuel, rfl⟩ : ∃ n, fuel = n + 1 := ⟨fuel - 1, by
      have : (4 : Nat) ≤ fuel := hfuel
      omega⟩
    exact parseValue_word.1
  | bool b =>
    intro fuel rest hfuel _
    cases b with
    | true =>
      obtain ⟨fuel, rfl⟩ : ∃ n, fuel = n + 1 := ⟨fuel - 1, by
        have : (4 : Nat) ≤ fuel := hfuel
        omega⟩
      exact parseValue_word.2.1
    | false =>
      obtain ⟨fuel, rfl⟩ : ∃ n, fuel = n + 1 := ⟨fuel - 1, by
        have : (5 : Nat) ≤ fuel := hfuel
        omega⟩
      exact parseValue_word.2.2
  | number z => exact parseValue_number z
  | string text =>
    intro fuel rest hfuel _
    have hlength : 1 ≤ (stringify fraction (.string text)).length := by
      rw [stringify, quote, List.length_cons]
      omega
    obtain ⟨fuel, rfl⟩ : ∃ n, fuel = n + 1 := ⟨fuel - 1, by omega⟩
    show parseValue (fuel + 1) (QUOTE :: ((quoteBody text ++ [QUOTE]) ++ rest)) = _
    rw [parseValue, skipBlank_cons (by decide), List.append_assoc]
    show (parseBody (quoteBody text ++ QUOTE :: rest)).map _ = _
    rw [parseBody_quoteBody]
    rfl
  | @list items each ih =>
    intro fuel rest hfuel _
    rw [stringify, List.length_cons, List.length_append, List.length_singleton] at hfuel
    obtain ⟨fuel, rfl⟩ : ∃ n, fuel = n + 1 := ⟨fuel - 1, by omega⟩
    show parseValue (fuel + 1)
      (0x5B :: ((join COMMA (stringifyItems fraction items) ++ [0x5D]) ++ rest)) = _
    rw [parseValue_bracket, List.append_assoc, List.singleton_append]
    cases items with
    | nil =>
      have hclosed : expect [0x5D] (skipBlank (0x5D :: rest)) = some rest := by
        rw [skipBlank_cons (by decide)]
        exact expect_self [0x5D] rest
      simp only [stringifyItems, join, List.intercalate_nil, List.nil_append, hclosed]
    | cons item items =>
      have hstarts : Starts (join COMMA (stringifyItems fraction (item :: items))) := by
        have hfirst : Starts (stringify fraction item) :=
          starts_stringify (each item List.mem_cons_self)
        obtain ⟨u, tail, htext, hu⟩ := hfirst
        cases items with
        | nil =>
          refine ⟨u, tail, ?_, hu⟩
          simp [stringifyItems, join, htext]
        | cons next items =>
          refine ⟨u, tail ++ COMMA :: join COMMA (stringifyItems fraction (next :: items)),
            ?_, hu⟩
          rw [stringifyItems, join_cons (by simp [stringifyItems]), htext, List.cons_append]
      have hnone : expect [0x5D] (skipBlank
          (join COMMA (stringifyItems fraction (item :: items)) ++ 0x5D :: rest)) = none := by
        rw [skipBlank_starts hstarts]
        obtain ⟨u, tail, htext, -, hu, -⟩ := hstarts
        rw [htext, List.cons_append]
        exact expect_one (fun heq => hu (congrArg Fin.val heq)) _
      rw [hnone, parseItems_join (by simp) each ih (by omega)]
      rfl
  | @record fields nodup each ih =>
    intro fuel rest hfuel _
    rw [stringify, List.length_cons, List.length_append, List.length_singleton] at hfuel
    obtain ⟨fuel, rfl⟩ : ∃ n, fuel = n + 1 := ⟨fuel - 1, by omega⟩
    show parseValue (fuel + 1)
      (0x7B :: ((join COMMA (stringifyFields fraction fields) ++ [0x7D]) ++ rest)) = _
    rw [parseValue_brace, List.append_assoc, List.singleton_append]
    cases fields with
    | nil =>
      have hclosed : expect [0x7D] (skipBlank (0x7D :: rest)) = some rest := by
        rw [skipBlank_cons (by decide)]
        exact expect_self [0x7D] rest
      simp only [stringifyFields, join, List.intercalate_nil, List.nil_append, hclosed]
    | cons field fields =>
      obtain ⟨tail, htail⟩ : ∃ tail,
          join COMMA (stringifyFields fraction (field :: fields)) = QUOTE :: tail := by
        obtain ⟨key, value⟩ := field
        cases fields with
        | nil =>
          refine ⟨quoteBody key ++ [QUOTE] ++ 0x3A :: stringify fraction value, ?_⟩
          simp [stringifyFields, join, quote]
        | cons next fields =>
          rw [stringifyFields, join_cons (by simp [stringifyFields])]
          exact ⟨_, rfl⟩
      have hnone : expect [0x7D] (skipBlank
          (join COMMA (stringifyFields fraction (field :: fields)) ++ 0x7D :: rest))
          = none := by
        rw [htail, List.cons_append, skipBlank_cons (by decide)]
        exact expect_one (by decide) _
      rw [hnone, parseFields_join (by simp) ih (by omega)]
      show some (Json.record (InsertionMap.ofPairs (field :: fields)).entries, rest) = _
      rw [InsertionMap.ofPairs_entries nodup]

/-- What was written is read back. -/
theorem parse_stringify (h : Plain value) :
    parse (stringify fraction value) = some value := by
  have hback : ReadBack fraction value := readBack h
  have hread := hback ((stringify fraction value).length + 1) [] (by omega)
    (fun u hu => by cases hu)
  rw [List.append_nil] at hread
  rw [parse, hread]
  rfl

end

/-! ## Bytes -/

/-- A value with no text in it that takes more than a byte a unit. -/
inductive AsciiTexts : Json → Prop
  | null : AsciiTexts .null
  | bool (b : Bool) : AsciiTexts (.bool b)
  | number (z : ℤ) : AsciiTexts (.number z)
  | string {text : JsString} (ascii : Ascii text) : AsciiTexts (.string text)
  | list {items : List Json} (each : ∀ item ∈ items, AsciiTexts item) : AsciiTexts (.list items)
  | record {fields : List (JsString × Json)} (keys : ∀ field ∈ fields, Ascii field.1)
      (each : ∀ field ∈ fields, AsciiTexts field.2) : AsciiTexts (.record fields)

theorem ascii_append {a b : JsString} (ha : Ascii a) (hb : Ascii b) : Ascii (a ++ b) := by
  intro u hu
  rcases List.mem_append.mp hu with hu | hu
  · exact ha u hu
  · exact hb u hu

variable {text : JsString}

theorem ascii_cons (hu : u.val < 0x80) (h : Ascii text) :
    Ascii (u :: text) := by
  intro v hv
  rcases List.mem_cons.mp hv with rfl | hv
  · exact hu
  · exact h v hv

theorem ascii_nil : Ascii [] := fun u hu => by cases hu

theorem ascii_decimal (n : Nat) : Ascii (decimal n) := by
  intro u hu
  have hdigit := (mem_decimal hu).2
  omega

theorem ascii_integerText (z : ℤ) : Ascii (integerText z) := by
  cases z with
  | ofNat n => exact ascii_decimal n
  | negSucc n => exact ascii_cons (by decide) (ascii_decimal (n + 1))

theorem ascii_HEX (i : Fin 16) : (HEX.getD i.val NUL).val < 0x80 := by
  revert i
  decide

theorem ascii_quoteUnit (hu : u.val < 0x80) : Ascii (quoteUnit u) := by
  unfold quoteUnit
  cases hshort : shortEscape u with
  | some letter =>
    have hletter : letter.val < 0x80 := by
      unfold shortEscape at hshort
      split at hshort <;> cases hshort <;> decide
    exact ascii_cons (by decide) (ascii_cons hletter ascii_nil)
  | none =>
    by_cases hcontrol : u.val < 0x20 ∨ isHigh u ∨ isLow u
    · rw [if_pos hcontrol]
      have hdigit : ∀ i, i < 16 → (HEX.getD i NUL).val < 0x80 := fun i hi => ascii_HEX ⟨i, hi⟩
      exact ascii_cons (by decide) (ascii_cons (by decide)
        (ascii_cons (hdigit _ (by omega)) (ascii_cons (hdigit _ (by omega))
          (ascii_cons (hdigit _ (by omega)) (ascii_cons (hdigit _ (by omega)) ascii_nil)))))
    · rw [if_neg hcontrol]
      exact ascii_cons hu ascii_nil

theorem ascii_quoteBody (h : Ascii text) : Ascii (quoteBody text) := by
  induction text using quoteBody.induct with
  | case1 => exact ascii_nil
  | case2 u => exact ascii_quoteUnit (h u List.mem_cons_self)
  | case3 u v text hpair ih =>
    have hv := h v (List.mem_cons_of_mem u List.mem_cons_self)
    have hrest := ih fun w hw => h w (List.mem_cons_of_mem u (List.mem_cons_of_mem v hw))
    rw [quoteBody, if_pos hpair]
    exact ascii_cons (h u List.mem_cons_self) (ascii_cons hv hrest)
  | case4 u v text hpair ih =>
    rw [quoteBody, if_neg hpair]
    exact ascii_append (ascii_quoteUnit (h u List.mem_cons_self))
      (ih fun w hw => h w (List.mem_cons_of_mem u hw))

theorem ascii_quote (h : Ascii text) : Ascii (quote text) :=
  ascii_cons (by decide) (ascii_append (ascii_quoteBody h) (ascii_cons (by decide) ascii_nil))

theorem ascii_join {parts : List JsString} (h : ∀ part ∈ parts, Ascii part) :
    Ascii (join COMMA parts) := by
  intro u hu
  rcases mem_of_mem_join hu with rfl | ⟨part, hpart, hu⟩
  · decide
  · exact h part hpart u hu

section

variable {fraction : ℚ → JsString}

theorem mem_stringifyItems {items : List Json} {part : JsString}
    (h : part ∈ stringifyItems fraction items) : ∃ item ∈ items, part = stringify fraction item := by
  induction items with
  | nil => cases h
  | cons item items ih =>
    rcases List.mem_cons.mp h with rfl | h
    · exact ⟨item, List.mem_cons_self, rfl⟩
    · obtain ⟨other, hother, hpart⟩ := ih h
      exact ⟨other, List.mem_cons_of_mem item hother, hpart⟩

theorem mem_stringifyFields {fields : List (JsString × Json)} {part : JsString}
    (h : part ∈ stringifyFields fraction fields) :
    ∃ field ∈ fields, part = quote field.1 ++ 0x3A :: stringify fraction field.2 := by
  induction fields with
  | nil => cases h
  | cons field fields ih =>
    obtain ⟨key, value⟩ := field
    rcases List.mem_cons.mp h with rfl | h
    · exact ⟨(key, value), List.mem_cons_self, rfl⟩
    · obtain ⟨other, hother, hpart⟩ := ih h
      exact ⟨other, List.mem_cons_of_mem _ hother, hpart⟩

theorem ascii_of_all {t : JsString} (h : (t.all fun u => decide (u.val < 0x80)) = true) :
    Ascii t := fun u hu => of_decide_eq_true (List.all_eq_true.mp h u hu)

variable {value : Json}

theorem ascii_stringify (h : AsciiTexts value) :
    Ascii (stringify fraction value) := by
  induction h with
  | null => exact ascii_of_all (t := js "null") (by decide)
  | bool b =>
    cases b with
    | true => exact ascii_of_all (t := js "true") (by decide)
    | false => exact ascii_of_all (t := js "false") (by decide)
  | number z =>
    rw [stringify, numberText_intCast]
    exact ascii_integerText z
  | string ascii => exact ascii_quote ascii
  | list each ih =>
    refine ascii_cons (by decide) (ascii_append (ascii_join ?_) (ascii_cons (by decide) ascii_nil))
    intro part hpart
    obtain ⟨item, hitem, rfl⟩ := mem_stringifyItems hpart
    exact ih item hitem
  | record keys each ih =>
    refine ascii_cons (by decide) (ascii_append (ascii_join ?_) (ascii_cons (by decide) ascii_nil))
    intro part hpart
    obtain ⟨field, hfield, rfl⟩ := mem_stringifyFields hpart
    exact ascii_append (ascii_quote (keys field hfield))
      (ascii_cons (by decide) (ih field hfield))

variable (fraction) in
/-- `new TextEncoder().encode(JSON.stringify(value))`. -/
def encode (value : Json) : List (Fin 256) := textEncoder (stringify fraction value)

/-- `JSON.parse(new TextDecoder().decode(bytes))`, `none` where it throws. -/
def decode (bytes : List (Fin 256)) : Option Json := parse (textDecoder bytes)

theorem decode_encode (hplain : Plain value) (hascii : AsciiTexts value) :
    decode (encode fraction value) = some value := by
  rw [decode, encode, textDecoder_textEncoder (ascii_stringify hascii), parse_stringify hplain]

theorem length_encode (hascii : AsciiTexts value) :
    (encode fraction value).length = (stringify fraction value).length :=
  length_textEncoder (ascii_stringify hascii)

end

end O2Fabric.Json
