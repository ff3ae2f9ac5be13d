/-
  O2Fabric.Js.Utf8

  The UTF-8 encoding of a string, as `TextEncoder` gives it, and the string that
  `TextDecoder` reads.
-/

import O2Fabric.Js.Text

namespace O2Fabric

def utf8 (point : Nat) : List (Fin 256) :=
  if point < 0x80 then [Fin.ofNat 256 point]
  else if point < 0x800 then
    [Fin.ofNat 256 (0xC0 + point / 0x40), Fin.ofNat 256 (0x80 + point % 0x40)]
  else if point < 0x10000 then
    [Fin.ofNat 256 (0xE0 + point / 0x1000), Fin.ofNat 256 (0x80 + point / 0x40 % 0x40),
      Fin.ofNat 256 (0x80 + point % 0x40)]
  else
    [Fin.ofNat 256 (0xF0 + point / 0x40000), Fin.ofNat 256 (0x80 + point / 0x1000 % 0x40),
      Fin.ofNat 256 (0x80 + point / 0x40 % 0x40), Fin.ofNat 256 (0x80 + point % 0x40)]

/-- `new TextEncoder().encode(text)`: a surrogate without its other half becomes
    U+FFFD. -/
def textEncoder : JsString → List (Fin 256)
  | [] => []
  | [u] => utf8 (if 0xD800 ≤ u.val ∧ u.val < 0xE000 then 0xFFFD else u.val)
  | u :: v :: rest =>
    if 0xD800 ≤ u.val ∧ u.val < 0xDC00 ∧ 0xDC00 ≤ v.val ∧ v.val < 0xE000 then
      utf8 (0x10000 + (u.val - 0xD800) * 0x400 + (v.val - 0xDC00)) ++ textEncoder rest
    else
      utf8 (if 0xD800 ≤ u.val ∧ u.val < 0xE000 then 0xFFFD else u.val) ++ textEncoder (v :: rest)

/-! ## Reading -/

def codeUnitsOf (point : Nat) : JsString :=
  if point < 0x10000 then [Fin.ofNat 65536 point]
  else [Fin.ofNat 65536 (0xD800 + (point - 0x10000) / 0x400),
    Fin.ofNat 65536 (0xDC00 + (point - 0x10000) % 0x400)]

/-- A code point some of whose bytes have been read. -/
structure Utf8Pending where
  point : Nat
  /-- How many bytes are still to come. -/
  needed : Nat
  /-- The bytes the next one may be. -/
  lowest : Nat
  highest : Nat

/-- A byte where a code point may begin. -/
def utf8Start (a : Fin 256) : JsString × Option Utf8Pending :=
  if a.val < 0x80 then ([Fin.ofNat 65536 a.val], none)
  else if 0xC2 ≤ a.val ∧ a.val ≤ 0xDF then ([], some ⟨a.val - 0xC0, 1, 0x80, 0xBF⟩)
  else if 0xE0 ≤ a.val ∧ a.val ≤ 0xEF then
    ([], some ⟨a.val - 0xE0, 2, if a.val = 0xE0 then 0xA0 else 0x80,
      if a.val = 0xED then 0x9F else 0xBF⟩)
  else if 0xF0 ≤ a.val ∧ a.val ≤ 0xF4 then
    ([], some ⟨a.val - 0xF0, 3, if a.val = 0xF0 then 0x90 else 0x80,
      if a.val = 0xF4 then 0x8F else 0xBF⟩)
  else ([0xFFFD], none)

/-- Code points one after another.  U+FFFD stands for one that does not go on, and the byte that
    does not fit is read again. -/
def decodeUtf8 : Option Utf8Pending → List (Fin 256) → JsString
  | none, [] => []
  | some _, [] => [0xFFFD]
  | none, a :: rest => (utf8Start a).1 ++ decodeUtf8 (utf8Start a).2 rest
  | some pending, a :: rest =>
    if pending.lowest ≤ a.val ∧ a.val ≤ pending.highest then
      let point := pending.point * 64 + (a.val - 0x80)
      if pending.needed = 1 then codeUnitsOf point ++ decodeUtf8 none rest
      else decodeUtf8 (some ⟨point, pending.needed - 1, 0x80, 0xBF⟩) rest
    else 0xFFFD :: ((utf8Start a).1 ++ decodeUtf8 (utf8Start a).2 rest)

/-- `new TextDecoder().decode(bytes)`: a byte order mark in front is left out. -/
def textDecoder (bytes : List (Fin 256)) : JsString :=
  match bytes with
  | 0xEF :: 0xBB :: 0xBF :: rest => decodeUtf8 none rest
  | bytes => decodeUtf8 none bytes

/-! ## Plain text -/

/-- Only code units that one byte encodes. -/
def Ascii (text : JsString) : Prop := ∀ u ∈ text, u.val < 0x80

theorem textEncoder_cons {u : CodeUnit} (hu : u.val < 0x80) (text : JsString) :
    textEncoder (u :: text) = Fin.ofNat 256 u.val :: textEncoder text := by
  have hunit : utf8 (if 0xD800 ≤ u.val ∧ u.val < 0xE000 then 0xFFFD else u.val)
      = [Fin.ofNat 256 u.val] := by
    rw [if_neg (by omega), utf8, if_pos hu]
  cases text with
  | nil =>
    unfold textEncoder
    exact hunit
  | cons v text => rw [textEncoder, if_neg (by omega), hunit, List.singleton_append]

variable {text : JsString}

theorem length_textEncoder (h : Ascii text) :
    (textEncoder text).length = text.length := by
  induction text with
  | nil => rfl
  | cons u text ih =>
    rw [textEncoder_cons (h u List.mem_cons_self), List.length_cons, List.length_cons,
      ih fun v hv => h v (List.mem_cons_of_mem u hv)]

theorem decodeUtf8_textEncoder (h : Ascii text) :
    decodeUtf8 none (textEncoder text) = text := by
  induction text with
  | nil => rfl
  | cons u text ih =>
    have hu := h u List.mem_cons_self
    have hval : (Fin.ofNat 256 u.val).val = u.val := Nat.mod_eq_of_lt (by omega)
    have hback : Fin.ofNat 65536 u.val = u := Fin.ext (Nat.mod_eq_of_lt u.isLt)
    have hstart : utf8Start (Fin.ofNat 256 u.val) = ([u], none) := by
      rw [utf8Start, hval, if_pos hu, hback]
    rw [textEncoder_cons hu, decodeUtf8, hstart, ih fun v hv => h v (List.mem_cons_of_mem u hv)]
    rfl

theorem textDecoder_textEncoder (h : Ascii text) :
    textDecoder (textEncoder text) = text := by
  have hdecode := decodeUtf8_textEncoder h
  unfold textDecoder
  split
  · next rest hbytes =>
    -- the first byte of such a text is no byte order mark
    cases text with
    | nil => cases hbytes
    | cons u text =>
      have hu := h u List.mem_cons_self
      rw [textEncoder_cons hu] at hbytes
      have hval := congrArg Fin.val (List.cons.inj hbytes).1
      have hfirst : u.val % 256 = 0xEF := hval
      omega
  · exact hdecode

/-! ## Well-formed text -/

/-- No surrogate is without its other half. -/
def isWellFormed : JsString → Bool
  | [] => true
  | [u] => decide (¬ (0xD800 ≤ u.val ∧ u.val < 0xE000))
  | u :: v :: rest =>
    if 0xD800 ≤ u.val ∧ u.val < 0xDC00 then
      decide (0xDC00 ≤ v.val ∧ v.val < 0xE000) && isWellFormed rest
    else decide (¬ (0xDC00 ≤ u.val ∧ u.val < 0xE000)) && isWellFormed (v :: rest)

/-- A continuation byte goes on, or ends, what is pending. -/
theorem decodeUtf8_next (point needed lowest highest : Nat) {a : Fin 256} (rest : List (Fin 256))
    (h : lowest ≤ a.val ∧ a.val ≤ highest) :
    decodeUtf8 (some ⟨point, needed, lowest, highest⟩) (a :: rest)
      = if needed = 1 then codeUnitsOf (point * 64 + (a.val - 0x80)) ++ decodeUtf8 none rest
        else decodeUtf8 (some ⟨point * 64 + (a.val - 0x80), needed - 1, 0x80, 0xBF⟩) rest := by
  rw [decodeUtf8, if_pos h]

theorem decodeUtf8_start (a : Fin 256) (rest : List (Fin 256)) :
    decodeUtf8 none (a :: rest) = (utf8Start a).1 ++ decodeUtf8 (utf8Start a).2 rest := by
  rw [decodeUtf8]

/-- The encoding of a code point that is no surrogate is decoded as that code point. -/
theorem decodeUtf8_utf8 {point : Nat} (hscalar : ¬ (0xD800 ≤ point ∧ point < 0xE000))
    (hlast : point < 0x110000) (rest : List (Fin 256)) :
    decodeUtf8 none (utf8 point ++ rest) = codeUnitsOf point ++ decodeUtf8 none rest := by
  have hval : ∀ n, n < 256 → (Fin.ofNat 256 n).val = n := fun n hn => Nat.mod_eq_of_lt hn
  unfold utf8
  split
  · next hone =>
    have ha := hval point (by omega)
    rw [List.singleton_append, decodeUtf8_start, utf8Start, ha, if_pos hone, codeUnitsOf,
      if_pos (by omega)]
  · split
    · have ha := hval (0xC0 + point / 0x40) (by omega)
      have hb := hval (0x80 + point % 0x40) (by omega)
      have hstart : utf8Start (Fin.ofNat 256 (0xC0 + point / 0x40))
          = ([], some ⟨point / 0x40, 1, 0x80, 0xBF⟩) := by
        rw [utf8Start, ha, if_neg (by omega), if_pos (by omega), Nat.add_sub_cancel_left]
      have hpoint : point / 0x40 * 64 + (0x80 + point % 0x40 - 0x80) = point := by omega
      rw [List.cons_append, List.singleton_append, decodeUtf8_start, hstart, List.nil_append,
        decodeUtf8_next _ _ _ _ rest (by rw [hb]; omega), hb, if_pos rfl, hpoint]
    · split
      · have ha := hval (0xE0 + point / 0x1000) (by omega)
        have hb := hval (0x80 + point / 0x40 % 0x40) (by omega)
        have hc := hval (0x80 + point % 0x40) (by omega)
        have hstart : utf8Start (Fin.ofNat 256 (0xE0 + point / 0x1000))
            = ([], some ⟨point / 0x1000, 2, if 0xE0 + point / 0x1000 = 0xE0 then 0xA0 else 0x80,
                if 0xE0 + point / 0x1000 = 0xED then 0x9F else 0xBF⟩) := by
          rw [utf8Start, ha, if_neg (by omega), if_neg (by omega), if_pos (by omega),
            Nat.add_sub_cancel_left]
        have hrange : (if 0xE0 + point / 0x1000 = 0xE0 then 0xA0 else 0x80)
              ≤ 0x80 + point / 0x40 % 0x40 ∧
            0x80 + point / 0x40 % 0x40
              ≤ (if 0xE0 + point / 0x1000 = 0xED then 0x9F else 0xBF) := by
          constructor
          · split <;> omega
          · split <;> omega
        have hpoint : (point / 0x1000 * 64 + (0x80 + point / 0x40 % 0x40 - 0x80)) * 64
            + (0x80 + point % 0x40 - 0x80) = point := by omega
        rw [List.cons_append, List.cons_append, List.singleton_append, decodeUtf8_start, hstart,
          List.nil_append, decodeUtf8_next _ _ _ _ _ (by rw [hb]; exact hrange), hb]
        show decodeUtf8 (some ⟨point / 0x1000 * 64 + (0x80 + point / 0x40 % 0x40 - 0x80), 1, 0x80,
          0xBF⟩) (Fin.ofNat 256 (0x80 + point % 0x40) :: rest) = _
        rw [decodeUtf8_next _ _ _ _ rest (by rw [hc]; omega), hc, if_pos rfl, hpoint]
      · have ha := hval (0xF0 + point / 0x40000) (by omega)
        have hb := hval (0x80 + point / 0x1000 % 0x40) (by omega)
        have hc := hval (0x80 + point / 0x40 % 0x40) (by omega)
        have hd := hval (0x80 + point % 0x40) (by omega)
        have hstart : utf8Start (Fin.ofNat 256 (0xF0 + point / 0x40000))
            = ([], some ⟨point / 0x40000, 3, if 0xF0 + point / 0x40000 = 0xF0 then 0x90 else 0x80,
                if 0xF0 + point / 0x40000 = 0xF4 then 0x8F else 0xBF⟩) := by
          rw [utf8Start, ha, if_neg (by omega), if_neg (by omega), if_neg (by omega),
            if_pos (by omega), Nat.add_sub_cancel_left]
        have hrange : (if 0xF0 + point / 0x40000 = 0xF0 then 0x90 else 0x80)
              ≤ 0x80 + point / 0x1000 % 0x40 ∧
            0x80 + point / 0x1000 % 0x40
              ≤ (if 0xF0 + point / 0x40000 = 0xF4 then 0x8F else 0xBF) := by
          constructor
          · split <;> omega
          · split <;> omega
        have hpoint : ((point / 0x40000 * 64 + (0x80 + point / 0x1000 % 0x40 - 0x80)) * 64
            + (0x80 + point / 0x40 % 0x40 - 0x80)) * 64 + (0x80 + point % 0x40 - 0x80)
              = point := by omega
        rw [List.cons_append, List.cons_append, List.cons_append, List.singleton_append,
          decodeUtf8_start, hstart, List.nil_append, decodeUtf8_next _ _ _ _ _ (by rw [hb]; exact hrange),
          hb]
        show decodeUtf8 (some ⟨point / 0x40000 * 64 + (0x80 + point / 0x1000 % 0x40 - 0x80), 2,
          0x80, 0xBF⟩) (Fin.ofNat 256 (0x80 + point / 0x40 % 0x40)
            :: Fin.ofNat 256 (0x80 + point % 0x40) :: rest) = _
        rw [decodeUtf8_next _ _ _ _ _ (by rw [hc]; omega), hc]
        show decodeUtf8 (some ⟨(point / 0x40000 * 64 + (0x80 + point / 0x1000 % 0x40 - 0x80)) * 64
          + (0x80 + point / 0x40 % 0x40 - 0x80), 1, 0x80, 0xBF⟩)
            (Fin.ofNat 256 (0x80 + point % 0x40) :: rest) = _
        rw [decodeUtf8_next _ _ _ _ rest (by rw [hd]; omega), hd, if_pos rfl, hpoint]

/-- One code unit that is no surrogate. -/
theorem codeUnitsOf_unit (u : CodeUnit) : codeUnitsOf u.val = [u] := by
  have hback : Fin.ofNat 65536 u.val = u := Fin.ext (Nat.mod_eq_of_lt u.isLt)
  rw [codeUnitsOf, if_pos u.isLt, hback]

/-- A pair of surrogates. -/
theorem codeUnitsOf_pair {u v : CodeUnit} (hu : 0xD800 ≤ u.val ∧ u.val < 0xDC00)
    (hv : 0xDC00 ≤ v.val ∧ v.val < 0xE000) :
    codeUnitsOf (0x10000 + (u.val - 0xD800) * 0x400 + (v.val - 0xDC00)) = [u, v] := by
  have hhigh : 0xD800 + (0x10000 + (u.val - 0xD800) * 0x400 + (v.val - 0xDC00) - 0x10000) / 0x400
      = u.val := by omega
  have hlow : 0xDC00 + (0x10000 + (u.val - 0xD800) * 0x400 + (v.val - 0xDC00) - 0x10000) % 0x400
      = v.val := by omega
  have hback : ∀ w : CodeUnit, Fin.ofNat 65536 w.val = w := fun w =>
    Fin.ext (Nat.mod_eq_of_lt w.isLt)
  rw [codeUnitsOf, if_neg (by omega), hhigh, hlow, hback, hback]

/-- Well-formed text is encoded piece by piece, and each piece is decoded for itself. -/
theorem textEncoder_wellFormed (h : isWellFormed text = true) (more : JsString) :
    textEncoder (text ++ more) = textEncoder text ++ textEncoder more ∧
    isWellFormed (text ++ more) = isWellFormed more ∧
    ∀ rest, decodeUtf8 none (textEncoder text ++ rest) = text ++ decodeUtf8 none rest := by
  fun_induction isWellFormed text with
  | case1 => exact ⟨rfl, rfl, fun _ => rfl⟩
  | case2 u =>
    have hu : ¬ (0xD800 ≤ u.val ∧ u.val < 0xE000) := of_decide_eq_true h
    have hone : textEncoder [u] = utf8 u.val := by rw [textEncoder, if_neg hu]
    refine ⟨?_, ?_, ?_⟩
    · cases more with
      | nil => rw [List.append_nil, textEncoder, List.append_nil]
      | cons v more =>
        rw [hone, List.singleton_append, textEncoder, if_neg (by omega), if_neg hu]
    · cases more with
      | nil => exact decide_eq_true hu
      | cons v more =>
        have hlow : ¬ (0xDC00 ≤ u.val ∧ u.val < 0xE000) := by omega
        rw [List.singleton_append, isWellFormed, if_neg (by omega), decide_eq_true hlow,
          Bool.true_and]
    · intro rest
      rw [hone, decodeUtf8_utf8 hu (by omega), codeUnitsOf_unit]
  | case3 u v text hhigh ih =>
    rw [Bool.and_eq_true] at h
    have hv := of_decide_eq_true h.1
    obtain ⟨hencode, hwell, hdecode⟩ := ih h.2
    have hpair : ∀ tail, textEncoder (u :: v :: tail)
        = utf8 (0x10000 + (u.val - 0xD800) * 0x400 + (v.val - 0xDC00)) ++ textEncoder tail := by
      intro tail
      rw [textEncoder, if_pos ⟨hhigh.1, hhigh.2, hv.1, hv.2⟩]
    refine ⟨?_, ?_, ?_⟩
    · rw [List.cons_append, List.cons_append, hpair, hpair, hencode, List.append_assoc]
    · rw [List.cons_append, List.cons_append, isWellFormed, if_pos hhigh, decide_eq_true hv,
        Bool.true_and, hwell]
    · intro rest
      rw [hpair, List.append_assoc, decodeUtf8_utf8 (by omega) (by omega), hdecode,
        codeUnitsOf_pair hhigh hv]
      rfl
  | case4 u v text hhigh ih =>
    rw [Bool.and_eq_true] at h
    have hlow := of_decide_eq_true h.1
    have hu : ¬ (0xD800 ≤ u.val ∧ u.val < 0xE000) := by omega
    obtain ⟨hencode, hwell, hdecode⟩ := ih h.2
    have hone : ∀ tail, textEncoder (u :: v :: tail) = utf8 u.val ++ textEncoder (v :: tail) := by
      intro tail
      rw [textEncoder, if_neg (by omega), if_neg hu]
    rw [List.cons_append] at hencode hwell
    refine ⟨?_, ?_, ?_⟩
    · rw [List.cons_append, List.cons_append, hone, hone, hencode, List.append_assoc]
    · rw [List.cons_append, List.cons_append, isWellFormed, if_neg hhigh, decide_eq_true hlow,
        Bool.true_and, hwell]
    · intro rest
      rw [hone, List.append_assoc, decodeUtf8_utf8 hu (by omega), hdecode, codeUnitsOf_unit]
      rfl

/-- Plain text is well formed. -/
theorem isWellFormed_ascii (h : Ascii text) : isWellFormed text = true := by
  fun_induction isWellFormed text with
  | case1 => rfl
  | case2 u =>
    have hu := h u List.mem_cons_self
    exact decide_eq_true (by omega)
  | case3 u v text hhigh ih =>
    have hu := h u List.mem_cons_self
    omega
  | case4 u v text hhigh ih =>
    have hu := h u List.mem_cons_self
    have hlow : ¬ (0xDC00 ≤ u.val ∧ u.val < 0xE000) := by omega
    rw [decide_eq_true hlow, Bool.true_and]
    exact ih fun w hw => h w (List.mem_cons_of_mem u hw)

theorem utf8_length_pos (point : Nat) : 0 < (utf8 point).length := by
  unfold utf8
  split
  · exact Nat.one_pos
  · split
    · exact Nat.two_pos
    · split
      · exact Nat.zero_lt_succ 2
      · exact Nat.zero_lt_succ 3

/-- No code unit is encoded as less than a byte. -/
theorem length_le_textEncoder (text : JsString) : text.length ≤ (textEncoder text).length := by
  fun_induction textEncoder text with
  | case1 => exact Nat.le_refl 0
  | case2 u => exact utf8_length_pos _
  | case3 u v text hpair ih =>
    have hfour : (utf8 (0x10000 + (u.val - 0xD800) * 0x400 + (v.val - 0xDC00))).length = 4 := by
      rw [utf8, if_neg (by omega), if_neg (by omega), if_neg (by omega)]
      rfl
    rw [List.length_append, hfour, List.length_cons, List.length_cons]
    omega
  | case4 u v text hpair ih =>
    have hone := utf8_length_pos (if 0xD800 ≤ u.val ∧ u.val < 0xE000 then 0xFFFD else u.val)
    rw [List.length_append, List.length_cons]
    omega

/-- The bytes of plain text are cut where the text is. -/
theorem take_textEncoder (h : Ascii text) (n : Nat) :
    (textEncoder text).take n = textEncoder (text.take n) := by
  induction text generalizing n with
  | nil => rw [List.take_nil, textEncoder, List.take_nil]
  | cons u text ih =>
    have hu := h u List.mem_cons_self
    cases n with
    | zero => rfl
    | succ n =>
      rw [textEncoder_cons hu, List.take_succ_cons, List.take_succ_cons, textEncoder_cons hu,
        ih fun v hv => h v (List.mem_cons_of_mem u hv)]

end O2Fabric
