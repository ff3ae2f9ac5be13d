/-
  O2Fabric.Js.Json

  JSON values, `JSON.stringify` without white space, and `JSON.parse`.

  Numbers are exact: a number is the rational its digits say, and a whole
  number is written with all its digits.  An object keeps its keys where they
  were first written.
-/

import O2Fabric.Js.Text
import O2Fabric.Lib.InsertionMap
import Mathlib.Algebra.Field.Rat

namespace O2Fabric

inductive Json
  | null
  | bool (value : Bool)
  | number (value : ℚ)
  | string (value : JsString)
  | list (items : List Json)
  | record (fields : List (JsString × Json))

namespace Json

/-- `source[key]`, `none` where it is `undefined`. -/
def field (fields : List (JsString × Json)) (key : JsString) : Option Json :=
  InsertionMap.lookup key fields

/-! ## Writing -/

/-- `'"'`. -/
def QUOTE : CodeUnit := 0x22

/-- `'\\'`. -/
def BACKSLASH : CodeUnit := 0x5C

/-- Half of a pair of surrogates. -/
def isHigh (u : CodeUnit) : Bool := decide (0xD800 ≤ u.val ∧ u.val < 0xDC00)

def isLow (u : CodeUnit) : Bool := decide (0xDC00 ≤ u.val ∧ u.val < 0xE000)

/-- A code unit's four hexadecimal digits. -/
def hex4 (u : CodeUnit) : JsString :=
  [HEX.getD (u.val / 4096) NUL, HEX.getD (u.val / 256 % 16) NUL, HEX.getD (u.val / 16 % 16) NUL,
    HEX.getD (u.val % 16) NUL]

def unicodeEscape (u : CodeUnit) : JsString := BACKSLASH :: 0x75 :: hex4 u

/-- The letter after the backslash, for the code units that have one. -/
def shortEscape (u : CodeUnit) : Option CodeUnit :=
  match u.val with
  | 0x08 => some 0x62
  | 0x09 => some 0x74
  | 0x0A => some 0x6E
  | 0x0C => some 0x66
  | 0x0D => some 0x72
  | 0x22 => some 0x22
  | 0x5C => some 0x5C
  | _ => none

/-- A code unit that is not half of a pair. -/
def quoteUnit (u : CodeUnit) : JsString :=
  match shortEscape u with
  | some letter => [BACKSLASH, letter]
  | none => if u.val < 0x20 ∨ isHigh u ∨ isLow u then unicodeEscape u else [u]

def quoteBody : JsString → JsString
  | [] => []
  | [u] => quoteUnit u
  | u :: v :: rest =>
    if isHigh u && isLow v then u :: v :: quoteBody rest else quoteUnit u ++ quoteBody (v :: rest)

def quote (text : JsString) : JsString := QUOTE :: (quoteBody text ++ [QUOTE])

section

variable (fraction : ℚ → JsString)

/-- `String(x)`.  What is no whole number is written by `fraction`. -/
def numberText (x : ℚ) : JsString := if x.den = 1 then integerText x.num else fraction x

mutual

/-- `JSON.stringify(value)`. -/
def stringify : Json → JsString
  | .null => js "null"
  | .bool true => js "true"
  | .bool false => js "false"
  | .number x => numberText fraction x
  | .string text => quote text
  | .list items => 0x5B :: (join COMMA (stringifyItems items) ++ [0x5D])
  | .record fields => 0x7B :: (join COMMA (stringifyFields fields) ++ [0x7D])

def stringifyItems : List Json → List JsString
  | [] => []
  | item :: items => stringify item :: stringifyItems items

def stringifyFields : List (JsString × Json) → List JsString
  | [] => []
  | (key, value) :: fields => (quote key ++ 0x3A :: stringify value) :: stringifyFields fields

end

end

/-! ## Reading -/

/-- White space between the tokens. -/
def isBlank (u : CodeUnit) : Bool :=
  decide (u.val = 0x20 ∨ u.val = 0x09 ∨ u.val = 0x0A ∨ u.val = 0x0D)

def skipBlank (text : JsString) : JsString := text.dropWhile isBlank

def isDigit (u : CodeUnit) : Bool := decide (48 ≤ u.val ∧ u.val ≤ 57)

def digitsValue (digits : JsString) : Nat := digits.foldl (fun n u => 10 * n + (u.val - 48)) 0

/-- The digits at the start of a text, at least one, and what follows. -/
def parseDigits (text : JsString) : Option (JsString × JsString) :=
  if text.takeWhile isDigit = [] then none
  else some (text.takeWhile isDigit, text.dropWhile isDigit)

/-- The whole part: no zero before another digit. -/
def parseWhole (text : JsString) : Option (Nat × JsString) := do
  let (digits, rest) ← parseDigits text
  if digits.head? = some 48 ∧ digits.length ≠ 1 then none else some (digitsValue digits, rest)

/-- What a `.` and digits after it add. -/
def parseFraction (text : JsString) : Option (ℚ × JsString) :=
  match text with
  | 0x2E :: rest => do
    let (digits, rest) ← parseDigits rest
    some ((digitsValue digits : ℚ) / 10 ^ digits.length, rest)
  | _ => some (0, text)

/-- What an `e` and digits after it multiply by. -/
def parseExponent (text : JsString) : Option (ℚ × JsString) :=
  match text with
  | u :: rest =>
    if u.val = 0x65 ∨ u.val = 0x45 then
      match rest with
      | 0x2B :: rest => (parseDigits rest).map fun (ds, rest) => (10 ^ digitsValue ds, rest)
      | 0x2D :: rest => (parseDigits rest).map fun (ds, rest) => (1 / 10 ^ digitsValue ds, rest)
      | rest => (parseDigits rest).map fun (ds, rest) => (10 ^ digitsValue ds, rest)
    else some (1, text)
  | [] => some (1, text)

def parseUnsigned (text : JsString) : Option (ℚ × JsString) := do
  let (n, rest) ← parseWhole text
  let (part, rest) ← parseFraction rest
  let (factor, rest) ← parseExponent rest
  some ((n + part) * factor, rest)

def parseNumber (text : JsString) : Option (ℚ × JsString) :=
  match text with
  | [] => none
  | u :: rest =>
    if u = MINUS then (parseUnsigned rest).map fun (x, rest) => (-x, rest)
    else parseUnsigned text

/-- A hexadecimal digit of either case. -/
def hexValue (u : CodeUnit) : Option Nat :=
  if isDigit u then some (u.val - 48)
  else if 97 ≤ u.val ∧ u.val ≤ 102 then some (u.val - 87)
  else if 65 ≤ u.val ∧ u.val ≤ 70 then some (u.val - 55)
  else none

/-- The code unit that four hexadecimal digits name. -/
def unitOfHex (a b c d : CodeUnit) : Option CodeUnit := do
  let a ← hexValue a
  let b ← hexValue b
  let c ← hexValue c
  let d ← hexValue d
  some (Fin.ofNat 65536 (4096 * a + 256 * b + 16 * c + d))

/-- What a letter after a backslash stands for. -/
def unescape (u : CodeUnit) : Option CodeUnit :=
  match u.val with
  | 0x22 => some 0x22
  | 0x5C => some 0x5C
  | 0x2F => some 0x2F
  | 0x62 => some 0x08
  | 0x66 => some 0x0C
  | 0x6E => some 0x0A
  | 0x72 => some 0x0D
  | 0x74 => some 0x09
  | _ => none

/-- A string's code units up to its closing quote, and what follows. -/
def parseBody : JsString → Option (JsString × JsString)
  | [] => none
  | u :: rest =>
    if u = QUOTE then some ([], rest)
    else if u = BACKSLASH then
      match rest with
      | [] => none
      | letter :: rest =>
        if letter.val = 0x75 then
          match rest with
          | a :: b :: c :: d :: rest => do
            let v ← unitOfHex a b c d
            let (text, rest) ← parseBody rest
            some (v :: text, rest)
          | _ => none
        else do
          let v ← unescape letter
          let (text, rest) ← parseBody rest
          some (v :: text, rest)
    else if u.val < 0x20 then none
    else do
      let (text, rest) ← parseBody rest
      some (u :: text, rest)

/-- The rest of a text after the one it is to start with. -/
def expect (token text : JsString) : Option JsString :=
  if token.isPrefixOf text then some (text.drop token.length) else none

mutual

/-- A value at the start of a text, and what follows.  `fuel` bounds the depth of the calls. -/
def parseValue : Nat → JsString → Option (Json × JsString)
  | 0, _ => none
  | fuel + 1, text =>
    match skipBlank text with
    | [] => none
    | u :: rest =>
      if u = QUOTE then (parseBody rest).map fun (text, rest) => (.string text, rest)
      else if u.val = 0x5B then
        match expect [0x5D] (skipBlank rest) with
        | some rest => some (.list [], rest)
        | none => (parseItems fuel rest).map fun (items, rest) => (.list items, rest)
      else if u.val = 0x7B then
        match expect [0x7D] (skipBlank rest) with
        | some rest => some (.record [], rest)
        | none =>
          (parseFields fuel rest).map fun (fields, rest) =>
            (.record (InsertionMap.ofPairs fields).entries, rest)
      else if u.val = 0x6E then (expect (js "null") (u :: rest)).map fun rest => (.null, rest)
      else if u.val = 0x74 then
        (expect (js "true") (u :: rest)).map fun rest => (.bool true, rest)
      else if u.val = 0x66 then
        (expect (js "false") (u :: rest)).map fun rest => (.bool false, rest)
      else (parseNumber (u :: rest)).map fun (x, rest) => (.number x, rest)

/-- Items up to the closing bracket. -/
def parseItems : Nat → JsString → Option (List Json × JsString)
  | 0, _ => none
  | fuel + 1, text => do
    let (item, rest) ← parseValue fuel text
    match skipBlank rest with
    | [] => none
    | u :: rest =>
      if u = COMMA then
        (parseItems fuel rest).map fun (items, rest) => (item :: items, rest)
      else if u.val = 0x5D then some ([item], rest)
      else none

/-- Fields up to the closing brace. -/
def parseFields : Nat → JsString → Option (List (JsString × Json) × JsString)
  | 0, _ => none
  | fuel + 1, text => do
    let rest ← expect [QUOTE] (skipBlank text)
    let (key, rest) ← parseBody rest
    let rest ← expect [0x3A] (skipBlank rest)
    let (value, rest) ← parseValue fuel rest
    match skipBlank rest with
    | [] => none
    | u :: rest =>
      if u = COMMA then
        (parseFields fuel rest).map fun (fields, rest) => ((key, value) :: fields, rest)
      else if u.val = 0x7D then some ([(key, value)], rest)
      else none

end

/-- `JSON.parse(text)`, `none` where it throws. -/
def parse (text : JsString) : Option Json :=
  match parseValue (text.length + 1) text with
  | some (value, rest) => if skipBlank rest = [] then some value else none
  | none => none

end Json

end O2Fabric
