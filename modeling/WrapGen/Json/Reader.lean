import WrapGen.Json.Basic
/-!
# Reading JSON

The strict grammar of JSON: no comments, no trailing commas, no raw control
characters in strings, no escaped surrogate outside a pair, and nothing but
blanks around the value.
-/
namespace WrapGen.Json

/-- Whether a character may stand between the parts of a text. -/
def isGap (c : Char) : Bool := c == ' ' || c == '\n' || c == '\r' || c == '\t'

/-- The text from the first character that is no gap. -/
def skipGaps (cs : List Char) : List Char := cs.dropWhile isGap

/-! ## Strings -/

/-- The value of a hexadecimal digit. -/
def hexDigit? (c : Char) : Option Nat :=
  if '0' ≤ c ∧ c ≤ '9' then some (c.toNat - '0'.toNat)
  else if 'a' ≤ c ∧ c ≤ 'f' then some (c.toNat - 'a'.toNat + 10)
  else if 'A' ≤ c ∧ c ≤ 'F' then some (c.toNat - 'A'.toNat + 10)
  else none

/-- The value of four hexadecimal digits. -/
def hex4? (a b c d : Char) : Option Nat :=
  match hexDigit? a, hexDigit? b, hexDigit? c, hexDigit? d with
  | some a, some b, some c, some d => some (((a * 16 + b) * 16 + c) * 16 + d)
  | _, _, _, _ => none

/-- Whether a code unit is the first of a surrogate pair. -/
def isHighSurrogate (n : Nat) : Bool := 0xD800 ≤ n && n < 0xDC00

/-- Whether a code unit is the second of a surrogate pair. -/
def isLowSurrogate (n : Nat) : Bool := 0xDC00 ≤ n && n < 0xE000

/-- The code point of a surrogate pair. -/
def pairCodePoint (high low : Nat) : Nat :=
  0x10000 + (high - 0xD800) * 0x400 + (low - 0xDC00)

/-- The character that a letter after a backslash stands for. -/
def shortEscape? : Char → Option Char
  | '"' => some '"'
  | '\\' => some '\\'
  | '/' => some '/'
  | 'b' => some '\x08'
  | 'f' => some '\x0c'
  | 'n' => some '\n'
  | 'r' => some '\r'
  | 't' => some '\t'
  | _ => none

/-- A character in front of what was read. -/
def consRead (c : Char) (r : Option (List Char × List Char)) : Option (List Char × List Char) :=
  r.map fun r => (c :: r.1, r.2)

/-- Reads a string after its opening quote: its content and what follows it. -/
def readString : List Char → Option (List Char × List Char)
  | [] => none
  | '"' :: cs => some ([], cs)
  | '\\' :: 'u' :: a :: b :: c :: d :: cs =>
    match hex4? a b c d with
    | none => none
    | some n =>
      if isHighSurrogate n then
        match cs with
        | '\\' :: 'u' :: e :: f :: g :: h :: cs =>
          match hex4? e f g h with
          | none => none
          | some m =>
            if isLowSurrogate m then consRead (Char.ofNat (pairCodePoint n m)) (readString cs)
            else none
        | _ => none
      else if isLowSurrogate n then none
      else consRead (Char.ofNat n) (readString cs)
  | '\\' :: c :: cs =>
    match shortEscape? c with
    | none => none
    | some x => consRead x (readString cs)
  | c :: cs => if c.toNat < 0x20 then none else consRead c (readString cs)

/-! ## Numbers -/

/-- Digits at the start of a text, at least one. -/
def digits? (cs : List Char) : Option (List Char × List Char) :=
  match cs.takeWhile Char.isDigit with
  | [] => none
  | ds => some (ds, cs.dropWhile Char.isDigit)

/-- The whole part of a number; a zero at its start stands alone. -/
def whole? : List Char → Option (List Char × List Char)
  | '0' :: cs => some (['0'], cs)
  | cs => digits? cs

/-- The fraction of a number, which may be missing. -/
def fraction? : List Char → Option (List Char × List Char)
  | '.' :: cs => (digits? cs).map fun r => ('.' :: r.1, r.2)
  | cs => some ([], cs)

/-- The exponent of a number, which may be missing. -/
def exponent? : List Char → Option (List Char × List Char)
  | c :: cs =>
    if c = 'e' ∨ c = 'E' then
      match cs with
      | s :: rest =>
        if s = '+' ∨ s = '-' then (digits? rest).map fun r => (c :: s :: r.1, r.2)
        else (digits? cs).map fun r => (c :: r.1, r.2)
      | [] => none
    else some ([], c :: cs)
  | [] => some ([], [])

/-- Reads a number as it is written. -/
def readNumber (cs : List Char) : Option (List Char × List Char) := do
  let (sign, cs) := match cs with
    | '-' :: cs => (['-'], cs)
    | cs => ([], cs)
  let (whole, cs) ← whole? cs
  let (fraction, cs) ← fraction? cs
  let (exponent, cs) ← exponent? cs
  return (sign ++ whole ++ fraction ++ exponent, cs)

/-! ## Values -/

mutual

/-- Reads a value, with gaps before it. The first argument bounds the steps. -/
def readValue : Nat → List Char → Option (Json × List Char)
  | 0, _ => none
  | n + 1, cs =>
    match skipGaps cs with
    | '"' :: cs => (readString cs).map fun r => (.string (String.ofList r.1), r.2)
    | '[' :: cs =>
      match skipGaps cs with
      | ']' :: cs => some (.array [], cs)
      | cs => (readItems n cs).map fun r => (.array r.1, r.2)
    | '{' :: cs =>
      match skipGaps cs with
      | '}' :: cs => some (.object [], cs)
      | cs => (readMembers n cs).map fun r => (.object r.1, r.2)
    | 'n' :: 'u' :: 'l' :: 'l' :: cs => some (.null, cs)
    | 't' :: 'r' :: 'u' :: 'e' :: cs => some (.bool true, cs)
    | 'f' :: 'a' :: 'l' :: 's' :: 'e' :: cs => some (.bool false, cs)
    | cs => (readNumber cs).map fun r => (.number r.1, r.2)

/-- Reads the items of an array up to its end, at least one. -/
def readItems : Nat → List Char → Option (List Json × List Char)
  | 0, _ => none
  | n + 1, cs =>
    match readValue n cs with
    | none => none
    | some (j, cs) =>
      match skipGaps cs with
      | ',' :: cs => (readItems n cs).map fun r => (j :: r.1, r.2)
      | ']' :: cs => some ([j], cs)
      | _ => none

/-- Reads the members of an object up to its end, at least one. -/
def readMembers : Nat → List Char → Option (List (String × Json) × List Char)
  | 0, _ => none
  | n + 1, cs =>
    match skipGaps cs with
    | '"' :: cs =>
      match readString cs with
      | none => none
      | some (name, cs) =>
        match skipGaps cs with
        | ':' :: cs =>
          match readValue n cs with
          | none => none
          | some (j, cs) =>
            let member := (String.ofList name, j)
            match skipGaps cs with
            | ',' :: cs => (readMembers n cs).map fun r => (member :: r.1, r.2)
            | '}' :: cs => some ([member], cs)
            | _ => none
        | _ => none
    | _ => none

end

/-- Steps that are enough for a text: a value takes at most two for a character. -/
def stepBound (cs : List Char) : Nat := 2 * cs.length + 2

/-- The value that a whole text writes. -/
def read? (text : String) : Option Json :=
  let cs := text.toList
  match readValue (stepBound cs) cs with
  | some (j, rest) => if rest.all isGap then some j else none
  | none => none

end WrapGen.Json
