import Keplor.Lib.Json.Value

/-!
# JSON text: the compact printer and the reader

The printer writes no blanks and escapes exactly what the grammar forbids inside a string. The
reader is a recursive descent over the characters with two counters:

* `depth` is the reader's own nesting limit — a text nested deeper is refused;
* `fuel` bounds the number of values and separators, and is never the reason for a refusal when it
  starts at the length of the text (`RoundTrip.lean` pays for that).

How a double is spelled and read is not decided here. `FloatFormat` asks only that the spelling is a
number token with a fraction or an exponent. Whether reading it gives the same double back is a
property of the double, not of the format: a fast reader may be off by one in the last place.
-/

set_option autoImplicit false

namespace Keplor.Lib.Json

/-! ## Number tokens -/

/-- The exponent of a number token: the mark, the sign as written, the digits. -/
structure ExpPart where
  mark : Char
  sign : List Char
  digits : List Char
  deriving DecidableEq

/-- A number as it stands in the text. -/
structure Lexeme where
  neg : Bool
  int : List Char
  frac : Option (List Char)
  exp : Option ExpPart
  deriving DecidableEq

namespace Lexeme

/-- The characters of a fraction. -/
def fracText : Option (List Char) → List Char
  | none => []
  | some ds => '.' :: ds

/-- The characters of an exponent. -/
def expText : Option ExpPart → List Char
  | none => []
  | some e => e.mark :: e.sign ++ e.digits

/-- The characters of the token. -/
def text (t : Lexeme) : List Char :=
  (if t.neg then ['-'] else []) ++ t.int ++ fracText t.frac ++ expText t.exp

/-- A non-empty run of decimal digits. -/
def Digits (ds : List Char) : Prop := ds ≠ [] ∧ ∀ c ∈ ds, c.isDigit = true

/-- What the grammar asks of a token: no leading zero, no empty part. -/
structure WF (t : Lexeme) : Prop where
  int : Digits t.int
  noLeadingZero : ∀ ds, t.int = '0' :: ds → ds = []
  frac : ∀ ds, t.frac = some ds → Digits ds
  mark : ∀ e, t.exp = some e → e.mark = 'e' ∨ e.mark = 'E'
  sign : ∀ e, t.exp = some e → e.sign = [] ∨ e.sign = ['+'] ∨ e.sign = ['-']
  exp : ∀ e, t.exp = some e → Digits e.digits

/-- A token with neither fraction nor exponent. -/
def isInt (t : Lexeme) : Bool := t.frac.isNone && t.exp.isNone

end Lexeme

/-- How doubles are spelled and read. -/
structure FloatFormat where
  print : F64 → Lexeme
  read : Lexeme → Option F64
  print_wf : ∀ x, (print x).WF
  print_notInt : ∀ x, (print x).isInt = false

/-! ## Printing -/

/-- A hexadecimal digit, lower case. -/
def hexDigit (n : Nat) : Char := Nat.digitChar n

/-- The letter of a character that has an escape of its own. -/
def shortEscape : Char → Option Char
  | '"' => some '"'
  | '\\' => some '\\'
  | '\x08' => some 'b'
  | '\x0c' => some 'f'
  | '\n' => some 'n'
  | '\r' => some 'r'
  | '\t' => some 't'
  | _ => none

/-- One character inside a string literal. -/
def escape (c : Char) : List Char :=
  match shortEscape c with
  | some e => ['\\', e]
  | none =>
      if c.toNat < 0x20 then
        ['\\', 'u', '0', '0', hexDigit (c.toNat / 16), hexDigit (c.toNat % 16)]
      else [c]

/-- A string literal, quotes included. -/
def printStr (s : String) : List Char := '"' :: s.toList.flatMap escape ++ ['"']

/-- The token of an integer. -/
def intLexeme (i : JsonInt) : Lexeme :=
  { neg := decide (i.val < 0), int := Nat.toDigits 10 i.val.natAbs, frac := none, exp := none }

mutual

/-- The compact text of a tree. -/
def print (ff : FloatFormat) : Json → List Char
  | .null => ['n', 'u', 'l', 'l']
  | .bool true => ['t', 'r', 'u', 'e']
  | .bool false => ['f', 'a', 'l', 's', 'e']
  | .int i => (intLexeme i).text
  | .float x => (ff.print x).text
  | .str s => printStr s
  | .arr [] => ['[', ']']
  | .arr (x :: xs) => '[' :: print ff x ++ printElems ff xs
  | .obj [] => ['{', '}']
  | .obj (m :: ms) => '{' :: printMember ff m ++ printMembers ff ms
termination_by structural j => j

/-- The elements after the first, and the closing bracket. -/
def printElems (ff : FloatFormat) : List Json → List Char
  | [] => [']']
  | x :: xs => ',' :: print ff x ++ printElems ff xs
termination_by structural xs => xs

/-- One member. -/
def printMember (ff : FloatFormat) : String × Json → List Char
  | (k, v) => printStr k ++ ':' :: print ff v
termination_by structural m => m

/-- The members after the first, and the closing brace. -/
def printMembers (ff : FloatFormat) : List (String × Json) → List Char
  | [] => ['}']
  | m :: ms => ',' :: printMember ff m ++ printMembers ff ms
termination_by structural ms => ms

end

/-! ## Reading -/

/-- Blanks between tokens. -/
def isWs (c : Char) : Bool := c == ' ' || c == '\n' || c == '\t' || c == '\r'

/-- Skip blanks. -/
def skipWs : List Char → List Char
  | [] => []
  | c :: s => if isWs c then skipWs s else c :: s

/-- The value of a hexadecimal digit, either case. -/
def hexVal (c : Char) : Option Nat :=
  if c.isDigit then some (c.toNat - 48)
  else if 'a' ≤ c ∧ c ≤ 'f' then some (c.toNat - 87)
  else if 'A' ≤ c ∧ c ≤ 'F' then some (c.toNat - 55)
  else none

/-- Four hexadecimal digits. -/
def hex4 (a b c d : Char) : Option Nat := do
  return (← hexVal a) * 4096 + (← hexVal b) * 256 + (← hexVal c) * 16 + (← hexVal d)

/-- The character of a one-letter escape. -/
def unescape : Char → Option Char
  | '"' => some '"'
  | '\\' => some '\\'
  | '/' => some '/'
  | 'b' => some '\x08'
  | 'f' => some '\x0c'
  | 'n' => some '\n'
  | 'r' => some '\r'
  | 't' => some '\t'
  | _ => none

/-- The rest of a string literal after its opening quote: its characters and what follows it. A
`\u` escape above the surrogates stands for itself, a high surrogate only together with a low one. -/
def parseStr : List Char → Option (List Char × List Char)
  | [] => none
  | '"' :: r => some ([], r)
  | '\\' :: 'u' :: a :: b :: c :: d :: r =>
      match hex4 a b c d with
      | none => none
      | some n =>
        if n < 0xD800 ∨ 0xDFFF < n then (parseStr r).map fun p => (Char.ofNat n :: p.1, p.2)
        else if 0xDC00 ≤ n then none
        else
          match r with
          | '\\' :: 'u' :: a' :: b' :: c' :: d' :: r' =>
              match hex4 a' b' c' d' with
              | none => none
              | some l =>
                if 0xDC00 ≤ l ∧ l ≤ 0xDFFF then
                  (parseStr r').map fun p =>
                    (Char.ofNat (0x10000 + (n - 0xD800) * 1024 + (l - 0xDC00)) :: p.1, p.2)
                else none
          | _ => none
  | '\\' :: c :: r =>
      match unescape c with
      | none => none
      | some d => (parseStr r).map fun p => (d :: p.1, p.2)
  | c :: r => if c.toNat < 0x20 ∨ c = '\\' then none else (parseStr r).map fun p => (c :: p.1, p.2)

/-- A non-empty run of digits. -/
def scanDigits (s : List Char) : Option (List Char × List Char) :=
  match s.span Char.isDigit with
  | ([], _) => none
  | (ds, r) => some (ds, r)

/-- The fraction, if a point follows. -/
def scanFrac : List Char → Option (Option (List Char) × List Char)
  | '.' :: r => (scanDigits r).map fun p => (some p.1, p.2)
  | r => some (none, r)

/-- The sign of an exponent, as written. -/
def scanSign : List Char → List Char × List Char
  | '+' :: r => (['+'], r)
  | '-' :: r => (['-'], r)
  | r => ([], r)

/-- The exponent, if a mark follows. -/
def scanExp : List Char → Option (Option ExpPart × List Char)
  | [] => some (none, [])
  | c :: r =>
      if c = 'e' ∨ c = 'E' then
        (scanDigits (scanSign r).2).map fun p =>
          (some { mark := c, sign := (scanSign r).1, digits := p.1 }, p.2)
      else some (none, c :: r)

/-- The minus sign. -/
def scanNeg : List Char → Bool × List Char
  | '-' :: r => (true, r)
  | r => (false, r)

/-- A number token. -/
def scanNumber (s : List Char) : Option (Lexeme × List Char) := do
  let (ds, r) ← scanDigits (scanNeg s).2
  if ds.head? = some '0' ∧ ds.length ≠ 1 then none
  else
    let (f, r) ← scanFrac r
    let (e, r) ← scanExp r
    return ({ neg := (scanNeg s).1, int := ds, frac := f, exp := e }, r)

/-- The number a token stands for: an integer where it fits one, else a double. The negative zero
is a double. -/
def ofLexeme (ff : FloatFormat) (t : Lexeme) : Option Json :=
  let n := Nat.ofDigitChars 10 t.int 0
  if t.isInt then
    if t.neg then
      if h : 0 < n ∧ n ≤ 9223372036854775808 then some (.int ⟨-n, by omega, by omega⟩)
      else (ff.read t).map .float
    else if h : n < 18446744073709551616 then some (.int (.ofNat n h))
    else (ff.read t).map .float
  else (ff.read t).map .float

mutual

/-- One value. -/
def parseValue (ff : FloatFormat) : Nat → Nat → List Char → Option (Json × List Char)
  | 0, _, _ => none
  | fuel + 1, depth, s =>
      match skipWs s with
      | 'n' :: 'u' :: 'l' :: 'l' :: r => some (.null, r)
      | 't' :: 'r' :: 'u' :: 'e' :: r => some (.bool true, r)
      | 'f' :: 'a' :: 'l' :: 's' :: 'e' :: r => some (.bool false, r)
      | '"' :: r => (parseStr r).map fun p => (.str (String.ofList p.1), p.2)
      | '[' :: r =>
          if depth = 0 then none
          else
            match skipWs r with
            | ']' :: r' => some (.arr [], r')
            | r' => (parseElems ff fuel (depth - 1) r').map fun p => (.arr p.1, p.2)
      | '{' :: r =>
          if depth = 0 then none
          else
            match skipWs r with
            | '}' :: r' => some (.obj [], r')
            | r' => (parseMembers ff fuel (depth - 1) r').map fun p => (.obj p.1, p.2)
      | r =>
          match scanNumber r with
          | none => none
          | some (t, r') => (ofLexeme ff t).map fun j => (j, r')

/-- The elements of an array up to its closing bracket. -/
def parseElems (ff : FloatFormat) : Nat → Nat → List Char → Option (List Json × List Char)
  | 0, _, _ => none
  | fuel + 1, depth, s =>
      match parseValue ff fuel depth s with
      | none => none
      | some (x, r) =>
        match skipWs r with
        | ',' :: r' => (parseElems ff fuel depth r').map fun p => (x :: p.1, p.2)
        | ']' :: r' => some ([x], r')
        | _ => none

/-- The members of an object up to its closing brace. -/
def parseMembers (ff : FloatFormat) : Nat → Nat → List Char →
    Option (List (String × Json) × List Char)
  | 0, _, _ => none
  | fuel + 1, depth, s =>
      match skipWs s with
      | '"' :: r =>
          match parseStr r with
          | none => none
          | some (k, r) =>
            match skipWs r with
            | ':' :: r =>
                match parseValue ff fuel depth r with
                | none => none
                | some (v, r) =>
                  match skipWs r with
                  | ',' :: r' =>
                      (parseMembers ff fuel depth r').map fun p =>
                        ((String.ofList k, v) :: p.1, p.2)
                  | '}' :: r' => some ([(String.ofList k, v)], r')
                  | _ => none
            | _ => none
      | _ => none

end

theorem parseMembers_of_key {ff : FloatFormat} {n limit : Nat} {k : String}
    {s r r' r'' : List Char} (hquote : skipWs s = '"' :: r) (hkey : parseStr r = some (k.toList, r'))
    (hcolon : skipWs r' = ':' :: r'') :
    parseMembers ff (n + 1) limit s
      = match parseValue ff n limit r'' with
        | none => none
        | some (v, t) =>
          match skipWs t with
          | ',' :: t' => (parseMembers ff n limit t').map fun p => ((k, v) :: p.1, p.2)
          | '}' :: t' => some ([(k, v)], t')
          | _ => none := by
  simp only [parseMembers, hquote, hkey, hcolon, String.ofList_toList]

/-- A whole text: one value, then nothing but blanks. -/
def parse (ff : FloatFormat) (depth : Nat) (s : List Char) : Option Json :=
  match parseValue ff (2 * s.length + 1) depth s with
  | some (j, r) => if skipWs r = [] then some j else none
  | none => none

end Keplor.Lib.Json
