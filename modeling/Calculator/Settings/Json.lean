import Calculator.Decimal.Text
import Calculator.Settings.Datum

/-!
# Calculator.Settings.Json

Reading JSON texts. Besides what the standard allows, the numbers `NaN`, `Infinity` and `-Infinity`
are read. Half of a surrogate pair becomes the replacement character.
-/

namespace Calculator
namespace JsonText

def isSpace (c : Char) : Bool := c == ' ' || c == '\t' || c == '\n' || c == '\r'

def skipSpace (cs : List Char) : List Char := cs.dropWhile isSpace

def hexValue? (c : Char) : Option Nat :=
  if isAsciiDigit c then some (c.toNat - 48)
  else if 'a' ≤ c && c ≤ 'f' then some (c.toNat - 87)
  else if 'A' ≤ c && c ≤ 'F' then some (c.toNat - 55)
  else none

def hexNumber? (cs : List Char) : Option Nat :=
  cs.foldlM (fun n c => (hexValue? c).map (n * 16 + ·)) 0

/-- The code unit of an escape that begins a text, after the backslash. -/
def codeUnit? : List Char → Option (Nat × List Char)
  | 'u' :: a :: b :: c :: d :: rest => (hexNumber? [a, b, c, d]).map fun n => (n, rest)
  | _ => none

/-- The character that an escape stands for, after the backslash. -/
def readEscape (cs : List Char) : Option (Char × List Char) :=
  match cs with
  | '\x22' :: rest => some ('\x22', rest)
  | '\\' :: rest => some ('\\', rest)
  | '/' :: rest => some ('/', rest)
  | 'b' :: rest => some ('\x08', rest)
  | 'f' :: rest => some ('\x0c', rest)
  | 'n' :: rest => some ('\n', rest)
  | 'r' :: rest => some ('\r', rest)
  | 't' :: rest => some ('\t', rest)
  | cs =>
    match codeUnit? cs with
    | none => none
    | some (high, rest) =>
      if 0xD800 ≤ high && high ≤ 0xDBFF then
        match rest with
        | '\\' :: after =>
          match codeUnit? after with
          | some (low, after) =>
            if 0xDC00 ≤ low && low ≤ 0xDFFF then
              some (Char.ofNat (0x10000 + (high - 0xD800) * 0x400 + (low - 0xDC00)), after)
            else some ('\uFFFD', rest)
          | none => some ('\uFFFD', rest)
        | _ => some ('\uFFFD', rest)
      else if 0xDC00 ≤ high && high ≤ 0xDFFF then some ('\uFFFD', rest)
      else some (Char.ofNat high, rest)

/-- The rest of a text in quotation marks; `acc` holds what was read of it, in reverse. -/
def readText : Nat → List Char → List Char → Option (String × List Char)
  | 0, _, _ => none
  | fuel + 1, acc, cs =>
    match cs with
    | [] => none
    | '\x22' :: rest => some (String.ofList acc.reverse, rest)
    | '\\' :: rest =>
      match readEscape rest with
      | none => none
      | some (c, rest) => readText fuel (c :: acc) rest
    | c :: rest => if c.toNat < 32 then none else readText fuel (c :: acc) rest

/-- The digits after a point, if there is a point with digits after it. -/
def readFraction (cs : List Char) : List Char × List Char :=
  match cs with
  | '.' :: rest =>
    let ds := rest.takeWhile isAsciiDigit
    if ds.isEmpty then ([], cs) else (ds, rest.drop ds.length)
  | _ => ([], cs)

/-- The exponent at the beginning of a text, if there is one. -/
def readExponent (cs : List Char) : Option (Int × List Char) :=
  match cs with
  | e :: rest =>
    if e != 'e' && e != 'E' then none
    else
      let (negative, body) := match rest with
        | '-' :: body => (true, body)
        | '+' :: body => (false, body)
        | body => (false, body)
      let ds := body.takeWhile isAsciiDigit
      if ds.isEmpty then none
      else
        let n : Int := Decimal.digitsValue ds
        some (if negative then -n else n, body.drop ds.length)
  | [] => none

def readNumber (cs : List Char) : Option (Datum × List Char) :=
  let (negative, body) := match cs with
    | '-' :: body => (true, body)
    | body => (false, body)
  let whole := match body with
    | '0' :: _ => ['0']
    | body => body.takeWhile isAsciiDigit
  if whole.isEmpty then none
  else
    let (fraction, rest) := readFraction (body.drop whole.length)
    let c := Decimal.digitsValue (whole ++ fraction)
    match readExponent rest with
    | some (e, rest) => some (.real (Double.ofDecimal negative c (e - fraction.length)), rest)
    | none =>
      if fraction.isEmpty then some (.int (if negative then -(c : Int) else c), rest)
      else some (.real (Double.ofDecimal negative c (-(fraction.length : Int))), rest)

/-- The text after a word that begins it. -/
def afterWord? (word : String) (cs : List Char) : Option (List Char) :=
  if word.toList.isPrefixOf cs then some (cs.drop word.length) else none

def words : List (String × Datum) := [
  ("null", .null), ("true", .bool true), ("false", .bool false), ("NaN", .real .nan),
  ("Infinity", .real (.infinity false)), ("-Infinity", .real (.infinity true))]

def readWord (cs : List Char) : Option (Datum × List Char) :=
  words.findSome? fun (word, value) => (afterWord? word cs).map fun rest => (value, rest)

mutual

def readValue : Nat → List Char → Option (Datum × List Char)
  | 0, _ => none
  | fuel + 1, cs =>
    match cs with
    | '\x22' :: rest => (readText (rest.length + 1) [] rest).map fun (s, rest) => (.text s, rest)
    | '[' :: rest =>
      match skipSpace rest with
      | ']' :: rest => some (.list [], rest)
      | rest => (readItems fuel [] rest).map fun (items, rest) => (.list items, rest)
    | '{' :: rest =>
      match skipSpace rest with
      | '}' :: rest => some (.mapping [], rest)
      | rest => (readEntries fuel [] rest).map fun (entries, rest) => (.mapping entries, rest)
    | cs =>
      match readWord cs with
      | some result => some result
      | none => readNumber cs

/-- The rest of a list, of which at least one item is left; `acc` holds the items before, in
reverse. -/
def readItems : Nat → List Datum → List Char → Option (List Datum × List Char)
  | 0, _, _ => none
  | fuel + 1, acc, cs =>
    match readValue fuel cs with
    | none => none
    | some (item, rest) =>
      match skipSpace rest with
      | ']' :: rest => some ((item :: acc).reverse, rest)
      | ',' :: rest => readItems fuel (item :: acc) (skipSpace rest)
      | _ => none

/-- The rest of a mapping, of which at least one entry is left; `acc` holds the entries before, in
reverse. -/
def readEntries : Nat → List (Datum × Datum) → List Char → Option (List (Datum × Datum) × List Char)
  | 0, _, _ => none
  | fuel + 1, acc, cs =>
    match cs with
    | '\x22' :: rest =>
      match readText (rest.length + 1) [] rest with
      | none => none
      | some (key, rest) =>
        match skipSpace rest with
        | ':' :: rest =>
          match readValue fuel (skipSpace rest) with
          | none => none
          | some (value, rest) =>
            let acc := (.text key, value) :: acc
            match skipSpace rest with
            | '}' :: rest => some (acc.reverse, rest)
            | ',' :: rest => readEntries fuel acc (skipSpace rest)
            | _ => none
        | _ => none
    | _ => none

end

/-- The value of a JSON text. -/
def parse (cs : List Char) : Option Datum :=
  match readValue (2 * cs.length + 2) (skipSpace cs) with
  | some (value, rest) => if (skipSpace rest).isEmpty then some value else none
  | none => none

end JsonText
end Calculator
