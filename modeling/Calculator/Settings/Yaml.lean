import Calculator.Settings.Json
import Calculator.Settings.Scalar
import Calculator.Text.Lines

/-!
# Calculator.Settings.Yaml

Reading YAML texts, as far as settings need them: one document with block and flow collections and
plain or quoted scalars. Anchors, tags, explicit keys and block scalars are not read.

Collections nest by indentation outside of brackets, so that a position carries its column; a key
has to stand on one line with its colon, so that it carries its line as well.
-/

namespace Calculator
namespace YamlText

/-- A place in a text: what is left, and the column and the line of the next character. -/
structure Place where
  rest : List Char
  column : Nat
  line : Nat

namespace Place

/-- The place after a number of characters. -/
def forward : Nat → Place → Place
  | 0, p => p
  | n + 1, p =>
    match p.rest with
    | [] => p
    | '\n' :: rest => forward n ⟨rest, 0, p.line + 1⟩
    | _ :: rest => forward n ⟨rest, p.column + 1, p.line⟩

def skipWhile (test : Char → Bool) (p : Place) : Place :=
  p.forward (p.rest.takeWhile test).length

/-- The place of the next token: after spaces, comments and line ends, at most `fuel` of them. -/
def toToken : Nat → Place → Place
  | 0, p => p
  | fuel + 1, p =>
    let p := p.skipWhile (· == ' ')
    match p.rest with
    | '#' :: _ => toToken fuel (p.skipWhile (· != '\n'))
    | '\n' :: _ => toToken fuel (p.forward 1)
    | _ => p

def token (p : Place) : Place := p.toToken (p.rest.length + 1)

def atEnd (p : Place) : Bool := p.rest.isEmpty

end Place

/-- Whether a text begins with white space or has ended. -/
def startsBlank : List Char → Bool
  | [] => true
  | c :: _ => c == ' ' || c == '\t' || c == '\n'

def startsWith (sign : Char) : List Char → Bool
  | c :: rest => c == sign && startsBlank rest
  | [] => false

/-- The characters with a meaning of their own at the beginning of a token. -/
def indicators : List Char := "-?:,[]\x7b\x7d#&*!|>%@".toList ++ [34, 39, 96].map Char.ofNat

/-- The characters that end an unquoted scalar inside of brackets. -/
def flowEnds : List Char := ",?[]\x7b\x7d".toList

/-- Whether an unquoted scalar can begin here. -/
def startsPlain (flow : Bool) : List Char → Bool
  | [] => false
  | c :: rest =>
    if c == ' ' || c == '\t' || c == '\n' then false
    else if !indicators.contains c then true
    else !startsBlank rest && (c == '-' || (!flow && (c == '?' || c == ':')))

/-! ## Scalars -/

/-- The length of the run of characters without white space at the beginning of a scalar. -/
def plainRun (flow : Bool) : List Char → Nat
  | [] => 0
  | c :: rest =>
    let colonEnds := c == ':' &&
      (startsBlank rest || (flow && rest.head?.any ",[]\x7b\x7d".toList.contains))
    if c == ' ' || c == '\t' || c == '\n' || colonEnds || (flow && flowEnds.contains c) then 0
    else plainRun flow rest + 1

/-- White space that line ends are folded to: one makes a space, and each further one a line
end. -/
def fold (lineEnds : Nat) : List Char :=
  if lineEnds = 1 then [' '] else List.replicate (lineEnds - 1) '\n'

/-- The white space inside an unquoted scalar, as it is kept, and the place after it. -/
def plainSpaces (p : Place) : List Char × Place :=
  let after := p.skipWhile (· == ' ')
  match after.rest with
  | '\n' :: _ =>
    let next := after.skipWhile fun c => c == ' ' || c == '\n'
    (fold (next.line - after.line), next)
  | _ => (p.rest.takeWhile (· == ' '), after)

/-- The rest of an unquoted scalar. `acc` holds what was read of it, and `kept` the white space
after that; outside of brackets the scalar ends where a line begins left of `indent`. -/
def readPlain (flow : Bool) (indent : Nat) :
    Nat → List Char → List Char → Place → List Char × Place
  | 0, acc, _, p => (acc, p)
  | fuel + 1, acc, kept, p =>
    let n := plainRun flow p.rest
    if p.rest.head? == some '#' || n = 0 then (acc, p)
    else
      let acc := acc ++ kept ++ p.rest.take n
      let (kept, after) := plainSpaces (p.forward n)
      if kept.isEmpty || (!flow && after.column < indent) then (acc, after)
      else readPlain flow indent fuel acc kept after

def quotedSpaces (p : Place) : List Char × Place :=
  let isSpace (c : Char) : Bool := c == ' ' || c == '\t'
  let after := p.skipWhile isSpace
  match after.rest with
  | '\n' :: _ =>
    let next := after.skipWhile fun c => isSpace c || c == '\n'
    (fold (next.line - after.line), next)
  | _ => (p.rest.takeWhile isSpace, after)

def escapes : List (Char × Nat) := [
  ('0', 0), ('a', 7), ('b', 8), ('\t', 9), ('t', 9), ('n', 10), ('v', 11), ('f', 12), ('r', 13),
  ('e', 27), (' ', 32), ('\x22', 34), ('/', 47), ('\\', 92), ('N', 0x85), ('_', 0xA0),
  ('L', 0x2028), ('P', 0x2029)]

/-- The number of hexadecimal digits that an escape takes. -/
def hexEscapes : List (Char × Nat) := [('x', 2), ('u', 4), ('U', 8)]

/-- What an escape stands for, and the place after it; the place is that after the backslash. -/
def readEscape (p : Place) : Option (List Char × Place) :=
  match p.rest with
  | [] => none
  | '\n' :: _ =>
    let next := p.skipWhile fun c => c == ' ' || c == '\t' || c == '\n'
    some (List.replicate (next.line - p.line - 1) '\n', next)
  | c :: rest =>
    match escapes.lookup c, hexEscapes.lookup c with
    | some n, _ => some ([Char.ofNat n], p.forward 1)
    | none, some width =>
      let ds := rest.take width
      if ds.length < width then none
      else (JsonText.hexNumber? ds).map fun n => ([Char.ofNat n], p.forward (width + 1))
    | none, none => none

/-- The rest of a quoted scalar; `acc` holds what was read of it. -/
def readQuoted (mark : Char) : Nat → List Char → Place → Option (List Char × Place)
  | 0, _, _ => none
  | fuel + 1, acc, p =>
    match p.rest with
    | [] => none
    | c :: rest =>
      if c == mark then
        if mark.toNat == 39 && rest.head? == some mark then
          readQuoted mark fuel (acc ++ [mark]) (p.forward 2)
        else some (acc, p.forward 1)
      else if c == '\\' && mark.toNat == 34 then
        match readEscape (p.forward 1) with
        | none => none
        | some (cs, p) => readQuoted mark fuel (acc ++ cs) p
      else if c == ' ' || c == '\t' || c == '\n' then
        let (kept, p) := quotedSpaces p
        readQuoted mark fuel (acc ++ kept) p
      else readQuoted mark fuel (acc ++ [c]) (p.forward 1)

def readScalar (flow : Bool) (indent : Nat) (p : Place) : Option (Datum × Place) :=
  let fuel := p.rest.length + 1
  match p.rest with
  | [] => none
  | c :: _ =>
    if c.toNat == 34 || c.toNat == 39 then
      (readQuoted c fuel [] (p.forward 1)).map fun (cs, p) => (.text (String.ofList cs), p)
    else if startsPlain flow p.rest then
      let (cs, p) := readPlain flow indent fuel [] [] p
      (resolve cs).map fun d => (d, p)
    else none

/-! ## Collections in brackets -/

/-- The place after a colon that makes a key of what began at a place and ended at another; inside
of brackets the colon needs no white space after it. -/
def afterColon? (flow : Bool) (start stop : Place) : Option Place :=
  let p := stop.skipWhile (· == ' ')
  if start.line = p.line && p.rest.head? == some ':' && (flow || startsBlank (p.rest.drop 1)) then
    some (p.forward 1)
  else none

mutual

def readFlow : Nat → Place → Option (Datum × Place)
  | 0, _ => none
  | fuel + 1, p =>
    match p.rest with
    | '[' :: _ => (readFlowItems fuel [] (p.forward 1).token).map fun (items, p) => (.list items, p)
    | '{' :: _ =>
      (readFlowEntries fuel [] (p.forward 1).token).map fun (entries, p) => (.mapping entries, p)
    | _ => readScalar true 0 p

/-- A key inside of brackets with its value, which may be missing; or a value alone. -/
def readFlowPair : Nat → Place → Option (Datum × Option Datum × Place)
  | 0, _ => none
  | fuel + 1, p =>
    match readFlow fuel p with
    | none => none
    | some (key, after) =>
      match afterColon? true p after with
      | none => some (key, none, after.token)
      | some next =>
        let next := next.token
        match next.rest with
        | [] => none
        | c :: _ =>
          if c == ',' || c == ']' || c == '}' then some (key, some .null, next)
          else (readFlow fuel next).map fun (value, p) => (key, some value, p.token)

/-- The rest of a list in brackets; `acc` holds the items before, in reverse. -/
def readFlowItems : Nat → List Datum → Place → Option (List Datum × Place)
  | 0, _, _ => none
  | fuel + 1, acc, p =>
    match p.rest with
    | ']' :: _ => some (acc.reverse, p.forward 1)
    | _ =>
      match readFlowPair fuel p with
      | none => none
      | some (key, value, p) =>
        let item := match value with
          | none => key
          | some value => .mapping [(key, value)]
        match p.rest with
        | ',' :: _ => readFlowItems fuel (item :: acc) (p.forward 1).token
        | ']' :: _ => some ((item :: acc).reverse, p.forward 1)
        | _ => none

def readFlowEntries : Nat → List (Datum × Datum) → Place → Option (List (Datum × Datum) × Place)
  | 0, _, _ => none
  | fuel + 1, acc, p =>
    match p.rest with
    | '}' :: _ => some (acc.reverse, p.forward 1)
    | _ =>
      match readFlowPair fuel p with
      | none => none
      | some (key, value, p) =>
        let acc := (key, value.getD .null) :: acc
        match p.rest with
        | ',' :: _ => readFlowEntries fuel acc (p.forward 1).token
        | '}' :: _ => some (acc.reverse, p.forward 1)
        | _ => none

end

/-! ## Collections by indentation -/

def isKey : Datum → Bool
  | .list _ => false
  | .mapping _ => false
  | _ => true

/-- A scalar or a collection in brackets; a scalar goes on in lines that begin at `indent`. -/
def readItem (fuel indent : Nat) (p : Place) : Option (Datum × Place) :=
  match p.rest with
  | '[' :: _ => readFlow fuel p
  | '{' :: _ => readFlow fuel p
  | _ => readScalar false indent p

mutual

/-- A value that begins a line, or follows the sign of a list item, with an indentation of at
least `indent`. -/
def readBlock : Nat → Nat → Place → Option (Datum × Place)
  | 0, _, _ => none
  | fuel + 1, indent, p =>
    if p.atEnd || p.column < indent then some (.null, p)
    else if startsWith '-' p.rest then
      (readBlockItems fuel p.column false [] p).map fun (items, p) => (.list items, p)
    else
      match readItem fuel indent p with
      | none => none
      | some (item, after) =>
        match afterColon? false p after with
        | none => some (item, after.token)
        | some _ => (readBlockEntries fuel p.column [] p).map fun (es, p) => (.mapping es, p)

/-- The rest of a list by indentation, whose items begin in a column; `acc` holds the items before,
in reverse. The list of a mapping may begin in the column of the mapping, and ends at its next
key. -/
def readBlockItems : Nat → Nat → Bool → List Datum → Place → Option (List Datum × Place)
  | 0, _, _, _, _ => none
  | fuel + 1, column, inMapping, acc, p =>
    if p.atEnd || p.column < column then some (acc.reverse, p)
    else if column < p.column then none
    else if !startsWith '-' p.rest then if inMapping then some (acc.reverse, p) else none
    else
      match readBlock fuel (column + 1) (p.forward 1).token with
      | none => none
      | some (item, p) => readBlockItems fuel column inMapping (item :: acc) p

/-- The rest of a mapping by indentation, whose keys begin in a column; `acc` holds the entries
before, in reverse. -/
def readBlockEntries :
    Nat → Nat → List (Datum × Datum) → Place → Option (List (Datum × Datum) × Place)
  | 0, _, _, _ => none
  | fuel + 1, column, acc, p =>
    if p.atEnd || p.column < column then some (acc.reverse, p)
    else if column < p.column || startsWith '-' p.rest then none
    else
      match readItem fuel (column + 1) p with
      | none => none
      | some (key, after) =>
        match afterColon? false p after with
        | none => none
        | some next =>
          if !isKey key then none
          else
            match readBlockValue fuel column next with
            | none => none
            | some (value, p) => readBlockEntries fuel column ((key, value) :: acc) p

/-- The value of a key: on the same line, where no further key may follow, or below. -/
def readBlockValue : Nat → Nat → Place → Option (Datum × Place)
  | 0, _, _ => none
  | fuel + 1, column, p =>
    let start := p.token
    if start.atEnd then some (.null, start)
    else if start.line = p.line then
      match readItem fuel (column + 1) start with
      | none => none
      | some (value, after) =>
        match afterColon? false start after with
        | some _ => none
        | none => some (value, after.token)
    else if start.column = column && startsWith '-' start.rest then
      (readBlockItems fuel column true [] start).map fun (items, p) => (.list items, p)
    else readBlock fuel (column + 1) start

end

/-! ## Documents -/

def isMark (mark : Char) (line : List Char) : Bool :=
  line.take 3 == [mark, mark, mark] && startsBlank (line.drop 3)

def isIdle (line : List Char) : Bool :=
  match line.dropWhile (· == ' ') with
  | [] => true
  | c :: _ => c == '#'

/-- Where the document of a text begins: after a mark, if there is one; and whether there is. -/
def documentStart : List (List Char) → Option (List (List Char) × Bool)
  | [] => some ([], false)
  | line :: rest =>
    if isMark '-' line then some (([' ', ' ', ' '] ++ line.drop 3) :: rest, true)
    else if isIdle line then documentStart rest
    else if line.head? == some '%' then
      match documentStart rest with
      | some (lines, true) => some (lines, true)
      | _ => none
    else some (line :: rest, false)

/-- Whether nothing but comments and end marks are left after a document. -/
def endsThere (lines : List (List Char)) : Bool :=
  lines.all fun line => isIdle line || isMark '.' line

def onlyDocument (lines : List (List Char)) : Option (List (List Char)) :=
  let isEnd (line : List Char) : Bool := isMark '-' line || isMark '.' line
  let body := lines.takeWhile fun line => !isEnd line
  if endsThere (lines.drop body.length) then some body else none

def isAllowed (c : Char) : Bool :=
  let n := c.toNat
  n == 9 || n == 10 || n == 13 || (0x20 ≤ n && n ≤ 0x7E) || n == 0x85 ||
    (0xA0 ≤ n && n != 0xFFFE && n != 0xFFFF)

/-- Whether a value can stand on the line of a mark that begins the document: no list by
indentation. -/
def readMarked (fuel : Nat) (p : Place) : Option (Datum × Place) :=
  if startsWith '-' p.rest then none
  else
    match readItem fuel 0 p with
    | none => none
    | some (value, after) =>
      match afterColon? false p after with
      | some _ => none
      | none => some (value, after.token)

def parse (cs : List Char) : Option Datum :=
  if !cs.all isAllowed then none
  else
    let cs := if cs.head? == some '\uFEFF' then cs.drop 1 else cs
    let isLineEnd (c : Char) : Bool := [0x85, 0x2028, 0x2029].contains c.toNat
    let text := (normalizeNewlines cs).map fun c => if isLineEnd c then '\n' else c
    match documentStart (splitOnChar '\n' text) with
    | none => none
    | some (lines, marked) =>
      match onlyDocument lines with
      | none => none
      | some lines =>
        let source : List Char := ['\n'].intercalate lines
        let p := (⟨source, 0, 0⟩ : Place).token
        let fuel := 4 * source.length + 8
        let result := if p.atEnd then some (.null, p)
          else if marked && p.line = 0 then readMarked fuel p
          else readBlock fuel 0 p
        match result with
        | some (value, p) => if p.atEnd then some value else none
        | none => none

end YamlText
end Calculator
