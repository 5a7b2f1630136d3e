import Dashboard.Decimal.Literal
import Dashboard.Document
import Dashboard.Instant.Calendar
import Dashboard.Text.Scanner
import Dashboard.Value

/-!
# Reading TOML

A TOML text is a sequence of lines, each of which gives a value to a key, opens a table by
a header, or is blank. A key may be dotted, and then it leads through tables that come into
being on the way.

While the text is read, every table remembers how it came into being, because that decides
what may still be said about it: a header opens a table only once, it does not open a table
that dotted keys have made, and a dotted key does not lead into a table that a header has
opened.

A date or time has no counterpart in a document. It is kept as a table with a single field
that no record asks for.
-/

namespace Dashboard.Toml

open Text (Scanner)
open Text.Scanner

/-! ### Tables in the making -/

/-- How a table came into being. -/
inductive Origin where
  /-- By its own header; the table of the whole text counts as one of these. -/
  | header
  /-- By the header of a table inside it. -/
  | inner
  /-- By a dotted key. -/
  | dotted
  deriving DecidableEq, Repr

/-- What stands under a key. -/
inductive Node where
  | value (d : Document)
  | table (origin : Origin) (entries : List (String × Node))
  /-- Tables that share a header, at least one, in the order of the text. -/
  | series (elements : List (List (String × Node)))

/-- The keys of a table and what stands under them. -/
abbrev Entries := List (String × Node)

/-- A change of a table, which may be refused. -/
abbrev Change := Origin → Entries → Option Entries

/-- Changes what stands under a key, or refuses. -/
def change (key : String) (f : Option Node → Option Node) : Entries → Option Entries
  | [] => (f none).map fun node => [(key, node)]
  | (k, node) :: rest =>
    if k = key then (f (some node)).map fun node => (k, node) :: rest
    else (change key f rest).map fun rest => (k, node) :: rest

/-- Changes the table under a key; there has to be one, or nothing. Of several tables with
the same header the last one is meant. -/
def inside (dotted : Bool) (f : Change) : Option Node → Option Node
  | none =>
    let origin := if dotted then .dotted else .inner
    (f origin []).map (.table origin)
  | some (.value _) => none
  | some (.series elements) =>
    match elements.getLast? with
    | none => none
    | some last => (f .header last).map fun last => .series (elements.dropLast ++ [last])
  | some (.table origin entries) =>
    if dotted && origin == .header then none else (f origin entries).map (.table origin)

/-- Changes the table at the end of a path. -/
def descend (dotted : Bool) : List String → Change → Change
  | [], f => f
  | key :: path, f => fun _ => change key (inside dotted (descend dotted path f))

/-- Gives a value to a dotted key that has none. -/
def put (path : List String) (key : String) (d : Document) : Change :=
  descend true path fun origin entries =>
    if path.isEmpty == (origin == .dotted) then none
    else change key (fun
      | none => some (.value d)
      | some _ => none) entries

/-- Opens a table by its header. -/
def openTable (path : List String) (key : String) : Change :=
  descend false path fun _ => change key fun
    | none => some (.table .header [])
    | some (.table .inner entries) => some (.table .header entries)
    | some _ => none

/-- Opens one more table of a series by its header. -/
def openElement (path : List String) (key : String) : Change :=
  descend false path fun _ => change key fun
    | none => some (.series [[]])
    | some (.series elements) => some (.series (elements ++ [[]]))
    | some _ => none

mutual

/-- What stands under a key, as a document. -/
def Node.toDocument : Node → Document
  | .value d => d
  | .table _ entries => .table (fieldsOf entries)
  | .series elements => .list (tablesOf elements)

/-- The fields of a table. -/
def fieldsOf : List (String × Node) → List (String × Document)
  | [] => []
  | (key, node) :: rest => (key, node.toDocument) :: fieldsOf rest

/-- The tables of a series. -/
def tablesOf : List (List (String × Node)) → List Document
  | [] => []
  | entries :: rest => .table (fieldsOf entries) :: tablesOf rest

end

/-! ### Blanks and comments -/

/-- A blank inside a line. -/
def isBlank (c : Char) : Bool :=
  c == ' ' || c == '\t'

/-- Drops the blanks of a line. -/
def blanks : Scanner Unit :=
  skipWhile isBlank

/-- A character that may stand in a comment or a text. -/
def isPrintable (c : Char) : Bool :=
  c == '\t' || (0x20 ≤ c.toNat && c.toNat != 0x7F)

/-- Takes a line break. -/
def lineBreak : Scanner Unit :=
  char '\n' <|> word "\r\n"

/-- Takes a comment without the end of its line. -/
def comment : Scanner Unit := do
  char '#'
  skipWhile isPrintable

/-- Takes the rest of a line on which everything has been said. -/
def lineEnd : Scanner Unit := do
  blanks
  let _ ← optional comment
  if (← get).isEmpty then return else lineBreak

/-- Drops blanks, comments and line breaks, at most a number of them. -/
def layoutWithin : Nat → Scanner Unit
  | 0 => blanks
  | n + 1 => do
    blanks
    (do
      let _ ← optional comment
      lineBreak
      layoutWithin n) <|> (do
      let c ← get
      if c.head? == some '#' then failure else return)

/-- Drops blanks, comments and line breaks. -/
def layout : Scanner Unit := do
  layoutWithin (← get).length

/-! ### Texts -/

/-- The character that a numbered escape stands for. -/
def numbered (width : Nat) : Scanner Char := do
  let text ← get
  let digits := text.take width
  match natOfHex? digits with
  | some n =>
    if digits.length = width ∧ n.isValidChar then
      set (text.drop width)
      return Char.ofNat n
    else failure
  | none => failure

/-- Takes an escape without its backslash. -/
def escape : Scanner Char := do
  match ← satisfying fun _ => true with
  | 'b' => return '\x08'
  | 't' => return '\t'
  | 'n' => return '\n'
  | 'f' => return '\x0c'
  | 'r' => return '\r'
  | '"' => return '"'
  | '\\' => return '\\'
  | 'u' => numbered 4
  | 'U' => numbered 8
  | _ => failure

/-- Takes the rest of a text on one line, up to its quote. -/
def lineText (quote : Char) (escapes : Bool) : Nat → Scanner (List Char)
  | 0 => failure
  | n + 1 => do
    let c ← satisfying isPrintable
    if c = quote then return []
    else if c = '\\' ∧ escapes then
      let c ← escape
      return c :: (← lineText quote escapes n)
    else return c :: (← lineText quote escapes n)

/-- What is left of a text behind its blanks and line breaks. -/
def dropBreaks : List Char → List Char
  | '\r' :: '\n' :: rest => dropBreaks rest
  | c :: rest => if isBlank c || c == '\n' then dropBreaks rest else c :: rest
  | [] => []

/-- Takes a line break that a backslash hides, and all blanks and line breaks after it. -/
def hiddenBreak : Scanner Unit := do
  blanks
  lineBreak
  modify dropBreaks

/-- Takes the rest of a text that may have several lines, up to its three quotes. Up to two
more quotes in front of these belong to the text. -/
def linesText (quote : Char) (escapes : Bool) : Nat → Scanner (List Char)
  | 0 => failure
  | n + 1 => do
    let quotes ← takeQuotes
    if 3 ≤ quotes then return List.replicate (quotes - 3) quote
    else if 0 < quotes then
      return List.replicate quotes quote ++ (← linesText quote escapes n)
    else
      (do
        lineBreak
        return '\n' :: (← linesText quote escapes n)) <|> (do
        let c ← satisfying isPrintable
        if c = '\\' ∧ escapes then
          (do
            hiddenBreak
            linesText quote escapes n) <|> (do
            let c ← escape
            return c :: (← linesText quote escapes n))
        else return c :: (← linesText quote escapes n))
where
  /-- Takes quotes, at most five. -/
  takeQuotes : Scanner Nat := do
    let text ← get
    let quotes := (text.take 5).takeWhile (· == quote)
    set (text.drop quotes.length)
    return quotes.length

/-- Takes a text on one line. -/
def shortText : Scanner String := do
  let length := (← get).length
  (do
    char '"'
    return String.ofList (← lineText '"' true length)) <|> (do
    char '\''
    return String.ofList (← lineText '\'' false length))

/-- Takes a text that may have several lines. A line break right behind the opening quotes
does not belong to it. -/
def longText : Scanner String := do
  let length := (← get).length
  (do
    word "\"\"\""
    let _ ← optional lineBreak
    return String.ofList (← linesText '"' true length)) <|> (do
    word "'''"
    let _ ← optional lineBreak
    return String.ofList (← linesText '\'' false length))

/-! ### Keys -/

/-- A character of a key without quotes. -/
def isKeyChar (c : Char) : Bool :=
  ('a' ≤ c && c ≤ 'z') || ('A' ≤ c && c ≤ 'Z') || Text.isDigit c || c == '-' || c == '_'

/-- Takes one part of a key. -/
def simpleKey : Scanner String :=
  shortText <|> (do
    let chars ← takeWhile isKeyChar
    if chars.isEmpty then failure else return String.ofList chars)

/-- How many parts a key has at most, and how deep values nest at most. -/
def depthLimit : Nat := 79

/-- Takes the parts of a dotted key, at most a number of them: those in front of the last
one, and the last one. -/
def dottedKey : Nat → Scanner (List String × String)
  | 0 => failure
  | n + 1 => do
    blanks
    let first ← simpleKey
    blanks
    (do
      char '.'
      let (path, key) ← dottedKey n
      return (first :: path, key)) <|> (do
      if ← ahead '.' then failure else return ([], first))

/-- Takes a key. -/
def key : Scanner (List String × String) :=
  dottedKey depthLimit

/-! ### Numbers -/

/-- Takes digits with single underscores among them; the underscores are left out. -/
def groupedWithin (isDigit : Char → Bool) : Nat → Scanner (List Char)
  | 0 => failure
  | n + 1 => do
    let first ← satisfying isDigit
    (do
      let _ ← optional (char '_')
      return first :: (← groupedWithin isDigit n)) <|> return [first]

/-- Takes digits with single underscores among them; the underscores are left out. -/
def grouped (isDigit : Char → Bool) : Scanner (List Char) := do
  groupedWithin isDigit (← get).length

/-- Takes a sign. -/
def sign : Scanner (List Char) := do
  match ← optional (satisfying fun c => c == '+' || c == '-') with
  | some c => return [c]
  | none => return []

/-- Takes the digits of a whole number: a single zero, or digits that begin with another
digit. -/
def wholeDigits : Scanner (List Char) := do
  if ← ahead '0' then
    char '0'
    return ['0']
  else grouped Text.isDigit

/-- Whether a whole number fits in 64 bits with a sign. -/
def fits (n : Int) : Bool :=
  Int64.minValue.toInt ≤ n && n ≤ Int64.maxValue.toInt

/-- Takes the digits of a number to another base, behind their mark. -/
def based (mark : String) (base : Nat) : Scanner Int := do
  word mark
  let isDigit (c : Char) : Bool := (hexDigit? c).any (· < base)
  let digits ← grouped isDigit
  let n : Int := digits.foldl (fun n c => base * n + (hexDigit? c).getD 0) 0
  if fits n then return n else failure

/-- Takes a whole number. -/
def wholeNumber : Scanner Document := do
  let n ← based "0x" 16 <|> based "0o" 8 <|> based "0b" 2 <|> (do
    let mark ← sign
    let digits ← wholeDigits
    let n : Int := Decimal.natOfDigits digits
    let n := if mark = ['-'] then -n else n
    if fits n then return n else failure)
  return .integer n

/-- Takes the exponent of a number. -/
def exponent : Scanner (List Char) := do
  let _ ← satisfying fun c => c == 'e' || c == 'E'
  let mark ← sign
  return 'e' :: mark ++ (← grouped Text.isDigit)

/-- Takes the digits behind a point. -/
def fraction : Scanner (List Char) := do
  char '.'
  return '.' :: (← grouped Text.isDigit)

/-- Takes a number with a point or an exponent, or a word for one that has no digits. A
number beyond the largest double is refused. -/
def realNumber : Scanner Document := do
  let mark ← sign
  (do
    let whole ← wholeDigits
    let rest ← exponent <|> (do
      let digits ← fraction
      return digits ++ (← optional exponent).getD [])
    match Decimal.ofLiteral? (mark ++ whole ++ rest) with
    | some x => if x == 1.0 / 0.0 then failure else return .real x
    | none => failure) <|> (do
    word "inf"
    return .real (if mark = ['-'] then -1.0 / 0.0 else 1.0 / 0.0)) <|> (do
    word "nan"
    return .real Double.undefined)

/-! ### Dates and times -/

/-- Takes a date. -/
def date : Scanner Unit := do
  let year ← fixed 4 0 9999
  char '-'
  let month ← fixed 2 1 12
  char '-'
  let day ← fixed 2 1 31
  if (⟨year, month, day⟩ : Calendar.Date).exists then return else failure

/-- Takes a time of day. -/
def time : Scanner Unit := do
  let _ ← fixed 2 0 23
  char ':'
  let _ ← fixed 2 0 59
  char ':'
  let _ ← fixed 2 0 60
  (do
    char '.'
    let _ ← digits 1
    skipWhile Text.isDigit) <|> (do
    if ← ahead '.' then failure else return)

/-- Takes an offset from universal time. -/
def zone : Scanner Unit := do
  (do
    let _ ← satisfying fun c => c == 'Z' || c == 'z') <|> (do
    let _ ← satisfying fun c => c == '+' || c == '-'
    let _ ← fixed 2 0 23
    char ':'
    let _ ← fixed 2 0 59)

/-- Takes a date, a time or both. -/
def moment : Scanner Document := do
  (do
    date
    let _ ← optional (do
      let _ ← satisfying fun c => c == 'T' || c == 't' || c == ' '
      time
      let _ ← optional zone)) <|> time
  return .table [("$moment", .null)]

/-! ### Values -/

/-- Takes a value without parts. -/
def scalar : Scanner Document :=
  (do return .text (← longText)) <|> (do return .text (← shortText)) <|>
    (do word "true"; return .boolean true) <|> (do word "false"; return .boolean false) <|>
    moment <|> realNumber <|> wholeNumber

/-- Takes the rest of a list, given how to take one of its items. -/
def listTail (item : Scanner Document) : Nat → Scanner (List Document)
  | 0 => failure
  | n + 1 => do
    layout
    if ← ahead ']' then
      char ']'
      return []
    else
      let first ← item
      layout
      (do
        char ','
        return first :: (← listTail item n)) <|> (do
        char ']'
        return [first])

/-- Takes a list. -/
def list (item : Scanner Document) : Scanner Document := do
  char '['
  return .list (← listTail item (← get).length)

/-- Takes a key, the equals sign and a value. -/
def keyValue (item : Scanner Document) : Scanner ((List String × String) × Document) := do
  let k ← key
  char '='
  blanks
  return (k, ← item)

/-- Takes the rest of a table on one line, given the fields it has so far. -/
def tableTail (item : Scanner Document) : Nat → Entries → Scanner Entries
  | 0, _ => failure
  | n + 1, entries => do
    let ((path, key), d) ← keyValue item
    blanks
    match put path key d .header entries with
    | none => failure
    | some entries =>
      (do
        char ','
        tableTail item n entries) <|> (do
        char '}'
        return entries)

/-- Takes a table on one line. -/
def inlineTable (item : Scanner Document) : Scanner Document := do
  char '{'
  blanks
  if ← ahead '}' then
    char '}'
    return .table []
  else return .table (fieldsOf (← tableTail item (← get).length []))

/-- Takes a value whose lists and tables nest at most this deep. -/
def value : Nat → Scanner Document
  | 0 => scalar
  | depth + 1 => scalar <|> list (value depth) <|> inlineTable (value depth)

/-! ### Lines -/

/-- The tables of a text in the making, and the header that the next keys belong to. -/
structure Progress where
  root : Entries
  header : List String

/-- Goes on with other tables, or not at all if a change was refused. -/
def Progress.proceed (header : List String) : Option Entries → Scanner Progress
  | some root => return ⟨root, header⟩
  | none => failure

/-- Takes a line with the header of a table or of one more table of a series. -/
def headerLine (progress : Progress) : Scanner Progress := do
  (do
    word "[["
    let (path, k) ← key
    word "]]"
    lineEnd
    Progress.proceed (path ++ [k]) (openElement path k .header progress.root)) <|> (do
    char '['
    let (path, k) ← key
    char ']'
    lineEnd
    Progress.proceed (path ++ [k]) (openTable path k .header progress.root))

/-- Takes a line that gives a value to a key. -/
def valueLine (progress : Progress) : Scanner Progress := do
  let ((path, k), d) ← keyValue (value depthLimit)
  lineEnd
  Progress.proceed progress.header
    (descend false progress.header (put path k d) .header progress.root)

/-- Takes all lines, at most a number of them. -/
def lines : Nat → Progress → Scanner Progress
  | 0, progress => return progress
  | n + 1, progress => do
    blanks
    match ← get with
    | [] => return progress
    | c :: _ =>
      if c = '[' then lines n (← headerLine progress)
      else if c = '#' ∨ c = '\n' ∨ c = '\r' then
        lineEnd
        lines n progress
      else lines n (← valueLine progress)

/-- The document that a TOML text spells. -/
def read? (text : String) : Option Document := do
  let chars := match text.toList with
    | '\uFEFF' :: rest => rest
    | chars => chars
  match (lines (chars.length + 1) ⟨[], []⟩).run chars with
  | some (progress, []) => some (.table (fieldsOf progress.root))
  | _ => none

end Dashboard.Toml
