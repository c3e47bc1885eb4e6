import C64.Toml.Value

/-!
# Scalars of TOML

Strings, numbers and dates, with the blanks, comments and line ends around them. A reader takes
the text that is left and answers what it read with the text behind it, or nothing.
-/

namespace C64.Toml

/-- A reader of things of a type. -/
abbrev Reader (α : Type) := List Char → Option (α × List Char)

/-! ## Blanks and lines -/

/-- A blank within a line. -/
def isBlank (c : Char) : Bool := c = ' ' || c = '\t'

/-- A character that needs no escape: anything but control characters, of which the tab is
allowed. -/
def isPlain (c : Char) : Bool := c = '\t' || (0x20 ≤ c.toNat && c.toNat ≠ 0x7F)

def skipBlanks (cs : List Char) : List Char := cs.dropWhile isBlank

/-- Skips a comment, if one begins. -/
def skipComment : List Char → List Char
  | '#' :: cs => cs.dropWhile isPlain
  | cs => cs

/-- The text behind the end of a line. -/
def newline? : List Char → Option (List Char)
  | '\n' :: cs => some cs
  | '\r' :: '\n' :: cs => some cs
  | _ => none

/-- The text behind the current line, of which only blanks and a comment may be left. -/
def endLine (cs : List Char) : Option (List Char) :=
  match skipComment (skipBlanks cs) with
  | [] => some []
  | cs => newline? cs

/-- Reads things one after another as long as there are any, behind those of `before`, the latest
of which comes first. Never more of them than `bound` is long. -/
def manyFrom {α : Type} (step : Reader α) :
    (bound : List Char) → (before : List α) → (cs : List Char) → List α × List Char
  | [], before, cs => (before.reverse, cs)
  | _ :: bound, before, cs =>
    match step cs with
    | some (a, rest) => manyFrom step bound (a :: before) rest
    | none => (before.reverse, cs)

/-- Reads things one after another as long as there are any. Each takes a character at least, so
the text is bound enough. -/
def many {α : Type} (step : Reader α) (cs : List Char) : List α × List Char :=
  manyFrom step cs [] cs

/-- Skips blanks, comments and line ends. -/
def skipLines (cs : List Char) : List Char :=
  (many (fun cs =>
    match skipComment (skipBlanks cs) with
    | [] => none
    | cs => (newline? cs).map ((), ·)) cs).2.dropWhile isBlank

/-- Skips blanks and line ends. -/
def skipEmpty (cs : List Char) : List Char :=
  (many (fun cs =>
    match cs with
    | c :: rest => if isBlank c then some ((), rest) else (newline? cs).map ((), ·)
    | [] => none) cs).2

/-! ## Strings -/

/-- The value of a hexadecimal digit. -/
def hexValue? (c : Char) : Option Nat :=
  if c.isDigit then some (c.toNat - '0'.toNat)
  else if 'a' ≤ c ∧ c ≤ 'f' then some (c.toNat - 'a'.toNat + 10)
  else if 'A' ≤ c ∧ c ≤ 'F' then some (c.toNat - 'A'.toNat + 10)
  else none

/-- A number from its digits. -/
def ofDigitValues (base : Nat) (digits : List Nat) : Nat := digits.foldl (· * base + ·) 0

/-- The character with a number of `n` hexadecimal digits. -/
def hexChar (n : Nat) (cs : List Char) : Option (Char × List Char) := do
  let digits ← (cs.take n).mapM hexValue?
  let code := ofDigitValues 16 digits
  if digits.length = n ∧ code.isValidChar then return (Char.ofNat code, cs.drop n) else none

/-- What stands for a character behind a backslash. -/
def escape : Reader Char
  | 'b' :: cs => some ('\x08', cs)
  | 't' :: cs => some ('\t', cs)
  | 'n' :: cs => some ('\n', cs)
  | 'f' :: cs => some ('\x0c', cs)
  | 'r' :: cs => some ('\r', cs)
  | '"' :: cs => some ('"', cs)
  | '\\' :: cs => some ('\\', cs)
  | 'u' :: cs => hexChar 4 cs
  | 'U' :: cs => hexChar 8 cs
  | _ => none

/-- A character of a string in double quotes. -/
def basicChar : Reader Char
  | '\\' :: cs => escape cs
  | c :: cs => if isPlain c ∧ c ≠ '"' then some (c, cs) else none
  | [] => none

/-- A character of a string in single quotes, which knows no escapes. -/
def literalChar : Reader Char
  | c :: cs => if isPlain c ∧ c ≠ '\'' then some (c, cs) else none
  | [] => none

/-- The rest of a string on one line, behind its first quote. -/
def lineString (quote : Char) (char : Reader Char) : Reader String := fun cs =>
  match many char cs with
  | (text, c :: rest) => if c = quote then some (String.ofList text, rest) else none
  | (_, []) => none

/-- A piece of a string of several lines: a character, a line end, or a backslash that swallows
the line end behind it with all blanks and line ends that follow. -/
def multiLinePiece (char : Reader Char) (escapes : Bool) (cs : List Char) :
    Option (List Char × List Char) :=
  match newline? cs with
  | some rest => some (['\n'], rest)
  | none =>
    let swallowed :=
      match escapes, cs with
      | true, '\\' :: rest => newline? (skipBlanks rest)
      | _, _ => none
    match swallowed with
    | some rest => some ([], skipEmpty rest)
    | none => (char cs).map fun (c, rest) => ([c], rest)

/-- The rest of a string of several lines, behind its first three quotes. One or two quotes may
stand anywhere in it, at its end too. -/
def multiLineString (quote : Char) (char : Reader Char) (cs : List Char) :
    Option (String × List Char) :=
  let piece (cs : List Char) : Option (List Char × List Char) :=
    let quotes := cs.takeWhile (· = quote)
    if quotes.length = 0 then multiLinePiece char (quote = '"') cs
    else if quotes.length < 3 then some (quotes, cs.drop quotes.length)
    else none
  let (pieces, rest) := many piece ((newline? cs).getD cs)
  let quotes := rest.takeWhile (· = quote)
  if 3 ≤ quotes.length ∧ quotes.length ≤ 5 then
    some (String.ofList (pieces.flatten ++ quotes.drop 3), rest.drop quotes.length)
  else none

/-- A string on one line. -/
def keyString : Reader String
  | '"' :: cs => lineString '"' basicChar cs
  | '\'' :: cs => lineString '\'' literalChar cs
  | _ => none

/-- A string of either form. -/
def string : Reader String
  | '"' :: '"' :: '"' :: cs => multiLineString '"' basicChar cs
  | '\'' :: '\'' :: '\'' :: cs => multiLineString '\'' literalChar cs
  | cs => keyString cs

/-! ## Numbers -/

/-- Digits, in groups that single underscores may divide. -/
def digitGroups (base : Nat) (cs : List Char) : Option (List Nat × List Char) :=
  let digit (c : Char) : Option Nat := (hexValue? c).filter (· < base)
  let next : Reader Nat
    | '_' :: c :: cs => (digit c).map (·, cs)
    | c :: cs => (digit c).map (·, cs)
    | [] => none
  match cs with
  | '_' :: _ => none
  | cs =>
    match many next cs with
    | ([], _) | (_, '_' :: _) => none
    | r => some r

/-- A sign in front of a number; whether it is a minus. -/
def sign : List Char → Bool × List Char
  | '-' :: cs => (true, cs)
  | '+' :: cs => (false, cs)
  | cs => (false, cs)

/-- The digits of a decimal number. A zero in front stands alone. -/
def decimalDigits : Reader (List Nat)
  | '0' :: cs => some ([0], cs)
  | cs => digitGroups 10 cs

/-- The least number that is no finite float of sixty-four bits. -/
def floatLimit : Nat := (1 <<< 1024) - (1 <<< 970)

/-- Whether a number of some digits and an exponent of ten is below `floatLimit`, which is so if
its whole part is. -/
def isFinite (digits : List Nat) (exponent : Int) : Bool :=
  let digits := digits.dropWhile (· = 0)
  let size := digits.length + exponent
  if digits.isEmpty then true
  else if 310 < size then false
  else ofDigitValues 10 ((digits.take size.toNat).rightpad size.toNat 0) < floatLimit

/-- The size of an exponent. Once it is large enough to settle things alone, more digits of it
change nothing. -/
def exponentSize (digits : List Nat) : Nat :=
  digits.foldl (fun n d => if n < 0x10000 then n * 10 + d else n) 0

/-- The exponent of a float. -/
def exponent? : List Char → Option (Option (Int × List Char))
  | c :: cs =>
    if c = 'e' ∨ c = 'E' then
      let (negative, cs) := sign cs
      some ((digitGroups 10 cs).map fun (digits, rest) =>
        let n : Int := exponentSize digits
        (if negative then -n else n, rest))
    else none
  | [] => none

/-- The rest of a float behind its digits before the point. -/
def floatTail (negative : Bool) (whole fraction : List Nat) : Reader Value := fun cs => do
  let (e, rest) ← (exponent? cs).getD (some (0, cs))
  if negative ∨ isFinite (whole ++ fraction) (e - fraction.length) then return (.float, rest)
  else none

/-- A number of sixty-four bits from its sign and its digits. With more than sixty-four digits
behind its zeros it is too large in any base. -/
def integerOf (negative : Bool) (base : Nat) (digits : List Nat) : Option Value :=
  let digits := digits.dropWhile (· = 0)
  let n := ofDigitValues base (digits.take 65)
  let i : Int := if negative then -n else n
  if -0x8000000000000000 ≤ i ∧ i < 0x8000000000000000 then some (.integer i) else none

/-- An integer in another base, behind its mark. -/
def markedInteger (base : Nat) (cs : List Char) : Option (Value × List Char) := do
  let (digits, rest) ← digitGroups base cs
  return (← integerOf false base digits, rest)

/-- A number. -/
def number : Reader Value
  | '0' :: 'x' :: cs => markedInteger 16 cs
  | '0' :: 'o' :: cs => markedInteger 8 cs
  | '0' :: 'b' :: cs => markedInteger 2 cs
  | cs =>
    let (negative, cs) := sign cs
    match cs with
    | 'i' :: 'n' :: 'f' :: rest | 'n' :: 'a' :: 'n' :: rest => some (.float, rest)
    | cs => do
      let (whole, rest) ← decimalDigits cs
      match rest with
      | '.' :: rest =>
        let (fraction, rest) ← digitGroups 10 rest
        floatTail negative whole fraction rest
      | rest =>
        if (exponent? rest).isSome then floatTail negative whole [] rest
        else return (← integerOf negative 10 whole, rest)

/-! ## Dates -/

/-- A number of exactly `n` digits within bounds. -/
def fixedNumber (n least greatest : Nat) (cs : List Char) : Option (Nat × List Char) := do
  let digits := cs.take n
  let value := ofDigitValues 10 (← digits.mapM fun c => (hexValue? c).filter (· < 10))
  if digits.length = n ∧ least ≤ value ∧ value ≤ greatest then return (value, cs.drop n) else none

/-- The text behind an expected character. -/
def expect (c : Char) : List Char → Option (List Char)
  | d :: cs => if d = c then some cs else none
  | [] => none

/-- Days of a month in the calendar of every year. -/
def daysIn (year month : Nat) : Nat :=
  if month = 2 then
    if year % 4 = 0 ∧ (year % 100 ≠ 0 ∨ year % 400 = 0) then 29 else 28
  else if month ∈ [4, 6, 9, 11] then 30
  else 31

/-- A date. -/
def day (cs : List Char) : Option (List Char) := do
  let (year, cs) ← fixedNumber 4 0 9999 cs
  let (month, cs) ← fixedNumber 2 1 12 (← expect '-' cs)
  let (_, cs) ← fixedNumber 2 1 (daysIn year month) (← expect '-' cs)
  return cs

/-- A time of the day, with a fraction of a second if there is one. -/
def time (cs : List Char) : Option (List Char) := do
  let (_, cs) ← fixedNumber 2 0 23 cs
  let (_, cs) ← fixedNumber 2 0 59 (← expect ':' cs)
  let (_, cs) ← fixedNumber 2 0 60 (← expect ':' cs)
  match cs with
  | '.' :: c :: rest => if c.isDigit then some (rest.dropWhile Char.isDigit) else some cs
  | cs => some cs

/-- The distance of a time from universal time, if one is given. -/
def offset (cs : List Char) : Option (List Char) := do
  match cs with
  | 'Z' :: rest | 'z' :: rest => some rest
  | c :: rest =>
    if c = '+' ∨ c = '-' then
      let (_, rest) ← fixedNumber 2 0 23 rest
      let (_, rest) ← fixedNumber 2 0 59 (← expect ':' rest)
      return rest
    else some cs
  | [] => some []

/-- Whether `n` digits and then a character come next. -/
def digitsThen (n : Nat) (c : Char) (cs : List Char) : Bool :=
  (cs.take n).all Char.isDigit && (cs.drop n).head? = some c

/-- A date, a time or both. -/
def date (cs : List Char) : Option (Value × List Char) := do
  if digitsThen 2 ':' cs then return (.date, ← time cs)
  let cs ← day cs
  match cs with
  | c :: rest =>
    if c ∈ ['T', 't', ' '] ∧ digitsThen 2 ':' rest then return (.date, ← offset (← time rest))
    else return (.date, cs)
  | [] => return (.date, [])

/-- A number, a date or a time. -/
def numberOrDate (cs : List Char) : Option (Value × List Char) :=
  if digitsThen 4 '-' cs || digitsThen 2 ':' cs then date cs else number cs

end C64.Toml
