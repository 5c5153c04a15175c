import QScope.Obstacles
import QScope.Toml

/-! # Toml reading: the grammar of keys, values and statements

Every reader takes a text and gives what it read with the rest of the text, or nothing. Readers of
values, which may be too large, say why they give nothing. -/
namespace QScope.Toml.Reading
open CharacterClasses

abbrev Reader (α : Type) := Text → Option (α × Text)

/-- Why a text is not read: it is malformed, or it is refused for its size before that shows. -/
inductive Refusal
  | malformed
  | obstructed (obstacle : Obstacle)
deriving DecidableEq

abbrev Refused (α : Type) := Except Refusal α

def required {α : Type} : Option α → Refused α
  | some a => .ok a
  | none => .error .malformed

def isSpace (c : Char) : Bool := c == ' ' || c == '\t'

/-- Control characters other than the tab stand nowhere, and newlines only between statements and
in texts of several lines. -/
def isControl (c : Char) : Bool := (c.toNat < 32 && c != '\t') || c.toNat == 127

def skipSpace (t : Text) : Text := t.dropWhile isSpace

/-- The rest behind spaces, newlines and comments. -/
def skipLines (inComment : Bool) : Text → Option Text
  | [] => some []
  | c :: t =>
    if c = '\n' then skipLines false t
    else if inComment then if isControl c then none else skipLines true t
    else if isSpace c then skipLines false t
    else if c = '#' then skipLines true t
    else some (c :: t)

/-- The rest behind a comment, at the end of its line. -/
def skipComment (t : Text) : Option Text :=
  match t with
  | '#' :: u =>
    if (u.takeWhile (· != '\n')).any isControl then none else some (u.dropWhile (· != '\n'))
  | _ => some t

/-- The character with a hexadecimal code, unless that is a surrogate or too large. -/
def codedChar (digits : Text) : Option Char :=
  let n := Texts.hexValue digits
  if digits.all isHexDigit && n.isValidChar then some (Char.ofNat n) else none

def escapedChar : Char → Option Char
  | 'b' => some '\x08'
  | 't' => some '\t'
  | 'n' => some '\n'
  | 'f' => some '\x0c'
  | 'r' => some '\r'
  | '"' => some '"'
  | '\\' => some '\\'
  | _ => none

/-- A character in front of what is read next. -/
def push (c : Char) (read : Option (Text × Text)) : Option (Text × Text) :=
  read.map fun (t,rest) => (c :: t,rest)

/-- The rest of a text in double quotes on one line. -/
def basicText : Reader Text
  | [] => none
  | '"' :: t => some ([],t)
  | '\\' :: 'u' :: a :: b :: c :: d :: t =>
    (codedChar [a,b,c,d]).bind fun e => push e (basicText t)
  | '\\' :: 'U' :: a :: b :: c :: d :: e :: f :: g :: h :: t =>
    (codedChar [a,b,c,d,e,f,g,h]).bind fun e => push e (basicText t)
  | '\\' :: c :: t => (escapedChar c).bind fun e => push e (basicText t)
  | c :: t => if isControl c || c == '\\' then none else push c (basicText t)

/-- Up to two more quotes belong to a text of several lines that three of them end. -/
def closingQuotes (q : Char) : Reader Text
  | c :: d :: t =>
    if c = q then if d = q then some ([q,q],t) else some ([q],d :: t) else some ([],c :: d :: t)
  | [c] => if c = q then some ([q],[]) else some ([],[c])
  | [] => some ([],[])

/-- Where a text of several lines goes on behind a backslash at the end of a line: on that line, on
a later one, or at the point that is read. -/
inductive Continuation | here | untilNewline | untilText
deriving DecidableEq

/-- The rest of a text in threefold double quotes. -/
def longText (fold : Continuation) : Reader Text
  | [] => none
  | c :: t =>
    if fold = .untilNewline then
      if isSpace c then longText .untilNewline t
      else if c = '\n' then longText .untilText t
      else none
    else if fold = .untilText ∧ (isSpace c ∨ c = '\n') then longText .untilText t
    else match c,t with
      | '"','"' :: '"' :: u => closingQuotes '"' u
      | '\\','u' :: a :: b :: c :: d :: u =>
        (codedChar [a,b,c,d]).bind fun e => push e (longText .here u)
      | '\\','U' :: a :: b :: c :: d :: e :: f :: g :: h :: u =>
        (codedChar [a,b,c,d,e,f,g,h]).bind fun e => push e (longText .here u)
      | '\\','\n' :: u => longText .untilText u
      | '\\',d :: u =>
        if isSpace d then longText .untilNewline u
        else (escapedChar d).bind fun e => push e (longText .here u)
      | '\\',[] => none
      | c,u => if isControl c && c != '\n' then none else push c (longText .here u)

/-- The rest of a text in single quotes on one line. -/
def literalText : Reader Text
  | [] => none
  | '\'' :: t => some ([],t)
  | c :: t => if isControl c then none else push c (literalText t)

/-- The rest of a text in threefold single quotes. -/
def longLiteral : Reader Text
  | [] => none
  | '\'' :: '\'' :: '\'' :: t => closingQuotes '\'' t
  | c :: t => if isControl c && c != '\n' then none else push c (longLiteral t)

/-- A newline directly behind the opening quotes is no part of a text. -/
def skipNewline (t : Text) : Text :=
  match t with
  | '\n' :: u => u
  | _ => t

def quotedText? : Text → Option (Option (Text × Text))
  | '"' :: '"' :: '"' :: t => some (longText .here (skipNewline t))
  | '"' :: t => some (basicText t)
  | '\'' :: '\'' :: '\'' :: t => some (longLiteral (skipNewline t))
  | '\'' :: t => some (literalText t)
  | _ => none

def isBare (c : Char) : Bool := c.isAlphanum || c == '-' || c == '_'

def keyPart : Reader Text
  | '"' :: t => basicText t
  | '\'' :: t => literalText t
  | t => if t.head?.any isBare then some (t.span isBare) else none

/-- A key of at most `n` parts, with the spaces behind it. -/
def key : Nat → Reader Key
  | 0,_ => none
  | n + 1,t => do
    let (part,u) ← keyPart t
    match skipSpace u with
    | '.' :: v => (key n (skipSpace v)).map fun (parts,w) => (part :: parts,w)
    | v => some ([part],v)

/-- A run of digits, in which one underscore may stand between two digits. -/
def digits (isDigit : Char → Bool) : Text → Text × Text
  | [] => ([],[])
  | '_' :: c :: t =>
    if isDigit c then let (ds,rest) := digits isDigit t; (c :: ds,rest) else ([],'_' :: c :: t)
  | c :: t => if isDigit c then let (ds,rest) := digits isDigit t; (c :: ds,rest) else ([],c :: t)

/-- A run that begins with a digit. -/
def run (isDigit : Char → Bool) (t : Text) : Option (Text × Text) :=
  if t.head?.any isDigit then some (digits isDigit t) else none

def number (ds : Text) : Nat := Nat.ofDigitChars 10 ds 0

/-- A sign, if there is one: whether it is a minus, and the rest. -/
def sign (t : Text) : Bool × Text :=
  match t with
  | '-' :: u => (true,u)
  | '+' :: u => (false,u)
  | _ => (false,t)

def signed (negative : Bool) (n : Nat) : Int := if negative then -n else n

/-- The digits behind a point. -/
def fraction (t : Text) : Text × Text :=
  match t with
  | '.' :: u => (run Char.isDigit u).getD ([],t)
  | _ => ([],t)

def exponent (t : Text) : Option (Int × Text) :=
  match t with
  | c :: u =>
    if c = 'e' ∨ c = 'E' then
      let (negative,v) := sign u
      (run Char.isDigit v).map fun (ds,rest) => (signed negative (number ds),rest)
    else none
  | [] => none

/-- A decimal integer, unless it is too long. -/
def wholeNumber (negative : Bool) (ds : Text) : Except Obstacle Value :=
  if Limits.integerDigits < ds.length then .error .longInteger
  else .ok (.integer (signed negative (number ds)))

/-- A decimal integer or fraction. No digit follows a zero in front. -/
def decimalNumber (t : Text) : Option (Except Obstacle (Value × Text)) :=
  let (negative,u) := sign t
  let whole := match u with
    | '0' :: v => some (['0'],v)
    | _ => run Char.isDigit u
  whole.map fun (ds,v) =>
    let (fs,w) := fraction v
    match exponent w with
    | some (e,rest) => .ok (.decimal negative ⟨number (ds ++ fs),e - fs.length⟩,rest)
    | none =>
      if fs.isEmpty then (wholeNumber negative ds).map fun n => (n,w)
      else .ok (.decimal negative ⟨number (ds ++ fs),-fs.length⟩,w)

def isBinaryDigit (c : Char) : Bool := c == '0' || c == '1'

def inBase (base : Nat) (ds : Text) : Int :=
  (ds.foldl (fun n c => base * n + Texts.hexValue [c]) 0 : Nat)

/-- An integer in hexadecimal, binary or octal digits. -/
def basedNumber (t : Text) : Option (Value × Text) :=
  match t with
  | '0' :: 'x' :: u => (run isHexDigit u).map fun (ds,rest) => (.integer (inBase 16 ds),rest)
  | '0' :: 'b' :: u => (run isBinaryDigit u).map fun (ds,rest) => (.integer (inBase 2 ds),rest)
  | '0' :: 'o' :: u => (run isOctalDigit u).map fun (ds,rest) => (.integer (inBase 8 ds),rest)
  | _ => none

/-- Infinities and what is no number. -/
def specialNumber (t : Text) : Option (Value × Text) :=
  let (negative,u) := sign t
  match u with
  | 'i' :: 'n' :: 'f' :: rest => some (.infinity negative,rest)
  | 'n' :: 'a' :: 'n' :: rest => some (.notANumber,rest)
  | _ => none

/-- A number of two digits up to a limit. -/
def twoDigits (limit : Nat) : Reader Nat
  | a :: b :: t =>
    if a.isDigit && b.isDigit && number [a,b] ≤ limit then some (number [a,b],t) else none
  | _ => none

def expect (c : Char) : Text → Option Text
  | d :: t => if c = d then some t else none
  | [] => none

/-- A year, a month and a day, which the calendar need not have. -/
def dateDigits : Reader Date
  | a :: b :: c :: d :: '-' :: t =>
    if [a,b,c,d].all Char.isDigit then do
      let (month,u) ← twoDigits 12 t
      let (day,v) ← (expect '-' u).bind (twoDigits 31)
      if month = 0 ∨ day = 0 then none else some (⟨number [a,b,c,d],month,day⟩,v)
    else none
  | _ => none

/-- A time of day with at most six places of a second; further digits are dropped. -/
def clockDigits (t : Text) : Option (Clock × Text) := do
  let (hour,u) ← twoDigits 23 t
  let (minute,v) ← (expect ':' u).bind (twoDigits 59)
  let (second,w) ← (expect ':' v).bind (twoDigits 59)
  match w with
  | '.' :: x =>
    match x.span Char.isDigit with
    | ([],_) => some (⟨hour,minute,second,0⟩,w)
    | (ds,rest) => some (⟨hour,minute,second,number ((ds ++ List.replicate 6 '0').take 6)⟩,rest)
  | _ => some (⟨hour,minute,second,0⟩,w)

/-- The distance from universal time behind a time of day. -/
def offset (t : Text) : Option (Offset × Text) :=
  match t with
  | c :: u =>
    if c = 'Z' ∨ c = 'z' then some (0,u)
    else if c = '+' ∨ c = '-' then do
      let (hours,v) ← twoDigits 23 u
      let (minutes,w) ← (expect ':' v).bind (twoDigits 59)
      some (signed (c == '-') (60 * hours + minutes),w)
    else none
  | [] => none

def isLeapYear (y : Nat) : Bool := y % 4 == 0 && (y % 100 != 0 || y % 400 == 0)

def monthLength (year : Nat) : Nat → Nat
  | 2 => if isLeapYear year then 29 else 28
  | 4 | 6 | 9 | 11 => 30
  | _ => 31

def Date.isValid (d : Date) : Bool := 1 ≤ d.year && d.day ≤ monthLength d.year d.month

/-- A date, and a time of day if one follows behind a `T` or a space. -/
def dateValue (d : Date) (t : Text) : Value × Text :=
  let behind := match t with
    | c :: u => if c = 'T' ∨ c = 't' ∨ c = ' ' then clockDigits u else none
    | [] => none
  match behind with
  | none => (.date d,t)
  | some (c,u) =>
    match offset u with
    | some (o,v) => (.moment d c (some o),v)
    | none => (.moment d c none,u)

/-- Numbers, in the order in which they are tried. -/
def numberValue (t : Text) : Refused (Value × Text) :=
  match basedNumber t,decimalNumber t with
  | some read,_ => .ok read
  | none,some read => read.mapError .obstructed
  | none,none => required (specialNumber t)

/-- Switches, dates, times and numbers. -/
def plainValue (t : Text) : Refused (Value × Text) :=
  match t with
  | 't' :: 'r' :: 'u' :: 'e' :: u => .ok (.boolean true,u)
  | 'f' :: 'a' :: 'l' :: 's' :: 'e' :: u => .ok (.boolean false,u)
  | _ =>
    match dateDigits t with
    | some (d,u) => if Date.isValid d then .ok (dateValue d u) else .error .malformed
    | none =>
      match clockDigits t with
      | some (c,u) => .ok (.clock c,u)
      | none => numberValue t

/-- What is left of `steps` inside a value that takes some of them. -/
def inside (steps taken : Nat) : Refused Nat :=
  if taken ≤ steps then .ok (steps - taken) else .error (.obstructed .deepNesting)

mutual

/-- A value that nests no further than `steps` allow. No value nests further than `n`. -/
def value : Nat → Nat → Text → Refused (Value × Text)
  | 0,_,_ => .error .malformed
  | n + 1,steps,t =>
    match t with
    | '[' :: u => do
      let left ← inside steps 2
      let (vs,v) ← items n left (← required (skipLines false u))
      return (.array vs,v)
    | '{' :: u => do
      let left ← inside steps 3
      match skipSpace u with
      | '}' :: v => return (.table [],v)
      | v =>
        let (members,w) ← members n left ([],[]) v
        return (.table members,w)
    | _ => do
      let _ ← inside steps 1
      match quotedText? t with
      | some read =>
        let (x,u) ← required read
        return (.text x,u)
      | none => plainValue t

/-- The items of an array and the bracket behind them. A comma may stand after the last. -/
def items : Nat → Nat → Text → Refused (List Value × Text)
  | 0,_,_ => .error .malformed
  | n + 1,steps,t =>
    match t with
    | ']' :: u => .ok ([],u)
    | _ => do
      let (v,u) ← value n steps t
      match (← required (skipLines false u)) with
      | ']' :: w => return ([v],w)
      | ',' :: w =>
        let (vs,x) ← items n steps (← required (skipLines false w))
        return (v :: vs,x)
      | _ => .error .malformed

/-- The other pairs of an inline table and the brace behind them, all on one line. -/
def members : Nat → Nat → Inline → Text → Refused (Table × Text)
  | 0,_,_,_ => .error .malformed
  | n + 1,steps,i,t => do
    let (k,u) ← required (key t.length t)
    let v ← required (expect '=' u)
    let (x,w) ← value n steps (skipSpace v)
    let j ← required (i.add (k,x))
    match skipSpace w with
    | '}' :: rest => return (j.1,rest)
    | ',' :: rest => members n steps j (skipSpace rest)
    | _ => .error .malformed

end

/-- Reading a value of a text takes no more calls than this within each other. -/
def depth (t : Text) : Nat := 2 * t.length + 2

def pair (t : Text) : Refused (Statement × Text) := do
  let (k,u) ← required (key t.length t)
  let v ← required (expect '=' u)
  let (x,w) ← value (depth v) Limits.readingSteps (skipSpace v)
  return (.pair k x,w)

def header (t : Text) : Option (Statement × Text) := do
  let u := skipSpace t
  let (k,v) ← key u.length u
  let w ← expect ']' v
  some (.header k,w)

def listHeader (t : Text) : Option (Statement × Text) := do
  let u := skipSpace t
  let (k,v) ← key u.length u
  let w ← (expect ']' v).bind (expect ']')
  some (.listHeader k,w)

def statement (t : Text) : Refused (Statement × Text) :=
  match t with
  | '[' :: '[' :: u => required (listHeader u)
  | '[' :: u => required (header u)
  | _ => pair t

/-- Adds at most `n` statements to a document, each on a line of its own. -/
def statements : Nat → Document → Text → Refused Document
  | 0,_,_ => .error .malformed
  | n + 1,d,t => do
    match (← required (skipLines false t)) with
    | [] => return d
    | u =>
      let (s,v) ← statement u
      let e ← required (d.add s)
      match (← required (skipComment (skipSpace v))) with
      | [] => return e
      | w => statements n e (← required (expect '\n' w))

/-- A carriage return before a newline is no part of a document. -/
def unixLines : Text → Text
  | '\r' :: '\n' :: t => '\n' :: unixLines t
  | c :: t => c :: unixLines t
  | [] => []

/-- The table that a document describes. Of all that is wrong with a text the first counts. -/
def document (t : Text) : Refused Table :=
  let u := unixLines t
  (statements (u.length + 1) .empty u).map (·.root)

end QScope.Toml.Reading
