import QScope.Obstacles
import QScope.Toml

/-! # Toml spelling: how a value is shown in a message -/
namespace QScope.Toml.Spelling

/-- The fewest hexadecimal digits, filled up with zeros. -/
def hex (width n : Nat) : Text :=
  let ds := Nat.toDigits 16 n
  List.replicate (width - ds.length) '0' ++ ds

/-- A character between quotes: backslashes, the quote itself and what cannot be printed are
escaped. -/
def quotedChar (quote c : Char) : Text :=
  if c = quote ∨ c = '\\' then ['\\',c]
  else if c = '\t' then "\\t".toList
  else if c = '\n' then "\\n".toList
  else if c = '\r' then "\\r".toList
  else if CharacterClasses.isPrintable c then [c]
  else if c.toNat < 256 then "\\x".toList ++ hex 2 c.toNat
  else if c.toNat < 65536 then "\\u".toList ++ hex 4 c.toNat
  else "\\U".toList ++ hex 8 c.toNat

/-- Double quotes are for texts with single quotes and no double ones. -/
def quoted (t : Text) : Text :=
  let quote := if t.contains '\'' && !t.contains '"' then '"' else '\''
  quote :: t.flatMap (quotedChar quote) ++ [quote]

def zeros (n : Nat) : Text := List.replicate n '0'

/-- A number in positional notation from 0.0001 up to sixteen digits before the point, otherwise
with an exponent of at least two digits. -/
def decimal (d : Decimal) : Text :=
  let ds := Nat.toDigits 10 d.digits
  let point : Int := ds.length + d.exponent
  if d.digits = 0 then "0.0".toList
  else if -4 < point ∧ point ≤ 16 then
    if point ≤ 0 then "0.".toList ++ zeros (-point).toNat ++ ds
    else if ds.length ≤ point then ds ++ zeros (point.toNat - ds.length) ++ ".0".toList
    else ds.take point.toNat ++ '.' :: ds.drop point.toNat
  else
    let e := point - 1
    let es := Texts.decimal e.natAbs
    ds.take 1 ++ (if ds.length = 1 then [] else '.' :: ds.drop 1) ++
      (if e < 0 then "e-" else "e+").toList ++ zeros (2 - es.length) ++ es

def signed (negative : Bool) (t : Text) : Text := if negative then '-' :: t else t

def infinity : Text := "inf".toList

/-- A decimal as the double that it denotes. -/
def number (negative : Bool) (d : Decimal) : Text :=
  signed negative (((ShortestDecimals.ofDecimal d).map decimal).getD infinity)

def padded (width n : Nat) : Text :=
  let ds := Texts.decimal n
  zeros (width - ds.length) ++ ds

def date (d : Date) : Text :=
  padded 4 d.year ++ '-' :: padded 2 d.month ++ '-' :: padded 2 d.day

def clock (c : Clock) : Text :=
  padded 2 c.hour ++ ':' :: padded 2 c.minute ++ ':' :: padded 2 c.second ++
    (if c.micros = 0 then [] else '.' :: padded 6 c.micros)

def offset (o : Offset) : Text :=
  (if o < 0 then '-' else '+') :: padded 2 (o.natAbs / 60) ++ ':' :: padded 2 (o.natAbs % 60)

def call (name : String) (arguments : List Text) : Text :=
  name.toList ++ '(' :: Texts.join ", ".toList arguments ++ [')']

/-- The parts of a time of day; seconds and their fractions only where they are not zero. -/
def clockParts (c : Clock) : List Nat :=
  [c.hour,c.minute] ++
    (if c.micros ≠ 0 then [c.second,c.micros] else if c.second ≠ 0 then [c.second] else [])

def dateParts (d : Date) : List Nat := [d.year,d.month,d.day]

/-- An offset as a number of days, which may be negative, and seconds. -/
def zone (o : Offset) : Text :=
  if o = 0 then "datetime.timezone.utc".toList
  else
    let days := if o < 0 then ["days=-1".toList] else []
    let seconds := (60 * o).emod 86400
    call "datetime.timezone" [call "datetime.timedelta"
      (days ++ if seconds = 0 then [] else ["seconds=".toList ++ Texts.integer seconds])]

def boolean (b : Bool) : Text := (if b then "True" else "False").toList

mutual

/-- A value inside a list or a table. -/
def inner : Value → Text
  | .boolean b => boolean b
  | .integer n => Texts.integer n
  | .decimal negative d => number negative d
  | .infinity negative => signed negative infinity
  | .notANumber => "nan".toList
  | .text t => quoted t
  | .date d => call "datetime.date" ((dateParts d).map Texts.decimal)
  | .clock c => call "datetime.time" ((clockParts c).map Texts.decimal)
  | .moment d c o =>
    call "datetime.datetime" ((dateParts d ++ clockParts c).map Texts.decimal ++
      o.toList.map fun o => "tzinfo=".toList ++ zone o)
  | .array vs => '[' :: Texts.join ", ".toList (innerItems vs) ++ [']']
  | .table ms => '\x7b' :: Texts.join ", ".toList (innerMembers ms) ++ ['\x7d']

def innerItems : List Value → List Text
  | [] => []
  | v :: vs => inner v :: innerItems vs

def innerMembers : List (Text × Value) → List Text
  | [] => []
  | (name,v) :: ms => (quoted name ++ ": ".toList ++ inner v) :: innerMembers ms

end

mutual

/-- What keeps a value from being shown, with at most `levels` arrays and tables around each other:
what is met first. -/
def obstacle? (levels : Nat) : Value → Option Obstacle
  | .integer n =>
    if Nat.pow 10 Limits.integerDigits ≤ n.natAbs then some .longInteger else none
  | .array vs => if levels = 0 then some .deepNesting else itemsObstacle? (levels - 1) vs
  | .table ms => if levels = 0 then some .deepNesting else membersObstacle? (levels - 1) ms
  | _ => none

def itemsObstacle? (levels : Nat) : List Value → Option Obstacle
  | [] => none
  | v :: vs => (obstacle? levels v).or (itemsObstacle? levels vs)

def membersObstacle? (levels : Nat) : List (Text × Value) → Option Obstacle
  | [] => none
  | (_,v) :: ms => (obstacle? levels v).or (membersObstacle? levels ms)

end

/-- A value on its own: texts bare, dates and times in the standard form. -/
def outer : Value → Text
  | .text t => t
  | .date d => date d
  | .clock c => clock c
  | .moment d c o => date d ++ ' ' :: clock c ++ (o.map offset).getD []
  | v => inner v

end QScope.Toml.Spelling
