import QScope.ShortestDecimals

/-! # Toml: values, and the tables that a sequence of statements builds -/
namespace QScope.Toml

/-- A day of the calendar. -/
structure Date where
  year : Nat
  month : Nat
  day : Nat
deriving DecidableEq

structure Clock where
  hour : Nat
  minute : Nat
  second : Nat
  micros : Nat
deriving DecidableEq

/-- A distance from universal time, in minutes. -/
abbrev Offset := Int

inductive Value
  | boolean (b : Bool)
  | integer (n : Int)
  | decimal (negative : Bool) (d : Decimal)
  | infinity (negative : Bool)
  | notANumber
  | text (t : Text)
  | date (d : Date)
  | clock (c : Clock)
  | moment (d : Date) (c : Clock) (offset : Option Offset)
  | array (items : List Value)
  | table (members : List (Text × Value))

abbrev Table := List (Text × Value)

abbrev Key := List Text

def Value.isContainer : Value → Bool
  | array _ | table _ => true
  | _ => false

namespace Table

/-- Replaces the value of a name, or adds the name at the end. -/
def set (name : Text) (v : Value) : Table → Table
  | [] => [(name,v)]
  | (n,w) :: rest => if n = name then (n,v) :: rest else (n,w) :: set name v rest

/-- Changes the table at a key, making the tables on the way that are missing. In a list of tables
the way goes on in the last, if `lists` says so. -/
def change (lists : Bool) (f : Table → Option Table) : Key → Table → Option Table
  | [],t => f t
  | name :: key,t =>
    match t.lookup name with
    | none => (change lists f key []).map fun u => set name (.table u) t
    | some (.table u) => (change lists f key u).map fun u => set name (.table u) t
    | some (.array items) =>
      match lists,items.getLast? with
      | true,some (.table u) =>
        (change lists f key u).map fun u => set name (.array (items.dropLast ++ [.table u])) t
      | _,_ => none
    | some _ => none

/-- Adds a name that must be new. -/
def add (name : Text) (v : Value) (t : Table) : Option Table :=
  match t.lookup name with
  | some _ => none
  | none => some (set name v t)

/-- Adds an empty table to the list of a name. -/
def extend (name : Text) (t : Table) : Option Table :=
  match t.lookup name with
  | none => some (set name (.array [.table []]) t)
  | some (.array items) => some (set name (.array (items ++ [.table []])) t)
  | some _ => none

end Table

inductive Statement
  | pair (key : Key) (value : Value)
  | header (key : Key)
  | listHeader (key : Key)

/-- A document as far as it is read: its tables, the key of the last header, the keys whose values
must not change any more, those that no header may open again, and those for which this begins
with the next header. -/
structure Document where
  root : Table
  header : Key
  frozen : List Key
  closed : List Key
  pending : List Key

namespace Document

def empty : Document := ⟨[],[],[],[],[]⟩

/-- Inside a value that must not change nothing changes. -/
def isFrozen (d : Document) (key : Key) : Bool := d.frozen.any (·.isPrefixOf key)

def isClosed (d : Document) (key : Key) : Bool := d.closed.contains key

/-- The keys of the tables that a dotted key goes through, below a header. -/
def passed (header key : Key) : List Key :=
  (List.range (key.length - 1)).map fun n => header ++ key.take (n + 1)

/-- Adds a statement; none if it contradicts those before it. -/
def add (d : Document) : Statement → Option Document
  | .pair key value =>
    let parent := d.header ++ key.dropLast
    let name := key.getLastD []
    let through := passed d.header key
    if through.any d.isClosed || d.isFrozen parent then none
    else (Table.change true (Table.add name value) parent d.root).map fun root =>
      {d with
        root
        pending := through ++ d.pending
        frozen := if value.isContainer then (d.header ++ key) :: d.frozen else d.frozen}
  | .header key =>
    let closed := d.pending ++ d.closed
    if closed.contains key || d.isFrozen key then none
    else (Table.change true some key d.root).map fun root =>
      ⟨root,key,d.frozen,key :: closed,[]⟩
  | .listHeader key =>
    if d.isFrozen key then none
    else (Table.change true (Table.extend (key.getLastD [])) key.dropLast d.root).map fun root =>
      let outside (k : Key) : Bool := !key.isPrefixOf k
      ⟨root,key,d.frozen.filter outside,key :: (d.pending ++ d.closed).filter outside,[]⟩

end Document

/-- An inline table as far as it is read, with the keys of its arrays and tables, which are complete
as they are written. -/
abbrev Inline := Table × List Key

def Inline.add (i : Inline) (pair : Key × Value) : Option Inline :=
  let (key,value) := pair
  if i.2.any (·.isPrefixOf key) then none
  else (Table.change false (Table.add (key.getLastD []) value) key.dropLast i.1).map fun t =>
    (t,if value.isContainer then key :: i.2 else i.2)

end QScope.Toml
