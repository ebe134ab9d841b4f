/-! TOML values, and the tables that definitions build up. Each table remembers how it came to be,
because a table that was defined in one way may not be extended in another. -/

namespace SentenceBreaks.Toml

abbrev Key := List Char

/-- A table is named by a header, implied on the way of a header, implied on the way of a dotted
key, or written inline. -/
inductive Origin
  | header
  | implied
  | dotted
  | inline
deriving Repr, DecidableEq

/-- Of numbers it matters only whether they fit into 128 bits or a double; truth values and times
are plain. An array of tables grows by its headers and holds the fields of each table. -/
inductive Value
  | text (chars : List Char)
  | number (fits : Bool)
  | plain
  | array (items : List Value)
  | table (origin : Origin) (fields : List (Key × Value))
  | tables (items : List (List (Key × Value)))

abbrev Fields := List (Key × Value)

namespace Fields

def put (key : Key) (value : Value) : Fields → Fields
  | [] => [(key, value)]
  | (name, old) :: rest =>
      if name = key then (key, value) :: rest else (name, old) :: put key value rest

/-- A change of a table. -/
abbrev Change := Origin → Fields → Option (Origin × Fields)

/-- Changes the table at the end of a path. Tables that are missing on the way are made; a dotted
key does not go into a table that a header names, and nothing goes into an inline one. -/
def alter (dotted : Bool) (change : Change) : List Key → Change
  | [], origin, fields => change origin fields
  | key :: path, origin, fields =>
      match fields.lookup key with
      | none => do
          let (kind, inner) ← alter dotted change path (if dotted then .dotted else .implied) []
          return (origin, put key (.table kind inner) fields)
      | some (.table kind inner) => do
          if kind = .inline || (dotted && kind = .header) then none
          let (kind, inner) ← alter dotted change path kind inner
          return (origin, put key (.table kind inner) fields)
      | some (.tables items) => do
          let (_, inner) ← alter dotted change path .header (← items.getLast?)
          return (origin, put key (.tables (items.dropLast ++ [inner])) fields)
      | some _ => none

/-- Defines a key that may be dotted. Its last table must come from dotted keys as well, and the
last part must be new there. -/
def define (path : List Key) (key : Key) (value : Value) : Change :=
  alter true
    (fun origin fields =>
      if (origin = .dotted) = (path = []) then none
      else if (fields.lookup key).isSome then none
      else some (origin, fields ++ [(key, value)]))
    path

/-- Names a table by a header. It may have been implied before. -/
def name (path : List Key) (key : Key) : Change :=
  alter false
    (fun origin fields =>
      match fields.lookup key with
      | none => some (origin, put key (.table .header []) fields)
      | some (.table .implied inner) => some (origin, put key (.table .header inner) fields)
      | some _ => none)
    path

/-- Adds a table to an array of tables by a header. -/
def extend (path : List Key) (key : Key) : Change :=
  alter false
    (fun origin fields =>
      match fields.lookup key with
      | none => some (origin, put key (.tables [[]]) fields)
      | some (.tables items) => some (origin, put key (.tables (items ++ [[]])) fields)
      | some _ => none)
    path

end Fields

namespace Value

mutual

/-- Whether all numbers in a value fit. -/
def fits : Value → Bool
  | .text _ => true
  | .number fits => fits
  | .plain => true
  | .array items => allFit items
  | .table _ fields => fieldsFit fields
  | .tables items => tablesFit items

def allFit : List Value → Bool
  | [] => true
  | value :: rest => value.fits && allFit rest

def fieldsFit : List (Key × Value) → Bool
  | [] => true
  | (_, value) :: rest => value.fits && fieldsFit rest

def tablesFit : List (List (Key × Value)) → Bool
  | [] => true
  | fields :: rest => fieldsFit fields && tablesFit rest

end

end Value

end SentenceBreaks.Toml
