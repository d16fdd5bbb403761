/-!
# TOML values

The data of a settings file. A table remembers how it came about, since that decides what may still be added to it: a table that was given
under a header or in braces is complete, one that was only passed through on the way to another is open.
-/

namespace CodeAtlas

/-- How a table came about. -/
inductive TableOrigin where
  /-- Given under its own header. -/
  | header
  /-- Passed through in the header of another table. -/
  | passed
  /-- Passed through in a key with dots. -/
  | dotted
  /-- Given in braces. -/
  | braces
deriving Repr, DecidableEq, Inhabited

/-- A TOML value. What nobody asks for, fractions and dates, is kept without its content. -/
inductive Toml where
  | str (value : String)
  | int (value : Int)
  | fractional
  | moment
  | bool (value : Bool)
  | arr (items : List Toml)
  /-- Tables under repeated headers, the last of them at the end. -/
  | tables (items : List Toml)
  | table (origin : TableOrigin) (fields : List (String × Toml))
deriving Repr, Inhabited

namespace Toml

/-- The fields of a table. -/
abbrev Fields := List (String × Toml)

/-- Puts a value in place of the one under a key. -/
def replace (key : String) (value : Toml) (fields : Fields) : Fields :=
  fields.map fun (k, v) => if k = key then (k, value) else (k, v)

/-- Assigns a value to a key, passing through the tables on its path. A key is given once, and a table that is complete is not added to by a key
with dots, nor one that was made by such keys by a key without. -/
def assign (plain : Bool) (key : String) (value : Toml) : List String → TableOrigin → Fields → Option Fields
  | [], origin, fields =>
    if (origin == .dotted) == plain || (fields.lookup key).isSome then none else some (fields ++ [(key, value)])
  | k :: path, _, fields =>
    match fields.lookup k with
    | none => (assign plain key value path .dotted []).map fun inner => fields ++ [(k, .table .dotted inner)]
    | some (.table origin inner) =>
      if origin = .dotted || origin = .passed then
        (assign plain key value path origin inner).map fun inner => replace k (.table origin inner) fields
      else none
    | some _ => none

/-- Changes the table at the end of a path of headers. Of repeated tables the last is meant. -/
def within (change : TableOrigin → Fields → Option Fields) : List String → TableOrigin → Fields → Option Fields
  | [], origin, fields => change origin fields
  | k :: path, _, fields =>
    match fields.lookup k with
    | none => (within change path .passed []).map fun inner => fields ++ [(k, .table .passed inner)]
    | some (.table .braces _) => none
    | some (.table origin inner) =>
      (within change path origin inner).map fun inner => replace k (.table origin inner) fields
    | some (.tables items) =>
      match items.getLast? with
      | some (.table origin inner) =>
        (within change path origin inner).map fun inner =>
          replace k (.tables (items.dropLast ++ [.table origin inner])) fields
      | _ => none
    | some _ => none

/-- Opens a table under a header, which may have been passed through before. -/
def openTable (key : String) (fields : Fields) : Option Fields :=
  match fields.lookup key with
  | none => some (fields ++ [(key, .table .header [])])
  | some (.table .passed inner) => some (replace key (.table .header inner) fields)
  | some _ => none

/-- Opens one more table under a repeated header. -/
def openNext (key : String) (fields : Fields) : Option Fields :=
  match fields.lookup key with
  | none => some (fields ++ [(key, .tables [.table .header []])])
  | some (.tables items) => some (replace key (.tables (items ++ [.table .header []])) fields)
  | some _ => none

end Toml

end CodeAtlas
