import CodeAtlas.Toml.Scalar
/-!
# Reading TOML text

A document is a list of lines: assignments, headers of tables, and headers of repeated tables. Arrays may run over several lines, tables in braces may
not. Nesting is bounded by `depthLimit`.
-/

namespace CodeAtlas.Toml

/-- Less than so many brackets may be open at once, and less than so many parts make a key. -/
def depthLimit : Nat := 80

/-- Drops blanks inside a line. -/
def skip (cs : List Char) : List Char := cs.dropWhile isBlank

/-- Drops a comment, if there is one. -/
def skipComment : List Char → List Char
  | '#' :: rest => rest.dropWhile isPrintable
  | cs => cs

/-- What follows the end of a line, after blanks and a comment. The end of the text ends its last line. -/
def lineEnd? (cs : List Char) : Option (List Char) :=
  match skipComment (skip cs) with
  | [] => some []
  | '\n' :: rest => some rest
  | '\r' :: '\n' :: rest => some rest
  | _ => none

/-- Drops blanks, comments and line ends. `fuel` bounds the lines. -/
def skipLines : Nat → List Char → List Char
  | 0, cs => cs
  | fuel + 1, cs =>
    match lineEnd? cs with
    | some [] => []
    | some rest => skipLines fuel rest
    | none => skip cs

/-- Characters of a key without quotes. -/
def isKeyChar (c : Char) : Bool := c.isAlphanum || c = '_' || c = '-'

/-- A part of a key. -/
def keyPart? (cs : List Char) : Option (String × List Char) :=
  match cs with
  | '"' :: rest => (basicRest rest).map fun (text, rest) => (String.ofList text, rest)
  | '\'' :: rest => (literalRest rest).map fun (text, rest) => (String.ofList text, rest)
  | _ =>
    let name := cs.takeWhile isKeyChar
    if name.isEmpty then none else some (String.ofList name, cs.dropWhile isKeyChar)

/-- A key with its parts between dots, and the blanks around it. `fuel` bounds the parts. -/
def key? : Nat → List Char → Option (List String × List Char)
  | 0, _ => none
  | fuel + 1, cs =>
    match keyPart? (skip cs) with
    | none => none
    | some (name, rest) =>
      match skip rest with
      | '.' :: rest => (key? fuel rest).map fun (names, rest) => (name :: names, rest)
      | rest => some ([name], rest)

mutual

/-- A value at the start of a text. `fuel` bounds the calls, `depth` the brackets still allowed. -/
def value? : Nat → Nat → List Char → Option (Toml × List Char)
  | 0, _, _ => none
  | fuel + 1, depth, cs =>
    match string? cs with
    | some read => read.map fun (text, rest) => (.str (String.ofList text), rest)
    | none =>
      match cs with
      | '[' :: rest =>
        if depth = 0 then none
        else (items? fuel (depth - 1) rest).map fun (items, rest) => (.arr items, rest)
      | '\x7b' :: rest =>
        if depth = 0 then none
        else
          match skip rest with
          | '\x7d' :: rest => some (.table .braces [], rest)
          | _ => (fields? fuel (depth - 1) [] rest).map fun (fields, rest) => (.table .braces fields, rest)
      | _ =>
        let (text, rest) := word cs
        (ofWord? text).map fun value => (value, rest)

/-- The items of an array up to its closing bracket. -/
def items? : Nat → Nat → List Char → Option (List Toml × List Char)
  | 0, _, _ => none
  | fuel + 1, depth, cs =>
    match skipLines cs.length cs with
    | ']' :: rest => some ([], rest)
    | cs =>
      match value? fuel depth cs with
      | none => none
      | some (item, rest) =>
        match skipLines rest.length rest with
        | ']' :: rest => some ([item], rest)
        | ',' :: rest => (items? fuel depth rest).map fun (items, rest) => (item :: items, rest)
        | _ => none

/-- The fields of a table in braces up to its closing brace, after those read before. -/
def fields? : Nat → Nat → Fields → List Char → Option (Fields × List Char)
  | 0, _, _, _ => none
  | fuel + 1, depth, done, cs =>
    match key? (depthLimit - 1) cs with
    | some (names, '=' :: rest) =>
      match value? fuel depth (skip rest) with
      | none => none
      | some (value, rest) =>
        match assign (names.length = 1) (names.getLastD "") value names.dropLast .braces done with
        | none => none
        | some done =>
          match skip rest with
          | '\x7d' :: rest => some (done, rest)
          | ',' :: rest => fields? fuel depth done rest
          | _ => none
    | _ => none

end

/-- A document as read so far: its fields, and the header that is in force. -/
structure Document where
  fields : Fields := []
  header : List String := []

/-- Reads a header of a table, or of a repeated table. -/
def header? (d : Document) (cs : List Char) : Option (Document × List Char) :=
  let (repeated, body) := match cs with
    | '[' :: rest => (true, rest)
    | _ => (false, cs)
  match key? (depthLimit - 1) body with
  | none => none
  | some (names, rest) =>
    let last := names.getLastD ""
    let rest := if repeated then Text.after? [']', ']'] rest else Text.after? [']'] rest
    match rest, within (fun _ => if repeated then openNext last else openTable last) names.dropLast .header d.fields with
    | some rest, some fields => some ({ fields := fields, header := names }, rest)
    | _, _ => none

/-- Reads an assignment. -/
def assignment? (d : Document) (cs : List Char) : Option (Document × List Char) :=
  match key? (depthLimit - 1) cs with
  | some (names, '=' :: rest) =>
    match value? (2 * rest.length + 2) (depthLimit - 1) (skip rest) with
    | none => none
    | some (value, rest) =>
      let change := assign (names.length = 1) (names.getLastD "") value names.dropLast
      (within change d.header .header d.fields).map fun fields => ({ d with fields := fields }, rest)
  | _ => none

/-- Reads lines up to the end. `fuel` bounds the lines. -/
def document? : Nat → Document → List Char → Option Fields
  | 0, d, _ => some d.fields
  | _, d, [] => some d.fields
  | fuel + 1, d, cs =>
    match skip cs with
    | [] => some d.fields
    | c :: rest =>
      let read : Option (Document × List Char) :=
        if c = '#' || c = '\n' || c = '\r' then some (d, c :: rest)
        else if c = '[' then header? d rest
        else assignment? d (c :: rest)
      match read with
      | none => none
      | some (d, rest) =>
        match lineEnd? rest with
        | none => none
        | some rest => document? fuel d rest

/-- The fields of a document. -/
def parse? (text : String) : Option Fields :=
  let cs := text.toList
  let cs := if (cs.head?.map Char.toNat) = some 0xFEFF then cs.drop 1 else cs
  document? (cs.length + 1) {} cs

end CodeAtlas.Toml
