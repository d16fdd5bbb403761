import CodeAtlas.Json.Parser
import CodeAtlas.Outline.Basic
/-!
# Outlines as records

Other programs hand in outlines as JSON. A record is read by the names of its fields; fields of two words may be spelled either
way, but not both at once, and fields with other names are passed over. A record may also be given as a list of
its fields in order. What has a default may be missing; only optional fields may be `null`.
-/

namespace CodeAtlas

namespace Contract

/-- A field of a record: the spellings of its name, and what is wanted of its value. -/
structure Field where
  names : List String
  wanted : Json.Wanted := .everything

/-- A field whose name is one word. -/
def one (name : String) : Field := { names := [name] }

/-- A field whose name has two spellings. -/
def two (camel snake : String) : Field := { names := [camel, snake] }

/-- What is wanted of a record with these fields. -/
def wantedOf (fields : List Field) : Json.Wanted := .fields (fields.map fun f => (f.names, f.wanted))

/-- A field that holds a list of records. -/
def records (name : String) (fields : List Field) : Field := { names := [name], wanted := .items (wantedOf fields) }

/-- The field of a record with this name, if it knows one. -/
def Field.matches (field : Field) (name : String) : Bool := field.names.contains name

/-- The given values of a field, in order. -/
def Field.values (field : Field) (given : List (String × Json)) : List Json :=
  (given.filter fun (name, _) => field.matches name).map (·.2)

/-- The value given for each field. A field given twice makes the record unreadable. -/
def slots? (fields : List Field) (given : List (String × Json)) : Option (List (Option Json)) :=
  fields.mapM fun field =>
    match field.values given with
    | [] => some none
    | [value] => some (some value)
    | _ => none

/-- The values of a list, each for the field at its place; there must not be more than fields. -/
def places? (fields : List Field) (items : List Json) : Option (List (Option Json)) :=
  if fields.length < items.length then none
  else some (items.map some ++ List.replicate (fields.length - items.length) none)

/-- The value of each field of a record, given by name or by place. -/
def fieldsOf? (fields : List Field) : Json → Option (List (Option Json))
  | .obj given => slots? fields given
  | .arr items => places? fields items
  | _ => none

/-- A field that must be given. -/
def required? {α : Type} (read : Json → Option α) : Option Json → Option α
  | some value => read value
  | none => none

/-- A field with a default. -/
def orDefault? {α : Type} (default : α) (read : Json → Option α) : Option Json → Option α
  | some value => read value
  | none => some default

/-- A field that may be missing or `null`. -/
def optional? {α : Type} (read : Json → Option α) : Option Json → Option (Option α)
  | some .null => some none
  | some value => (read value).map some
  | none => some none

/-- A whole number of 32 bits without sign. -/
def line? : Json → Option Nat
  | .int n => if 0 ≤ n && n < UInt32.size then some n.toNat else none
  | _ => none

/-- A list, item by item. -/
def list? {α : Type} (read : Json → Option α) : Json → Option (List α)
  | .arr items => items.mapM read
  | _ => none

/-- One of a fixed list of names, also as a record that gives nothing else. -/
def word? {α : Type} (ofName? : String → Option α) : Json → Option α
  | .str s => ofName? s
  | .obj [(s, .null)] => ofName? s
  | _ => none

/-- A record of free form. -/
def free? : Json → Option (List (String × Json))
  | .obj fields => some (Json.sortFields (Json.canonicalFields fields))
  | _ => none

end Contract

open Contract

namespace Declaration

/-- The fields of a declaration, in order. -/
def fields : List Field :=
  [one "name", one "kind", two "enclosingName" "enclosing_name", two "startLine" "start_line",
    two "endLine" "end_line", one "visibility", one "signature", one "documentation", one "superclass",
    two "classMethod" "class_method"]

/-- Reads a declaration. -/
def ofJson? (value : Json) : Option Declaration :=
  match fieldsOf? fields value with
  | some [name, kind, enclosing, startLine, endLine, visibility, signature, documentation, superclass,
      classMethod] => do
    return {
      name := ← required? Json.str? name
      kind := ← required? (word? SymbolKind.ofName?) kind
      enclosing := ← optional? Json.str? enclosing
      startLine := ← required? line? startLine
      endLine := ← required? line? endLine
      visibility := ← orDefault? .publicAccess (word? Visibility.ofName?) visibility
      signature := ← optional? Json.str? signature
      documentation := ← optional? Json.str? documentation
      superclass := ← optional? Json.str? superclass
      classMethod := ← orDefault? false Json.bool? classMethod }
  | _ => none

/-- A declaration as a record. -/
def toJson (d : Declaration) : Json :=
  .record [
    ("name", .str d.name),
    ("kind", .str d.kind.name),
    ("enclosingName", .optStr d.enclosing),
    ("startLine", .nat d.startLine),
    ("endLine", .nat d.endLine),
    ("visibility", .str d.visibility.name),
    ("signature", .optStr d.signature),
    ("documentation", .optStr d.documentation),
    ("superclass", .optStr d.superclass),
    ("classMethod", .bool d.classMethod)]

end Declaration

namespace DeclaredAssociation

/-- The fields of an association, in order. -/
def fields : List Field := [one "kind", one "name", one "target", one "options", one "line"]

/-- Reads an association. -/
def ofJson? (value : Json) : Option DeclaredAssociation :=
  match fieldsOf? fields value with
  | some [kind, name, target, options, line] => do
    return {
      word := ← required? (word? AssociationWord.ofName?) kind
      name := ← required? Json.str? name
      target := ← optional? Json.str? target
      options := ← orDefault? [] free? options
      line := ← optional? line? line }
  | _ => none

/-- An association as a record. -/
def toJson (a : DeclaredAssociation) : Json :=
  .record [
    ("kind", .str a.word.name),
    ("name", .str a.name),
    ("target", .optStr a.target),
    ("options", .obj a.options),
    ("line", .ofOption .nat a.line)]

end DeclaredAssociation

namespace Outline

/-- The fields of an outline, in order. -/
def fields : List Field :=
  [one "fingerprint", one "category", two "lineCount" "line_count", records "symbols" Declaration.fields,
    records "associations" DeclaredAssociation.fields, one "includes", one "extends", one "requires", two "requireRelatives" "require_relatives"]

/-- Reads an outline. -/
def ofJson? (value : Json) : Option Outline :=
  match fieldsOf? fields value with
  | some [fingerprint, category, lineCount, symbols, associations, includes, extensions, requires,
      requireRelatives] => do
    return {
      fingerprint := ← optional? Json.str? fingerprint
      category := ← optional? Json.str? category
      lineCount := ← optional? line? lineCount
      declarations := ← orDefault? [] (list? Declaration.ofJson?) symbols
      associations := ← orDefault? [] (list? DeclaredAssociation.ofJson?) associations
      includes := ← orDefault? [] (list? Json.str?) includes
      extensions := ← orDefault? [] (list? Json.str?) extensions
      requires := ← orDefault? [] (list? Json.str?) requires
      requireRelatives := ← orDefault? [] (list? Json.str?) requireRelatives }
  | _ => none

/-- Reads the text of an outline, as bytes. -/
def ofBytes? (bytes : List UInt8) : Option Outline := (Json.parseBytes? (wantedOf fields) bytes).bind ofJson?

/-- An outline as a record. -/
def toJson (o : Outline) : Json :=
  .record [
    ("fingerprint", .optStr o.fingerprint),
    ("category", .optStr o.category),
    ("lineCount", .ofOption .nat o.lineCount),
    ("symbols", .arr (o.declarations.map Declaration.toJson)),
    ("associations", .arr (o.associations.map DeclaredAssociation.toJson)),
    ("includes", .strings o.includes),
    ("extends", .strings o.extensions),
    ("requires", .strings o.requires),
    ("requireRelatives", .strings o.requireRelatives)]

end Outline

end CodeAtlas
