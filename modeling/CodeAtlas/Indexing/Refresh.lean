import CodeAtlas.Indexing.Unit
/-!
# The schema in a run

At the end of a run the schema file is looked at. If it is gone, so is the stored schema. If it is unchanged, and no file changed
either, nothing is done. A file that holds no table, and lines that could not be read, is an error: the stored schema stays and a note says
that it is out of date.
-/

namespace CodeAtlas.Indexing

/-- Removes the stored schema, if there is one, because its file is gone. -/
def dropSchema (d : Desk) (summary : SchemaSummary) : Desk × SchemaSummary :=
  match d.store.note? Store.schemaFingerprint with
  | none => ({ d with store := d.store.dropNote Store.schemaError }, summary)
  | some _ =>
    match removeSchema d with
    | (d, .ok _) => (d, summary)
    | (d, .error e) => (d, { summary with error := some e })

/-- Notes that the schema file could not be read. -/
def markStale (d : Desk) (path : String) (e : Error) : Desk × SchemaSummary :=
  ({ d with store := d.store.setNote Store.schemaError e.message }, { path := path, error := some e })

/-- Why a schema is not accepted: nothing in it could be read as a table, and something could not be read. -/
def schemaRefusal? (path : String) (s : Schema) : Option Error :=
  if s.tables.isEmpty && !s.warnings.isEmpty then
    some (.schemaParse ("no tables found in " ++ path ++ " (" ++ toString s.warnings.length ++ " warnings)"))
  else none

/-- Reads a schema file, unless it is known and `force` is not set. -/
def rebuildSchema (d : Desk) (path : String) (file : SourceFile) (force : Bool) : Desk × SchemaSummary :=
  let print := fingerprint file.bytes
  if !force && d.store.note? Store.schemaFingerprint = some print then
    (d, SchemaSummary.ofSchema path d.store.schema)
  else
    let schema := Schema.ofSource file.text
    match schemaRefusal? path schema with
    | some e => markStale { d with cache := d.cache.rollback } path e
    | none =>
      match commitSchema d print schema with
      | (d, .ok _) =>
        (d, { SchemaSummary.ofSchema path schema with rebuilt := true, warnings := schema.warnings })
      | (d, .error e) => markStale d path e

/-- Brings the schema up to date with its file. -/
def refreshSchema (t : Tree) (d : Desk) (path : String) (force : Bool) : Desk × SchemaSummary :=
  let shown := String.ofList (path.toList.map fun c => if c = '\\' then '/' else c)
  match t.file? path with
  | none => dropSchema d { path := shown, missing := true }
  | some file => rebuildSchema d shown file force

end CodeAtlas.Indexing
