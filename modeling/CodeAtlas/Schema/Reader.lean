import CodeAtlas.Schema.Basic
import CodeAtlas.Schema.Statement
import CodeAtlas.Literal.Reader
import CodeAtlas.Inflection
/-!
# Reading a schema

The statements of a schema file in turn: `create_table` opens a table, the statements on its variable fill it, and `end`
closes it; indexes and foreign keys may also be added from outside. Reading never fails. What makes no sense becomes a
warning, and what is not about the schema is passed over.
-/

namespace CodeAtlas.Schema

open CodeAtlas.Text

/-- A table that is being read. Without a usable name its statements are passed over. -/
structure Block where
  line : Nat
  variableName : List Char
  table : Option Table
  /-- The type of the key column a table has by itself, if it has one. -/
  keyType : Option String
  primaryKey : Option (List String)
  indexes : List Index := []
  foreignKeys : List ForeignKey := []
deriving Inhabited

/-- What has been read, and the table that is being read. -/
structure Reading where
  schema : Schema := {}
  block : Option Block := none
deriving Inhabited

/-- The text of an option that is a name. -/
def nameOption? (args : Arguments) (key : String) : Option String := (args.option? key).bind Literal.name?

/-- The whole number of an option. -/
def intOption? (args : Arguments) (key : String) : Option Int := (args.option? key).bind Literal.int?

/-- Puts a column in place of one with its name, or at the end. -/
def putColumn (c : Column) : List Column → List Column
  | [] => [c]
  | old :: rest => if old.name = c.name then c :: rest else old :: putColumn c rest

/-- Puts a column into a table. -/
def Table.put (t : Table) (c : Column) : Table := { t with columns := putColumn c t.columns }

/-- The column that a statement declares. -/
def columnOf (name sqlType : String) (args : Arguments) : Column where
  name := name
  sqlType := sqlType
  nullable := ((args.option? "null").map Literal.isTruthy).getD true
  defaultText := (args.option? "default").bind Literal.text?
  limit := intOption? args "limit"
  precision := intOption? args "precision"
  scale := intOption? args "scale"
  comment := nameOption? args "comment"

/-- The index that a statement declares. -/
def indexOf (table : String) (columns : List String) (args : Arguments) : Index where
  name := (nameOption? args "name").getD (Index.defaultName table columns)
  table := table
  columns := columns
  unique := (args.option? "unique").any Literal.isTruthy
  condition := nameOption? args "where"
  accessMethod := (args.option? "using").bind Literal.text?

/-- The two columns that record when a row was written. -/
def timestampColumns (args : Arguments) : List Column :=
  ["created_at", "updated_at"].map fun name =>
    { name := name, sqlType := "datetime", nullable := ((args.option? "null").map Literal.isTruthy).getD false
      precision := intOption? args "precision" }

/-- The columns of a reference: the id of the row referred to, and its type where it may be of several. -/
def referenceColumns (name : String) (args : Arguments) : List Column :=
  let nullable := ((args.option? "null").map Literal.isTruthy).getD true
  let idColumn : Column :=
    { name := name ++ "_id", sqlType := (nameOption? args "type").getD "bigint", nullable := nullable }
  if (args.option? "polymorphic").any Literal.isTruthy then
    [idColumn, { name := name ++ "_type", sqlType := "string", nullable := nullable }]
  else [idColumn]

/-- The index of a reference, unless it is turned off. -/
def referenceIndex (table name : String) (args : Arguments) : List Index :=
  let columns :=
    if (args.option? "polymorphic").any Literal.isTruthy then [name ++ "_type", name ++ "_id"] else [name ++ "_id"]
  match args.option? "index" with
  | some (.bool false) => []
  | some .nil => []
  | some (.hash pairs) =>
    [{ name := ((pairs.lookup "name").bind Literal.name?).getD (Index.defaultName table columns)
       table := table
       columns := columns
       unique := (pairs.lookup "unique").any Literal.isTruthy
       condition := (pairs.lookup "where").bind Literal.name? }]
  | _ => [Index.on table columns]

/-- The foreign key of a reference, if it is asked for. -/
def referenceKey (table name : String) (args : Arguments) : List ForeignKey :=
  match args.option? "foreign_key" with
  | some (.hash pairs) =>
    [{ fromTable := table
       fromColumn := name ++ "_id"
       toTable := ((pairs.lookup "to_table").bind Literal.name?).getD (Inflection.pluralize name)
       toColumn := ((pairs.lookup "primary_key").bind Literal.name?).getD "id"
       onDelete := (pairs.lookup "on_delete").bind Literal.name?
       onUpdate := (pairs.lookup "on_update").bind Literal.name?
       name := (pairs.lookup "name").bind Literal.name? }]
  | some value =>
    if value.isTruthy then
      [{ fromTable := table, fromColumn := name ++ "_id", toTable := Inflection.pluralize name }]
    else []
  | none => []

/-- Statements on a table that declare no column. -/
def otherMethods : List String :=
  ["check_constraint", "exclusion_constraint", "unique_constraint", "remove", "remove_index", "remove_references",
    "remove_timestamps"]

namespace Block

/-- Puts columns into the table in turn. -/
def putAll (b : Block) (t : Table) (columns : List Column) : Block :=
  { b with table := some (columns.foldl Table.put t) }

/-- A statement on the table `t` of the block. -/
def statement (b : Block) (t : Table) (method : String) (args : Arguments) : Except Trouble Block :=
  if method = "timestamps" then .ok (b.putAll t (timestampColumns args))
  else if method = "references" || method = "belongs_to" then
    match args.name? 0 with
    | none => .error .referenceWithoutName
    | some name =>
      let filled := b.putAll t (referenceColumns name args)
      .ok { filled with
        indexes := b.indexes ++ referenceIndex t.name name args
        foreignKeys := b.foreignKeys ++ referenceKey t.name name args }
  else if method = "index" then
    match (args.positional.head?.map Literal.names).getD [] with
    | [] => .error .indexWithoutColumns
    | columns => .ok { b with indexes := b.indexes ++ [indexOf t.name columns args] }
  else if method = "column" then
    match args.name? 0, args.name? 1 with
    | some name, some sqlType => .ok (b.putAll t [columnOf name sqlType args])
    | _, _ => .error .columnNeedsNameAndType
  else if otherMethods.contains method then .ok b
  else
    match args.positional.filterMap Literal.name? with
    | [] => .error (.columnWithoutName method)
    | names => .ok (b.putAll t (names.map fun name => columnOf name method args))

/-- The primary key of a table: as stated, else the key column it has by itself. -/
def keyColumns (b : Block) : List String :=
  match b.primaryKey with
  | some (c :: cs) => c :: cs
  | _ => if b.keyType.isSome then ["id"] else []

/-- The columns with the key column a table has by itself in front, unless it was declared. -/
def withKeyColumn (b : Block) (t : Table) : List Column :=
  match b.keyColumns, b.keyType with
  | [key], some keyType =>
    if (t.column? key).isSome then t.columns else Column.keyed { name := key, sqlType := keyType } :: t.columns
  | _, _ => t.columns

/-- The finished table: the columns of its key are marked. -/
def finished (b : Block) (t : Table) : Table :=
  { t with
    primaryKey := b.keyColumns
    columns := (b.withKeyColumn t).map fun c => if b.keyColumns.contains c.name then c.keyed else c }

/-- The name of the table, empty where there is none. -/
def tableName (b : Block) : String := (b.table.map (·.name)).getD ""

end Block

namespace Reading

/-- Adds a warning. -/
def warn (r : Reading) (line : Nat) (trouble : Trouble) : Reading :=
  { r with schema := { r.schema with warnings := r.schema.warnings ++ [⟨line, trouble⟩] } }

/-- The schema without a table and what was declared on it. -/
def dropTable (s : Schema) (name : String) : Schema :=
  { s with
    tables := s.tables.filter (·.name ≠ name)
    indexes := s.indexes.filter (·.table ≠ name)
    foreignKeys := s.foreignKeys.filter (·.fromTable ≠ name) }

/-- Closes the open table. A table of the same name that was read before goes. -/
def close (r : Reading) : Reading :=
  match r.block with
  | none => r
  | some b =>
    let r := { r with block := none }
    match b.table with
    | none => r
    | some t =>
      let t := b.finished t
      let r :=
        if (r.schema.table? t.name).isSome then
          let warned := r.warn b.line (.definedTwice t.name)
          { warned with schema := dropTable warned.schema t.name }
        else r
      { r with
        schema := { r.schema with
          tables := r.schema.tables ++ [t]
          indexes := r.schema.indexes ++ b.indexes
          foreignKeys := r.schema.foreignKeys ++ b.foreignKeys } }

/-- Closes a table whose end is missing. -/
def closeUnended (r : Reading) : Reading :=
  match r.block with
  | none => r
  | some b => (r.warn b.line (.missingEnd b.tableName)).close

/-- Opens a table; a call without a block is closed at once. -/
def openTable (r : Reading) (rest : List Char) (line : Nat) : Reading :=
  let call := splitBlock rest
  let args := Arguments.ofChars call.arguments
  let table : Option Table :=
    (args.name? 0).map fun name => { name := name, comment := nameOption? args "comment" }
  let r := if table.isNone then r.warn line .unnamedTable else r
  let keyType := match args.option? "id" with
    | some (.bool false) => none
    | some value => some (value.name?.getD "bigint")
    | none => some "bigint"
  let r := { r with block := some {
    line := line
    variableName := call.variableName.getD ['t']
    table := table
    keyType := keyType
    primaryKey := (args.option? "primary_key").map Literal.names } }
  if call.opensBlock then r else r.close

/-- A statement on the variable of the open table. -/
def tableStatement (r : Reading) (b : Block) (method : String) (rest : List Char) (line : Nat) : Reading :=
  match b.table with
  | none => r
  | some t =>
    match b.statement t method (Arguments.ofChars rest) with
    | .ok b => { r with block := some b }
    | .error trouble => r.warn line trouble

/-- An index from outside a table. -/
def addIndex (r : Reading) (rest : List Char) (line : Nat) : Reading :=
  let args := Arguments.ofChars rest
  match args.name? 0, (args.positional[1]?.map Literal.names).getD [] with
  | some table, c :: cs =>
    if (r.schema.table? table).isNone then r.warn line (.indexOnUnknownTable table)
    else
      { r with schema := { r.schema with indexes := r.schema.indexes ++ [indexOf table (c :: cs) args] } }
  | _, _ => r.warn line .indexNeedsTableAndColumns

/-- A foreign key from outside a table. -/
def addForeignKey (r : Reading) (rest : List Char) (line : Nat) : Reading :=
  let args := Arguments.ofChars rest
  match args.name? 0, args.name? 1 with
  | some source, some target =>
    let key : ForeignKey :=
      { fromTable := source
        fromColumn := (nameOption? args "column").getD (Inflection.singularize target ++ "_id")
        toTable := target
        toColumn := (nameOption? args "primary_key").getD "id"
        onDelete := nameOption? args "on_delete"
        onUpdate := nameOption? args "on_update"
        name := nameOption? args "name" }
    { r with schema := { r.schema with foreignKeys := r.schema.foreignKeys ++ [key] } }
  | _, _ => r.warn line .foreignKeyNeedsTables

/-- What follows the first occurrence of a text. -/
def afterFirst? (part : List Char) : List Char → Option (List Char)
  | [] => after? part []
  | c :: cs => (after? part (c :: cs)).or (afterFirst? part cs)

/-- The version that the head of a schema states, without underscores. -/
def version? (cs : List Char) : Option String := do
  let rest ← afterFirst? "version:".toList cs
  let digits := ((trimStart rest).takeWhile fun c => c.isDigit || c == '_').filter (· ≠ '_')
  if digits.isEmpty then none else some (String.ofList digits)

/-- A statement outside tables. -/
def topStatement (r : Reading) (head rest : List Char) (s : Statement) : Reading :=
  if head = "create_table".toList then r.openTable rest s.line
  else if head = "add_index".toList then r.addIndex rest s.line
  else if head = "add_foreign_key".toList then r.addForeignKey rest s.line
  else if startsWith "ActiveRecord::Schema".toList head then
    { r with schema := { r.schema with version := version? s.text } }
  else r

/-- Reads one statement. -/
def step (r : Reading) (s : Statement) : Reading :=
  if s.text = "end".toList then r.close
  else
    let (head, rest) := splitHead s.text
    match r.block with
    | none => r.topStatement head rest s
    | some b =>
      if head = "create_table".toList then r.closeUnended.topStatement head rest s
      else
        match after? (b.variableName ++ ['.']) head with
        | some method => r.tableStatement b (String.ofList method) rest s.line
        | none => r

end Reading

/-- Reads a schema. -/
def ofSource (source : String) : Schema :=
  ((statements source).foldl Reading.step {}).closeUnended.schema

end CodeAtlas.Schema
