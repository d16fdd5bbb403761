import CodeAtlas.Symbol
import CodeAtlas.Category
/-!
# The catalog

Files and the symbols they declare. A file keeps its id from its first entry until it is removed, and ids are never given
again; every entry uses up an id. Symbols belong to a file and are replaced as a whole. Both lists stand in the order of
their ids.
-/

namespace CodeAtlas

/-- An indexed file. `modified` and `indexedAt` are seconds of the clock. -/
structure FileRecord where
  id : Int
  path : String
  fingerprint : String
  category : Category
  lineCount : Nat
  modified : Option Int
  indexedAt : Int
deriving Repr, DecidableEq, Inhabited

/-- The file as a record. -/
def FileRecord.toJson (f : FileRecord) : Json :=
  .record [
    ("id", .int f.id),
    ("path", .str f.path),
    ("fingerprint", .str f.fingerprint),
    ("category", .str f.category.name),
    ("line_count", .nat f.lineCount),
    ("mtime", .optInt f.modified),
    ("indexed_at", .int f.indexedAt)]

/-- What is recorded about a file. -/
structure FileEntry where
  path : String
  fingerprint : String
  category : Category
  lineCount : Nat
  modified : Option Int
  indexedAt : Int
deriving Repr, DecidableEq, Inhabited

/-- The record of a file under an id. -/
def FileEntry.stored (e : FileEntry) (id : Int) : FileRecord :=
  { id := id, path := e.path, fingerprint := e.fingerprint, category := e.category, lineCount := e.lineCount
    modified := e.modified, indexedAt := e.indexedAt }

/-- A symbol and the file it belongs to. -/
structure OwnedSymbol where
  file : Int
  symbol : Symbol
deriving Repr, DecidableEq, Inhabited

/-- Files and symbols, and the ids to be given next. -/
structure Catalog where
  files : List FileRecord := []
  symbols : List OwnedSymbol := []
  nextFile : Int := 1
  nextSymbol : Int := 1
deriving Repr, DecidableEq, Inhabited

namespace Catalog

/-- A file by its path. -/
def file? (c : Catalog) (path : String) : Option FileRecord := c.files.find? (·.path = path)

/-- A file by its id. -/
def fileById? (c : Catalog) (id : Int) : Option FileRecord := c.files.find? (·.id = id)

/-- Enters a file and gives its id. -/
def upsertFile (c : Catalog) (e : FileEntry) : Catalog × Int :=
  match c.file? e.path with
  | some old =>
    ({ c with
        files := c.files.map fun f => if f.id = old.id then e.stored old.id else f
        nextFile := c.nextFile + 1 }, old.id)
  | none =>
    ({ c with files := c.files ++ [e.stored c.nextFile], nextFile := c.nextFile + 1 }, c.nextFile)

/-- The files by path. -/
def listFiles (c : Catalog) : List FileRecord := c.files.mergeSort fun a b => a.path ≤ b.path

/-- The fingerprint of each file. -/
def fingerprints (c : Catalog) : List (String × String) := c.files.map fun f => (f.path, f.fingerprint)

/-- The fingerprint of a file. -/
def fingerprint? (c : Catalog) (path : String) : Option String := (c.file? path).map (·.fingerprint)

/-- Removes a file and its symbols; says whether it was there. -/
def removeFile (c : Catalog) (path : String) : Catalog × Bool :=
  match c.file? path with
  | none => (c, false)
  | some f =>
    ({ c with files := c.files.filter (·.path ≠ path), symbols := c.symbols.filter (·.file ≠ f.id) }, true)

/-- Numbers symbols of a file from a given id on. -/
def number (file : FileRecord) : Int → List Symbol → List OwnedSymbol
  | _, [] => []
  | id, s :: rest => ⟨file.id, { s with id := some id, path := file.path }⟩ :: number file (id + 1) rest

/-- Replaces the symbols of a file. There is no owner for the symbols of an unknown file. -/
def replaceSymbols (c : Catalog) (file : Int) (symbols : List Symbol) : Outcome Catalog :=
  let others := c.symbols.filter (·.file ≠ file)
  match c.fileById? file with
  | some f =>
    .ok { c with
          symbols := others ++ number f c.nextSymbol symbols
          nextSymbol := c.nextSymbol + symbols.length }
  | none => if symbols.isEmpty then .ok { c with symbols := others } else .error (.storage .danglingReference)

/-- The symbols of a file by line. -/
def symbolsIn (c : Catalog) (path : String) : List Symbol :=
  ((c.symbols.map (·.symbol)).filter (·.path = path)).mergeSort fun a b => a.startLine ≤ b.startLine

/-- Whether `a` stands before `b` by path and line. -/
def symbolBefore (a b : Symbol) : Bool :=
  a.path < b.path || (a.path == b.path && a.startLine ≤ b.startLine)

/-- The symbols with exactly this name, by path and line. -/
def findSymbols (c : Catalog) (name : String) (kind : Option SymbolKind) : List Symbol :=
  ((c.symbols.map (·.symbol)).filter fun s =>
    s.name = name && (match kind with
      | some k => s.kind = k
      | none => true)).mergeSort symbolBefore

/-- A catalog without files and symbols; ids go on where they were. -/
def clear (c : Catalog) : Catalog := { c with files := [], symbols := [] }

end Catalog

end CodeAtlas
