import CodeAtlas.Text.Quoted
/-!
# Errors

Why an operation was refused. The wording stands in `Error.message` alone; everything else speaks of causes.
-/

namespace CodeAtlas

/-- What was asked for and is not there. -/
inductive Missing where
  | node (reference : String)
  | keyed (kind key : String)
  | symbol (name : String)
  | file (path : String)
  | indexedFile (path : String)
  | table (name : String)
deriving Repr, DecidableEq

namespace Missing

/-- The thing that is missing, in words. -/
def describe : Missing → String
  | .node reference => "node " ++ reference
  | .keyed kind key => kind ++ " " ++ key
  | .symbol name => "symbol " ++ name
  | .file path => "file " ++ path
  | .indexedFile path => "indexed file " ++ path
  | .table name => "table " ++ name

end Missing

/-- What is wrong with a pattern for paths. -/
inductive PatternFault where
  | unclosedClass
  | badRange (low high : Char)
  | unopenedGroup
  | unclosedGroup
  | danglingEscape
deriving Repr, DecidableEq

/-- The fault of a pattern in words. -/
def PatternFault.describe : PatternFault → String
  | .unclosedClass => "unclosed character class; missing ']'"
  | .badRange low high => "invalid range; '" ++ String.ofList [low] ++ "' > '" ++ String.ofList [high] ++ "'"
  | .unopenedGroup => "unopened alternate group; missing '\x7b' (maybe escape '\x7d' with '[\x7d]'?)"
  | .unclosedGroup => "unclosed alternate group; missing '\x7d' (maybe escape '\x7b' with '[\x7b]'?)"
  | .danglingEscape => "dangling '\\'"

/-- What is wrong with a request. -/
inductive Fault where
  /-- A name that is none of a fixed list. -/
  | unknown (what name : String)
  | zeroLimit
  | emptySearch
  | pastEnd (line : Nat) (path : String) (total : Nat)
  | emptyRange (first last : Nat)
  | similarity (given : String)
  | ambiguous (reference : String) (kinds : List String)
  | outsideRoot (path : String)
  | emptyPath
  /-- `line` is the rule that the pattern was made into. -/
  | badPattern (pattern line : String) (fault : PatternFault)
deriving Repr, DecidableEq

namespace Fault

/-- The fault in words. -/
def describe : Fault → String
  | .unknown what name => "Unknown " ++ what ++ ": " ++ name
  | .zeroLimit => "limit must be at least 1"
  | .emptySearch => "empty search query"
  | .pastEnd line path total =>
    "line " ++ toString line ++ " is past the end of " ++ path ++ " (" ++ toString total ++ " lines)"
  | .emptyRange first last => "empty range " ++ toString first ++ ".." ++ toString last
  | .similarity given => "similarity threshold must be between 0 and 1, got " ++ given
  | .ambiguous reference kinds =>
    reference ++ " is ambiguous (" ++ ", ".intercalate kinds ++ "); use kind:key"
  | .outsideRoot path => "path must stay inside the root: " ++ path
  | .emptyPath => "empty path"
  | .badPattern pattern line fault =>
    "invalid exclude pattern " ++ Text.quoted pattern ++ ": error parsing glob '" ++ line ++ "': " ++ fault.describe

end Fault

/-- Why an index could not be opened or written. -/
inductive StorageFault where
  /-- A row that points to a row which is not there. -/
  | danglingReference
  | notAnIndex
  | cannotOpen (path : String)
  /-- An expression that ends inside its quotes. -/
  | unterminatedText
deriving Repr, DecidableEq

/-- The fault in words. -/
def StorageFault.describe : StorageFault → String
  | .danglingReference => "FOREIGN KEY constraint failed"
  | .notAnIndex => "file is not a database"
  | .cannotOpen path => "unable to open database file: " ++ path
  | .unterminatedText => "unterminated string"

/-- Why an operation was refused. -/
inductive Error where
  | notFound (subject : Missing)
  | parse (path message : String)
  | schemaParse (message : String)
  | storage (fault : StorageFault)
  | invalidQuery (fault : Fault)
  | io (message : String)
  | json
  | extractor (message : String)
deriving Repr, DecidableEq

namespace Error

/-- The error in words. -/
def message : Error → String
  | .notFound subject => "Not found: " ++ subject.describe
  | .parse path message => "Parse failure in " ++ path ++ ": " ++ message
  | .schemaParse message => "Schema parse failure: " ++ message
  | .storage fault => "Storage error: " ++ fault.describe
  | .invalidQuery fault => "Invalid query: " ++ fault.describe
  | .io message => "IO error: " ++ message
  | .json => "JSON error"
  | .extractor message => "Extractor error: " ++ message

end Error

/-- An operation that may be refused. -/
abbrev Outcome := Except Error

namespace Error

/-- One of the values of a fixed list by its name, or the fault that the name is none of them. -/
def requireName {α : Type} (what name : String) (found : Option α) : Outcome α :=
  match found with
  | some value => .ok value
  | none => .error (.invalidQuery (.unknown what name))

end Error

end CodeAtlas
