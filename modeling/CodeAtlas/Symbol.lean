import CodeAtlas.Error
import CodeAtlas.Text.Case
import CodeAtlas.Json.Basic
/-!
# Symbols

The named things that a file declares. Classes, modules and methods also become nodes of the graph; the other
kinds are kept with their file only.
-/

namespace CodeAtlas

/-- What a symbol is. -/
inductive SymbolKind where
  | classDecl
  | moduleDecl
  | method
  | scope
  | accessor
  | constant
  | association
deriving Repr, DecidableEq, Inhabited

namespace SymbolKind

/-- The name of a kind. -/
def name : SymbolKind → String
  | .classDecl => "class"
  | .moduleDecl => "module"
  | .method => "method"
  | .scope => "scope"
  | .accessor => "attribute"
  | .constant => "constant"
  | .association => "association"

/-- Every kind. -/
def all : List SymbolKind := [.classDecl, .moduleDecl, .method, .scope, .accessor, .constant, .association]

/-- The kind with exactly this name. -/
def ofName? (s : String) : Option SymbolKind := all.find? (·.name == s)

/-- Other spellings of a kind. -/
def ofAlias? : String → Option SymbolKind
  | "def" => some .method
  | "function" => some .method
  | "attr" => some .accessor
  | "const" => some .constant
  | _ => none

/-- The kind a user names, in any case and by any spelling. -/
def ofInput (s : String) : Outcome SymbolKind :=
  let small := Text.toSmall s
  Error.requireName "symbol kind" s ((ofName? small).or (ofAlias? small))

/-- Whether symbols of this kind become nodes. -/
def isProjected : SymbolKind → Bool
  | .classDecl | .moduleDecl | .method => true
  | _ => false

/-- Whether symbols of this kind can hold others. -/
def isContainer : SymbolKind → Bool
  | .classDecl | .moduleDecl => true
  | _ => false

end SymbolKind

/-- Who may call a method. -/
inductive Visibility where
  | publicAccess
  | protectedAccess
  | privateAccess
deriving Repr, DecidableEq, Inhabited

namespace Visibility

/-- The name of a visibility. -/
def name : Visibility → String
  | .publicAccess => "public"
  | .protectedAccess => "protected"
  | .privateAccess => "private"

/-- Every visibility. -/
def all : List Visibility := [.publicAccess, .protectedAccess, .privateAccess]

/-- The visibility with exactly this name. -/
def ofName? (s : String) : Option Visibility := all.find? (·.name == s)

/-- The visibility a user names, in any case. -/
def ofInput (s : String) : Outcome Visibility :=
  Error.requireName "visibility" s (ofName? (Text.toSmall s))

end Visibility

/-- A symbol as stored. The whole set of a file is replaced when the file is read again, so `id` lasts only as long. -/
structure Symbol where
  id : Option Int := none
  path : String
  name : String
  kind : SymbolKind
  enclosing : Option String := none
  startLine : Nat
  endLine : Nat
  visibility : Visibility := .publicAccess
  signature : Option String := none
  documentation : Option String := none
deriving Repr, DecidableEq, Inhabited

namespace Symbol

/-- The name together with what encloses it: `Owner#name` for methods, `Owner::name` for all else. -/
def qualifiedName (symbol : Symbol) : String :=
  match symbol.enclosing with
  | some owner => owner ++ (if symbol.kind = .method then "#" else "::") ++ symbol.name
  | none => symbol.name

/-- Kind and signature, or kind and qualified name. -/
def shortDescription (symbol : Symbol) : String :=
  symbol.kind.name ++ " " ++ symbol.signature.getD symbol.qualifiedName

/-- The symbol as a record. -/
def toJson (symbol : Symbol) : Json :=
  .record [
    ("id", .optInt symbol.id),
    ("path", .str symbol.path),
    ("name", .str symbol.name),
    ("kind", .str symbol.kind.name),
    ("enclosing_name", .optStr symbol.enclosing),
    ("start_line", .nat symbol.startLine),
    ("end_line", .nat symbol.endLine),
    ("visibility", .str symbol.visibility.name),
    ("signature", .optStr symbol.signature),
    ("documentation", .optStr symbol.documentation)]

end Symbol

end CodeAtlas
