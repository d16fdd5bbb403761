import CodeAtlas.Symbol
import CodeAtlas.Graph.Edge
import CodeAtlas.Text.Basic
/-!
# Outlines

What a reader of source code reports about one file: the declarations with their lines, the associations between
models, and the modules and files it draws in. Any reader that produces an outline can feed the index.
-/

namespace CodeAtlas

/-- The words that declare an association. -/
inductive AssociationWord where
  | belongsTo
  | hasMany
  | hasOne
  | hasAndBelongsToMany
deriving Repr, DecidableEq, Inhabited

namespace AssociationWord

/-- The kind of edge that the word declares. -/
def edgeKind : AssociationWord → EdgeKind
  | .belongsTo => .belongsTo
  | .hasMany => .hasMany
  | .hasOne => .hasOne
  | .hasAndBelongsToMany => .hasAndBelongsToMany

/-- The word itself. -/
def name (word : AssociationWord) : String := word.edgeKind.name

/-- Every word. -/
def all : List AssociationWord := [.belongsTo, .hasMany, .hasOne, .hasAndBelongsToMany]

/-- The word spelled exactly so. -/
def ofName? (s : String) : Option AssociationWord := all.find? (·.name == s)

end AssociationWord

/-- A declaration as reported by a reader. -/
structure Declaration where
  name : String
  kind : SymbolKind
  enclosing : Option String := none
  startLine : Nat
  endLine : Nat
  visibility : Visibility := .publicAccess
  signature : Option String := none
  documentation : Option String := none
  superclass : Option String := none
  classMethod : Bool := false
deriving Repr, DecidableEq, Inhabited

namespace Declaration

/-- The mark of a class-level method inside a name. -/
def selfMark : List Char := "self.".toList

/-- Class-level methods, by flag or by name. -/
def isClassMethod (d : Declaration) : Bool := d.classMethod || Text.startsWith selfMark d.name.toList

/-- The name without the mark of a class-level method. -/
def bareName (d : Declaration) : String :=
  match Text.after? selfMark d.name.toList with
  | some rest => String.ofList rest
  | none => d.name

end Declaration

/-- An association as declared. -/
structure DeclaredAssociation where
  word : AssociationWord
  name : String
  /-- The class at the far end, where the reader found one. -/
  target : Option String := none
  options : List (String × Json) := []
  line : Option Nat := none
deriving Inhabited

/-- The class named by the options. -/
def DeclaredAssociation.className? (a : DeclaredAssociation) : Option String :=
  (a.options.lookup "class_name").bind Json.str?

/-- Everything a reader reports about one file. What it leaves out is filled in by indexing. -/
structure Outline where
  fingerprint : Option String := none
  category : Option String := none
  lineCount : Option Nat := none
  declarations : List Declaration := []
  associations : List DeclaredAssociation := []
  includes : List String := []
  extensions : List String := []
  requires : List String := []
  requireRelatives : List String := []
deriving Inhabited

namespace Outline

/-- The first class or module. -/
def primaryContainer? (o : Outline) : Option Declaration := o.declarations.find? (·.kind.isContainer)

/-- The first class. -/
def primaryClass? (o : Outline) : Option Declaration := o.declarations.find? (·.kind = .classDecl)

end Outline

end CodeAtlas
