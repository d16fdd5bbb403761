import CodeAtlas.Text.Basic
import CodeAtlas.Text.Case
/-!
# Inflection

The naming conventions that tie a table to its model: `order_items` holds the rows of `OrderItem`. The rules look at
endings only, the first rule that fits wins, and they are approximate on purpose: `pluralize` takes `status` to
`statuses`, `singularize` takes it to `statu`. Everything that maps names one way or the other uses these
functions, so that both ways agree.
-/

namespace CodeAtlas.Inflection

open CodeAtlas.Text

/-- A rule on endings: a word that ends in `ending` gets `replacement` in its place. -/
structure Rule where
  ending : List Char
  replacement : List Char

/-- The word with its ending replaced, if it has that ending. -/
def Rule.fit? (rule : Rule) (word : List Char) : Option (List Char) :=
  (before? rule.ending word).map (· ++ rule.replacement)

/-- Applies the first rule that fits; a word that none fits stays. -/
def applyFirst (rules : List Rule) (word : List Char) : List Char :=
  (rules.findSome? (·.fit? word)).getD word

/-- From plural to singular. -/
def singularRules : List Rule :=
  [("ies", "y"), ("ses", "s"), ("xes", "x"), ("zes", "z"), ("ches", "ch"), ("shes", "sh"), ("ves", "f"), ("oes", "o"),
    ("ss", "ss"), ("s", "")].map fun (ending, replacement) => ⟨ending.toList, replacement.toList⟩

/-- From singular to plural, for words that do not end in a consonant and `y`. -/
def pluralRules : List Rule :=
  [("s", "ses"), ("x", "xes"), ("z", "zes"), ("ch", "ches"), ("sh", "shes"), ("", "s")].map
    fun (ending, replacement) => ⟨ending.toList, replacement.toList⟩

/-- Vowels, in either case. -/
def isVowel (c : Char) : Bool :=
  match c.toLower with
  | 'a' | 'e' | 'i' | 'o' | 'u' => true
  | _ => false

/-- The stem of a word that ends in a consonant and `y`. -/
def consonantStem? (word : List Char) : Option (List Char) :=
  (before? ['y'] word).filter fun stem =>
    match stem.getLast? with
    | some c => !isVowel c
    | none => false

/-- The singular of a word given as characters. -/
def singularChars (word : List Char) : List Char := applyFirst singularRules word

/-- The plural of a word given as characters. -/
def pluralChars (word : List Char) : List Char :=
  if word.isEmpty then []
  else
    match consonantStem? word with
    | some stem => stem ++ ['i', 'e', 's']
    | none => applyFirst pluralRules word

/-- The singular of a word. -/
def singularize (word : String) : String := String.ofList (singularChars word.toList)

/-- The plural of a word. -/
def pluralize (word : String) : String := String.ofList (pluralChars word.toList)

/-- A word with its first letter capital. -/
def capitalizeFirst : List Char → List Char
  | [] => []
  | c :: cs => capitalForm c ++ cs

/-- `user_profile` becomes `UserProfile`, and `admin/user` becomes `Admin::User`. -/
def camelChars (word : List Char) : List Char :=
  joinWith [':', ':'] ((splitOn '/' word).map fun segment =>
    ((splitOn '_' segment).filter (!·.isEmpty)).flatMap capitalizeFirst)

/-- `user_profile` becomes `UserProfile`, and `admin/user` becomes `Admin::User`. -/
def camelize (word : String) : String := String.ofList (camelChars word.toList)

/-- Scope marks become slashes. -/
def scopeToSlash : List Char → List Char
  | ':' :: ':' :: cs => '/' :: scopeToSlash cs
  | c :: cs => c :: scopeToSlash cs
  | [] => []

/-- Whether a capital letter starts a new hump: after a small letter or a digit, or as the last capital of a
run that goes on in small letters. -/
def startsHump (prev next : Option Char) : Bool :=
  match prev with
  | none => false
  | some p =>
    isSmall p || p.isDigit || (isCapital p && (match next with
      | some n => isSmall n
      | none => false))

/-- Snake case from a given previous character on. -/
def snakeFrom : Option Char → List Char → List Char
  | _, [] => []
  | prev, c :: cs =>
    (if isCapital c then
      if startsHump prev cs.head? then '_' :: smallForm c else smallForm c
    else if c = '-' then ['_']
    else [c]) ++ snakeFrom (some c) cs

/-- `UserProfile` becomes `user_profile`, `Admin::User` becomes `admin/user`, `HTMLParser` becomes `html_parser`. -/
def snakeChars (word : List Char) : List Char := snakeFrom none (scopeToSlash word)

/-- `UserProfile` becomes `user_profile`, `Admin::User` becomes `admin/user`, `HTMLParser` becomes `html_parser`. -/
def underscore (word : String) : String := String.ofList (snakeChars word.toList)

/-- The model class of a table. -/
def classify (table : String) : String := camelize (singularize table)

/-- The table of a model class. -/
def tableize (model : String) : String :=
  String.ofList (pluralChars ((snakeChars model.toList).map fun c => if c = '/' then '_' else c))

/-- The stem of a column named `<stem>_id`, if there is one. -/
def idStem? (column : String) : Option String :=
  ((before? ['_', 'i', 'd'] column.toList).filter (!·.isEmpty)).map String.ofList

end CodeAtlas.Inflection
