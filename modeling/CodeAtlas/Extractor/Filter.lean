import CodeAtlas.Extractor.Workplace
import CodeAtlas.Extractor.Format
/-!
# Filters

Programs that pass on files, or their input if no files are named: whole, only the beginning or the end, counted, or with bytes exchanged.
-/

namespace CodeAtlas

namespace Filter

/-- The hint that follows a complaint about arguments. -/
def hint (name : String) : String := "\nTry '" ++ name ++ " --help' for more information."

/-- Characters that have a meaning of their own in scripts. -/
def isSpecial (c : Char) : Bool := " \t\n!\"$&'()*;<=>?[\\^`|".toList.contains c

/-- A name between quotes. -/
def quotedName (name : String) : String :=
  let cs := name.toList
  if cs.contains '\'' && !cs.any fun c => "\"$`\\!".toList.contains c then "\"" ++ name ++ "\""
  else "'" ++ String.ofList (cs.flatMap fun c => if c = '\'' then "'\\''".toList else [c]) ++ "'"

/-- A name as programs show it: between quotes if it would not be one plain word of a script. -/
def shownName (name : String) : String :=
  let cs := name.toList
  let plain := !cs.isEmpty && !cs.any isSpecial && !(cs.head?.any fun c => c = '#' || c = '~')
  if plain then name else quotedName name

/-- The options and the other arguments of a program. Options of `valued` take a value, which may be the next argument: then the option is `waiting` for it. -/
def argumentsFrom (valued : List Char) : Option Char → List String → List (Char × String) × List String
  | none, [] => ([], [])
  | some option, [] => ([(option, "")], [])
  | some option, value :: rest =>
    let (more, operands) := argumentsFrom valued none rest
    ((option, value) :: more, operands)
  | none, arg :: rest =>
    match arg.toList with
    | ['-', '-'] => ([], rest)
    | '-' :: c :: letters =>
      let before := (c :: letters).takeWhile fun c => !valued.contains c
      let flags := before.map fun c => (c, "")
      match (c :: letters).drop before.length with
      | [] =>
        let (more, operands) := argumentsFrom valued none rest
        (flags ++ more, operands)
      | [option] =>
        let (more, operands) := argumentsFrom valued (some option) rest
        (flags ++ more, operands)
      | option :: value =>
        let (more, operands) := argumentsFrom valued none rest
        (flags ++ (option, String.ofList value) :: more, operands)
    | _ =>
      let (more, operands) := argumentsFrom valued none rest
      (more, arg :: operands)

/-- The options and the other arguments of a program. -/
def arguments (valued : List Char) (args : List String) : List (Char × String) × List String := argumentsFrom valued none args

/-- The first option that is unknown. -/
def unknown? (known : List Char) (options : List (Char × String)) : Option Char :=
  (options.find? fun o => !known.contains o.1).map (·.1)

/-- The refusal of an option. -/
def refuse (program : String) (option : Char) : ProcessOutput :=
  .complaint (program ++ ": invalid option -- '" ++ String.ofList [option] ++ "'" ++ hint program)

/-- Why a file cannot be read. -/
def reason (w : Workplace) (path : String) : String :=
  if w.passesFile path then "Not a directory" else if w.isThere path then "Is a directory" else "No such file or directory"

/-- The bytes that a path or a dash stands for. -/
def read? (w : Workplace) (input : List UInt8) (path : String) : Option (List UInt8) :=
  if path = "-" || path = "/dev/stdin" then some input
  else if path = "/dev/null" then some []
  else (w.file? path).map SourceFile.bytes

/-- The input and files printed one after another; the status tells whether all could be. -/
def printFiles (w : Workplace) : List UInt8 → List String → ProcessOutput
  | _, [] => {}
  | input, path :: rest =>
    let first := match read? w input path with
      | some bytes => { stdout := bytes }
      | none => .complaint ("cat: " ++ shownName path ++ ": " ++ reason w path)
    let others := printFiles w (if path = "-" then [] else input) rest
    { first ++ others with ending := .exited (max first.status others.status) }

/-- Bytes up to and with the line end of each line. -/
def fullLines : List UInt8 → List (List UInt8)
  | [] => []
  | b :: rest =>
    if b = 10 then [b] :: fullLines rest
    else
      match fullLines rest with
      | line :: lines => (b :: line) :: lines
      | [] => [[b]]

/-- How lines are printed: with marks for what is not seen, and with numbers. -/
structure LineStyle where
  numbers : Bool
  numbersOfFilled : Bool
  ends : Bool
  tabs : Bool
  hidden : Bool
  oneEmpty : Bool
deriving Repr, DecidableEq, Inhabited

/-- The style that options ask for. -/
def LineStyle.ofOptions (letters : List Char) : LineStyle :=
  let has (any : List Char) : Bool := any.any letters.contains
  { numbers := has ['n'] && !has ['b'], numbersOfFilled := has ['b'], ends := has ['E', 'e', 'A'], tabs := has ['T', 't', 'A']
    hidden := has ['v', 'e', 't', 'A'], oneEmpty := has ['s'] }

/-- A byte with marks instead of what is not seen. -/
def LineStyle.byte (style : LineStyle) (b : UInt8) : List UInt8 :=
  let low (b : UInt8) : List UInt8 := if b < 32 then [94, b + 64] else if b = 127 then [94, 63] else [b]
  if b = 10 then [b]
  else if b = 9 then if style.tabs then [94, 73] else [b]
  else if !style.hidden then [b]
  else if 128 ≤ b then [77, 45] ++ low (b - 128)
  else low b

/-- A line with its end marked. -/
def LineStyle.line (style : LineStyle) (line : List UInt8) : List UInt8 :=
  let bytes := line.flatMap style.byte
  if style.ends && line.getLast? = some 10 then bytes.dropLast ++ [36, 10] else bytes

/-- Lines in a style. `number` is that of the next line, and `afterEmpty` tells whether an empty line came before. -/
def LineStyle.lines (style : LineStyle) : Nat → Bool → List (List UInt8) → List UInt8
  | _, _, [] => []
  | number, afterEmpty, line :: rest =>
    let isEmpty := line = [10]
    if style.oneEmpty && afterEmpty && isEmpty then style.lines number true rest
    else
      let counts := style.numbers || (style.numbersOfFilled && !isEmpty)
      let shown := if counts then Text.encode (String.ofList (Text.padLeft 6 (toString number).toList) ++ "\t") else []
      shown ++ style.line line ++ style.lines (if counts then number + 1 else number) isEmpty rest

/-- The options of a file printer that have long names, with the letters for them. -/
def longNames : List (String × String) :=
  [("--show-all", "-A"), ("--number-nonblank", "-b"), ("--show-ends", "-E"), ("--number", "-n"), ("--squeeze-blank", "-s"),
    ("--show-tabs", "-T"), ("--show-nonprinting", "-v")]

/-- Prints files, or the input if there are none. -/
def print (w : Workplace) (input : List UInt8) (args : List String) : ProcessOutput :=
  let (options, files) := arguments [] (args.map fun arg => (longNames.lookup arg).getD arg)
  match unknown? "AbeEnstTuv".toList options with
  | some '-' =>
    let long := (args.find? fun arg => arg ≠ "--" && Text.startsWith ['-', '-'] arg.toList && (longNames.lookup arg).isNone).getD ""
    if long = "--help" || long = "--version" then { stdout := Text.encode "Usage: cat [OPTION]... [FILE]...\n" }
    else .complaint ("cat: unrecognized option '" ++ long ++ "'" ++ hint "cat")
  | some c => refuse "cat" c
  | none =>
    let out := if files.isEmpty then { stdout := input } else printFiles w input files
    let style := LineStyle.ofOptions (options.map (·.1))
    if style = LineStyle.ofOptions [] then out else { out with stdout := style.lines 1 false (fullLines out.stdout) }

/-- Which part of a file is kept: so many lines or bytes, from the beginning or at the end. A sign tells that all others are meant. -/
structure Extent where
  bytes : Bool := false
  signed : Bool := false
  count : Nat := 10
deriving Repr, DecidableEq, Inhabited

/-- An extent by an option. `sign` is the one that stands for all others. -/
def Extent.ofOption? (sign : Char) (option : Char × String) : Option Extent :=
  match option.2.toList with
  | c :: digits =>
    if c = sign then (Number.nat? digits).map fun n => { bytes := option.1 = 'c', signed := true, count := n }
    else (Number.nat? (if c = '-' then digits else c :: digits)).map fun n => { bytes := option.1 = 'c', count := n }
  | [] => none

/-- The beginning of bytes. -/
def Extent.beginning (e : Extent) (bytes : List UInt8) : List UInt8 :=
  if e.bytes then bytes.take (if e.signed then bytes.length - e.count else e.count)
  else
    let lines := fullLines bytes
    (lines.take (if e.signed then lines.length - e.count else e.count)).flatten

/-- The end of bytes. -/
def Extent.ending (e : Extent) (bytes : List UInt8) : List UInt8 :=
  if e.bytes then bytes.drop (if e.signed then e.count - 1 else bytes.length - e.count)
  else
    let lines := fullLines bytes
    (lines.drop (if e.signed then e.count - 1 else lines.length - e.count)).flatten

/-- A first argument that is a dash and digits asks for so many lines. -/
def withCountOption : List String → List String
  | [] => []
  | arg :: rest =>
    match arg.toList with
    | '-' :: digits => if (Number.nat? digits).isSome then "-n" :: String.ofList digits :: rest else arg :: rest
    | _ => arg :: rest

/-- A part of each file, under its name if there are several. The file of zeros is as long as is asked for. -/
def cutFiles (w : Workplace) (program : String) (cut : List UInt8 → List UInt8) (zeros : Nat) (several : Bool) (isFirst : Bool)
    (input : List UInt8) : List String → ProcessOutput
  | [] => {}
  | path :: rest =>
    let shown := if path = "-" then "standard input" else path
    let title := if several then Text.encode ((if isFirst then "" else "\n") ++ "==> " ++ shown ++ " <==\n") else []
    let bytes? := if path = "/dev/zero" then some (List.replicate zeros 0) else read? w input path
    let first := match bytes? with
      | some bytes => { stdout := title ++ cut bytes }
      | none =>
        if reason w path = "Is a directory" then
          { ProcessOutput.complaint (program ++ ": error reading " ++ quotedName path ++ ": Is a directory") with stdout := title }
        else .complaint (program ++ ": cannot open " ++ quotedName path ++ " for reading: " ++ reason w path)
    let others := cutFiles w program cut zeros several (isFirst && first.stdout.isEmpty) input rest
    { first ++ others with ending := .exited (max first.status others.status) }

/-- The beginnings or the ends of files, or of the input if there are none. -/
def excerpt (w : Workplace) (program : String) (sign : Char) (cut : Extent → List UInt8 → List UInt8) (input : List UInt8)
    (args : List String) : ProcessOutput :=
  let (options, files) := arguments ['n', 'c'] (withCountOption args)
  let counts := options.filter fun o => o.1 = 'n' || o.1 = 'c'
  match unknown? "ncqv".toList options, counts.find? fun o => (Extent.ofOption? sign o).isNone with
  | some c, _ => refuse program c
  | none, some o =>
    .complaint (program ++ ": invalid number of " ++ (if o.1 = 'c' then "bytes" else "lines") ++ ": " ++ quotedName o.2)
  | none, none =>
    let extent := ((counts.getLast?).bind (Extent.ofOption? sign)).getD {}
    let several := (2 ≤ files.length || options.any (·.1 = 'v')) && !options.any (·.1 = 'q')
    cutFiles w program (cut extent) extent.count several true input (if files.isEmpty then ["-"] else files)

/-- How many lines, words and bytes there are. -/
def countsOf (bytes : List UInt8) : List (Char × Nat) :=
  let isGap (b : UInt8) : Bool := b = 32 || (9 ≤ b && b ≤ 13)
  let starts := (bytes.zip (32 :: bytes)).countP fun (b, before) => !isGap b && isGap before
  [('l', bytes.count 10), ('w', starts), ('m', (Text.decode bytes).length), ('c', bytes.length)]

/-- Counts in columns, with a name after them. -/
def countLine (width : Nat) (kinds : List Char) (name : String) (counts : List (Char × Nat)) : String :=
  let shown := (counts.filter fun c => kinds.contains c.1).map fun c =>
    String.ofList (Text.padLeft width (toString c.2).toList)
  " ".intercalate shown ++ (if name.isEmpty then "" else " " ++ name) ++ "\n"

/-- Counts of files, or of the input if there are none; of several files also the sum. -/
def countAll (w : Workplace) (input : List UInt8) (args : List String) : ProcessOutput :=
  let (options, files) := arguments [] args
  match unknown? "lwcm".toList options with
  | some c => refuse "wc" c
  | none =>
    let kinds := if options.isEmpty then ['l', 'w', 'c'] else options.map (·.1)
    let named := if files.isEmpty then ["-"] else files
    let found := named.filterMap fun path => (read? w input path).map fun bytes => (path, bytes)
    let size : Nat := (found.map fun f => f.2.length).foldl (· + ·) 0
    let width :=
      if kinds.length = 1 && named.length = 1 then 1 else if named.contains "-" then 7 else (toString size).length
    let lines := named.map fun path =>
      match read? w input path with
      | some bytes => ({ stdout := Text.encode (countLine width kinds (if files.isEmpty then "" else path) (countsOf bytes)) } : ProcessOutput)
      | none => .complaint ("wc: " ++ shownName path ++ ": " ++ reason w path)
    let total :=
      if named.length < 2 then []
      else
        let all := ['l', 'w', 'm', 'c'].map fun kind =>
          (kind, (found.map fun f => ((countsOf f.2).lookup kind).getD 0).foldl (· + ·) 0)
        Text.encode (countLine width kinds "total" all)
    { stdout := lines.flatMap ProcessOutput.stdout ++ total, stderr := lines.flatMap ProcessOutput.stderr
      ending := .exited ((lines.map ProcessOutput.status).foldl max 0) }

/-- Classes of bytes by their names. -/
def classBytes (name : List Char) : List UInt8 :=
  let those (p : Char → Bool) : List UInt8 := ((List.range 128).filter fun n => p (Char.ofNat n)).map Nat.toUInt8
  match String.ofList name with
  | "upper" => those Char.isUpper
  | "lower" => those Char.isLower
  | "digit" => those Char.isDigit
  | "alpha" => those Char.isAlpha
  | "alnum" => those Char.isAlphanum
  | "space" => those fun c => c = ' ' || (9 ≤ c.toNat && c.toNat ≤ 13)
  | "blank" => those fun c => c = ' ' || c = '\t'
  | "punct" => those fun c => 32 < c.toNat && c.toNat < 127 && !c.isAlphanum
  | _ => []

/-- The bytes between two bytes. -/
def between (a b : UInt8) : List UInt8 := (List.range (b.toNat + 1 - a.toNat)).map fun n => (a.toNat + n).toUInt8

/-- A set of bytes: bytes, ranges and classes. `fuel` bounds its parts. -/
def setFrom : Nat → List UInt8 → List UInt8
  | 0, _ => []
  | _, [] => []
  | fuel + 1, 91 :: 58 :: rest =>
    let name := rest.takeWhile (· ≠ 58)
    classBytes (name.map fun b => Char.ofNat b.toNat) ++ setFrom fuel (rest.drop (name.length + 2))
  | fuel + 1, a :: 45 :: b :: rest => between a b ++ setFrom fuel rest
  | fuel + 1, a :: rest => a :: setFrom fuel rest

/-- The set of bytes that a text describes. -/
def setOf (text : String) : List UInt8 :=
  let bytes := (Format.unescaped false text.toList).1
  setFrom (bytes.length + 1) bytes

/-- Runs of one byte of a set reduced to one byte; `last` is the byte before. -/
def squeeze (set : List UInt8) : Option UInt8 → List UInt8 → List UInt8
  | _, [] => []
  | last, b :: rest => if last = some b && set.contains b then squeeze set last rest else b :: squeeze set (some b) rest

/-- Exchanges the bytes of one set for those of another, or deletes them. -/
def exchange (input : List UInt8) (args : List String) : ProcessOutput :=
  let (options, sets) := arguments [] args
  let has (letters : List Char) : Bool := options.any fun o => letters.contains o.1
  let listed := setOf (sets.headD "")
  let first := if has ['c', 'C'] then (between 0 255).filter fun b => !listed.contains b else listed
  let second := setOf ((sets.drop 1).headD "")
  match unknown? "cCdst".toList options, sets with
  | some c, _ => refuse "tr" c
  | none, [] => .complaint ("tr: missing operand" ++ hint "tr")
  | none, [only] =>
    if has ['d'] then { stdout := input.filter fun b => !first.contains b }
    else if has ['s'] then { stdout := squeeze first none input }
    else
      .complaint ("tr: missing operand after " ++ quotedName only ++ "\nTwo strings must be given when translating." ++ hint "tr")
  | none, _ :: _ :: extra :: _ => .complaint ("tr: extra operand " ++ quotedName extra ++ hint "tr")
  | none, _ =>
    let image (b : UInt8) : UInt8 :=
      match first.idxOf? b with
      | some i => (second[i]?).getD (second.getLast?.getD b)
      | none => b
    let kept := if has ['d'] then input.filter fun b => !first.contains b else input.map image
    { stdout := if has ['s'] then squeeze second none kept else kept }

/-- The last name on a path, without an ending. -/
def lastName (args : List String) : ProcessOutput :=
  let (options, operands) := arguments [] args
  match unknown? "az".toList options, operands with
  | some c, _ => refuse "basename" c
  | none, [] => .complaint ("basename: missing operand" ++ hint "basename")
  | none, path :: more =>
    let trimmed := Text.dropEndWhile (· = '/') path.toList
    let name := ((Text.splitOn '/' trimmed).getLast?).getD []
    let name := if name.isEmpty && !path.isEmpty then ['/'] else name
    let ending := (more.headD "").toList
    let name := if name = ending then name else (Text.before? ending name).getD name
    { stdout := Text.encode (String.ofList name ++ "\n") }

/-- A path without its last name. -/
def leadingPath (args : List String) : ProcessOutput :=
  match args with
  | [] => .complaint ("dirname: missing operand" ++ hint "dirname")
  | paths =>
    let shorten (path : String) : String :=
      match Text.splitLast? '/' (Text.dropEndWhile (· = '/') path.toList) with
      | some (dir, _) =>
        let dir := Text.dropEndWhile (· = '/') dir
        if dir.isEmpty then "/" else String.ofList dir
      | none => if Path.isAbsolute path then "/" else "."
    { stdout := Text.encode (String.join (paths.map fun path => shorten path ++ "\n")) }

/-- The numbers from one to another by steps. -/
def countUp (args : List String) : ProcessOutput :=
  let numbers := args.map fun a => Number.int64? a.toList
  match args.find? fun a => (Number.int64? a.toList).isNone with
  | some other => .complaint ("seq: invalid floating point argument: " ++ quotedName other ++ hint "seq")
  | none =>
    let bounds : Option (Int × Int × Int) := match numbers with
      | [some last] => some (1, 1, last)
      | [some first, some last] => some (first, 1, last)
      | [some first, some step, some last] => some (first, step, last)
      | _ => none
    match bounds with
    | none => .complaint ("seq: missing operand" ++ hint "seq")
    | some (first, step, last) =>
      let count := if step = 0 then 0 else if (last - first) / step < 0 then 0 else ((last - first) / step + 1).toNat
      { stdout := Text.encode (String.join ((List.range count).map fun (n : Nat) => toString (first + step * (n : Int)) ++ "\n")) }

/-- Bytes of an endless output that are looked at. -/
def endlessBytes : Nat := 256 * 1024

/-- A line again and again. -/
def repeatLine (args : List String) : ProcessOutput :=
  let line := Format.line true false (if args.isEmpty then ["y"] else args)
  { stdout := (List.replicate (endlessBytes / line.length) line).flatten, elapsed := ProcessOutput.forever }

end Filter

end CodeAtlas
