import SourceAudit.Toml.Basic
import SourceAudit.Toml.Literal

/-! Reading configuration files in TOML 1.0.

A table may be opened by a header, by the path of another header, or by a dotted key, and each
way of opening it allows other additions later. So while a file is read, tables remember how
they were opened. -/
namespace SourceAudit.Toml

/-! ### Tables under construction -/

/-- What a key stands for while a file is read. -/
inductive Item where
  | value (v : Toml)
  /-- A table; `implicit` if no header of its own has opened it, `dotted` if a dotted key
  has. -/
  | table (implicit dotted : Bool) (entries : List (String × Item))
  /-- The tables that headers in double brackets have opened. -/
  | tables (list : List (List (String × Item)))

/-- A table under construction. -/
structure Frame where
  implicit : Bool
  dotted : Bool
  entries : List (String × Item)

namespace Frame

/-- The table with one entry more. -/
def add (frame : Frame) (key : String) (item : Item) : Frame :=
  { frame with entries := frame.entries ++ [(key, item)] }

/-- The table with one entry replaced. -/
def replace (frame : Frame) (key : String) (item : Item) : Frame :=
  { frame with entries := frame.entries.map fun (k, v) => if k = key then (k, item) else (k, v) }

/-- The table as what a key stands for. -/
def toItem (frame : Frame) : Item := .table frame.implicit frame.dotted frame.entries

/-- Changes the table at a path, opening tables on the way; a dotted key may not go through a
table that a header has opened. -/
def within (dotted : Bool) (change : Frame → Option Frame) : List String → Frame → Option Frame
  | [], frame => change frame
  | key :: path, frame =>
    match frame.entries.lookup key with
    | none =>
      (within dotted change path ⟨true, dotted, []⟩).map fun inner => frame.add key inner.toItem
    | some (.value _) => none
    | some (.tables list) =>
      match list.getLast? with
      | none => none
      | some last =>
        (within dotted change path ⟨false, false, last⟩).map fun inner =>
          frame.replace key (.tables (list.dropLast ++ [inner.entries]))
    | some (.table implicit isDotted entries) =>
      if dotted && !implicit then none
      else
        (within dotted change path ⟨implicit, isDotted, entries⟩).map fun inner =>
          frame.replace key inner.toItem

/-- Adds a key with its value; a key may not be given twice. -/
def insert (key : String) (v : Toml) (frame : Frame) : Option Frame :=
  if (frame.entries.lookup key).isSome then none
  else some (frame.add key (.value v))

/-- Adds a value under a key whose parts stand between dots. -/
def insertAt (key : List String) (v : Toml) (frame : Frame) : Option Frame :=
  let path := key.dropLast
  within true (fun inner =>
    if inner.dotted = path.isEmpty then none else insert (key.getLastD "") v inner) path frame

/-- Opens the table of a header. -/
def openTable (key : List String) (root : Frame) : Option Frame :=
  let last := key.getLastD ""
  within false (fun frame =>
    match frame.entries.lookup last with
    | none => some (frame.add last (.table false false []))
    | some (.table true false entries) => some (frame.replace last (.table false false entries))
    | some _ => none) key.dropLast root

/-- Opens one more table of a header in double brackets. -/
def openTables (key : List String) (root : Frame) : Option Frame :=
  let last := key.getLastD ""
  within false (fun frame =>
    match frame.entries.lookup last with
    | none => some (frame.add last (.tables [[]]))
    | some (.tables list) => some (frame.replace last (.tables (list ++ [[]])))
    | some _ => none) key.dropLast root

end Frame

mutual
/-- The value that an item has become. -/
def Item.finish : Item → Toml
  | .value v => v
  | .table _ _ entries => .table (finishEntries entries)
  | .tables list => .arr (finishTables list)
termination_by structural i => i

def finishEntries : List (String × Item) → List (String × Toml)
  | [] => []
  | (k, v) :: rest => (k, v.finish) :: finishEntries rest
termination_by structural es => es

def finishTables : List (List (String × Item)) → List Toml
  | [] => []
  | entries :: rest => .table (finishEntries entries) :: finishTables rest
termination_by structural ts => ts
end

/-! ### Keys -/

/-- The deepest that lists and tables may nest, and the most parts a key may have. -/
def depthLimit : Nat := 80

def skipBlanks (text : List Char) : List Char := text.dropWhile isBlank

def isBareChar (c : Char) : Bool := c.isAlphanum || c = '_' || c = '-'

/-- One part of a key. -/
def readKeyPart (text : List Char) : Option (String × List Char) :=
  match text with
  | c :: _ =>
    if c = '"' || c = '\x27' then (readShort text).map fun (cs, r) => (String.ofList cs, r)
    else
      let part := text.takeWhile isBareChar
      if part.isEmpty then none else some (String.ofList part, text.drop part.length)
  | [] => none

/-- A key: parts between dots, with blanks around each. -/
def readKey : Nat → List Char → Option (List String × List Char)
  | 0, _ => none
  | steps + 1, text => do
    let (part, r) ← readKeyPart (skipBlanks text)
    match skipBlanks r with
    | '.' :: s => (readKey steps s).map fun (parts, t) => (part :: parts, t)
    | s => return ([part], s)

/-- A key of at most so many parts. -/
def readShortKey (text : List Char) : Option (List String × List Char) :=
  readKey (depthLimit - 1) text

/-! ### Values -/

/-- Skips a comment. -/
def skipComment (text : List Char) : List Char :=
  match text with
  | '#' :: r => r.dropWhile isPlain
  | _ => text

/-- Skips blanks, comments and line ends, as they may stand in a list. -/
def skipGap : Nat → List Char → List Char
  | 0, text => text
  | steps + 1, text =>
    match skipBlanks text with
    | '#' :: r => skipGap steps (r.dropWhile isPlain)
    | '\n' :: r => skipGap steps r
    | '\r' :: '\n' :: r => skipGap steps r
    | r => r

/-- A number, a truth value or a moment. -/
def readScalar (text : List Char) : Option (Toml × List Char) :=
  match text with
  | 't' :: 'r' :: 'u' :: 'e' :: r => some (.bool true, r)
  | 'f' :: 'a' :: 'l' :: 's' :: 'e' :: r => some (.bool false, r)
  | _ =>
    let written (rest : List Char) := text.take (text.length - rest.length)
    match skipMoment text with
    | some r => some (.moment (written r), r)
    | none =>
      match skipFloat text with
      | some r => some (.float (written r), r)
      | none => (readInteger text).map fun (n, r) => (.int n, r)

mutual
/-- The value at the beginning of a text, inside so many lists and tables. -/
def readValue : Nat → Nat → List Char → Option (Toml × List Char)
  | 0, _, _ => none
  | steps + 1, depth, text =>
    match text with
    | '"' :: _ => (readString text).map fun (cs, r) => (.str (String.ofList cs), r)
    | '\x27' :: _ => (readString text).map fun (cs, r) => (.str (String.ofList cs), r)
    | '[' :: r =>
      if depth + 1 < depthLimit then
        (readItems steps (depth + 1) r).map fun (items, s) => (.arr items, s)
      else none
    | '\x7b' :: r =>
      if depth + 1 < depthLimit then
        match skipBlanks r with
        | '\x7d' :: s => some (.table [], s)
        | s => do
          let (frame, t) ← readPairs steps (depth + 1) ⟨false, false, []⟩ s
          return (.table (finishEntries frame.entries), t)
      else none
    | _ => readScalar text

/-- The items of a list up to its closing bracket. -/
def readItems : Nat → Nat → List Char → Option (List Toml × List Char)
  | 0, _, _ => none
  | steps + 1, depth, text =>
    match skipGap (text.length + 1) text with
    | ']' :: r => some ([], r)
    | r => do
      let (v, s) ← readValue steps depth r
      match skipGap (s.length + 1) s with
      | ']' :: t => return ([v], t)
      | ',' :: t => do
        let (vs, u) ← readItems steps depth t
        return (v :: vs, u)
      | _ => none

/-- The pairs of a table in braces up to its closing brace. -/
def readPairs : Nat → Nat → Frame → List Char → Option (Frame × List Char)
  | 0, _, _, _ => none
  | steps + 1, depth, frame, text => do
    let (key, r) ← readShortKey text
    match skipBlanks r with
    | '=' :: s => do
      let (v, t) ← readValue steps depth (skipBlanks s)
      let frame ← frame.insertAt key v
      match skipBlanks t with
      | '\x7d' :: u => return (frame, u)
      | ',' :: u => readPairs steps depth frame u
      | _ => none
    | _ => none
end

/-! ### Files -/

/-- The text after the rest of a line that holds nothing but a comment. -/
def endLine (text : List Char) : Option (List Char) :=
  match skipComment (skipBlanks text) with
  | [] => some []
  | r => afterNewline r

/-- The tables read so far, and the path of the one that keys go to. -/
structure Progress where
  root : Frame
  current : List String

/-- Reads a header after its first bracket. -/
def readHeader (p : Progress) (text : List Char) : Option (Progress × List Char) :=
  match text with
  | '[' :: r => do
    let (key, s) ← readShortKey r
    match s with
    | ']' :: ']' :: t => return (⟨← p.root.openTables key, key⟩, ← endLine t)
    | _ => none
  | _ => do
    let (key, s) ← readShortKey text
    match s with
    | ']' :: t => return (⟨← p.root.openTable key, key⟩, ← endLine t)
    | _ => none

/-- Reads a key with its value. -/
def readPair (p : Progress) (text : List Char) : Option (Progress × List Char) := do
  let (key, r) ← readShortKey text
  match r with
  | '=' :: s => do
    let (v, t) ← readValue (2 * s.length + 2) 0 (skipBlanks s)
    let root ← p.root.within false (Frame.insertAt key v) p.current
    return ({ p with root }, ← endLine t)
  | _ => none

/-- Reads the lines of a file. -/
def readLines : Nat → Progress → List Char → Option Progress
  | 0, p, text => if text.isEmpty then some p else none
  | steps + 1, p, text =>
    match skipBlanks text with
    | [] => some p
    | '#' :: r => (endLine ('#' :: r)).bind (readLines steps p)
    | '[' :: r => (readHeader p r).bind fun (p, s) => readLines steps p s
    | r =>
      match afterNewline r with
      | some s => readLines steps p s
      | none => (readPair p r).bind fun (p, s) => readLines steps p s

/-- The table that a file stands for. A byte order mark before the text is skipped. -/
def ofText? (text : List Char) : Option Toml := do
  let text := match text with
    | c :: r => if c.toNat = 0xFEFF then r else text
    | [] => []
  let p ← readLines (text.length + 1) ⟨⟨false, false, []⟩, []⟩ text
  return .table (finishEntries p.root.entries)

end SourceAudit.Toml
