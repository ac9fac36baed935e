import PluginGuard.Table
import PluginGuard.Yaml.Stream

/-!
# Nodes of a document

The structure that the tokens spell: scalars, lists, tables and references to
nodes that carry an anchor. A text holds at most one document.
-/
namespace PluginGuard.Yaml

inductive Node
  | scalar (tag : Option Tag) (style : Style) (text : String)
  | list (items : List Node)
  | table (entries : List (Node × Node))
  /-- The node that was marked with this number. -/
  | reference (mark : Nat)
  deriving Repr

def Node.absent : Node := .scalar none .plain ""

mutual

/-- How many parts a node is written in: one for a scalar or a reference, and the
start and the end of a list or a table. -/
def Node.parts : Node → Nat
  | .scalar .. => 1
  | .reference _ => 1
  | .list items => 2 + partsOfItems items
  | .table entries => 2 + partsOfEntries entries

def Node.partsOfItems : List Node → Nat
  | [] => 0
  | n :: ns => n.parts + partsOfItems ns

def Node.partsOfEntries : List (Node × Node) → Nat
  | [] => 0
  | (k, v) :: es => k.parts + v.parts + partsOfEntries es

end

structure Document where
  root : Node
  marked : List (Nat × Node)
  deriving Repr

structure Composition where
  tokens : List Token
  handles : Table Tag
  /-- The mark of each anchor's name. -/
  names : Table Nat
  /-- The marks of all anchors, newest first. -/
  marks : List Nat
  /-- The nodes that carry anchors, by the number of anchors before them. -/
  marked : List (Nat × Node)

namespace Composition

abbrev Composing := StateT Composition Option

def refuse {α : Type} : Composing α := fun _ => none

def peek : Composing (Option Token) := return (← get).tokens.head?

def skip : Composing Unit := modify fun c => { c with tokens := c.tokens.tail }

def taken (t : Token) : Composing Bool := do
  if (← peek) == some t then
    skip
    return true
  else return false

def expect (t : Token) : Composing Unit := do
  if ← taken t then return else refuse

def nextIs (ts : List Token) : Composing Bool := do
  match ← peek with
  | some t => return ts.contains t
  | none => return false

/-! ### Anchors and tags -/

/-- Names an anchor; its mark counts the names that are known. Gives the number of
anchors before it. -/
def declare (name : String) : Composing Nat := do
  let c ← get
  let mark := c.names.entries.length
  set { c with names := c.names.insert name mark, marks := mark :: c.marks }
  return c.marks.length

def referTo (name : String) : Composing Node := do
  match (← get).names.find? name with
  | some mark => return .reference mark
  | none => refuse

def resolve (handle : String) (suffix : Tag) : Composing Tag := do
  if handle.isEmpty then return suffix
  else
    match (← get).handles.find? handle with
    | some meaning => return meaning ++ suffix
    | none => refuse

structure Properties where
  anchor : Option String
  tag : Option Tag

def anchor? : Composing (Option String) := do
  match ← peek with
  | some (.anchor name) => do
    skip
    return some name
  | _ => return none

def tag? : Composing (Option Tag) := do
  match ← peek with
  | some (.tag handle suffix) => do
    skip
    return some (← resolve handle suffix)
  | _ => return none

def properties : Composing Properties := do
  match ← anchor? with
  | some name => return ⟨some name, ← tag?⟩
  | none => do
    let tag ← tag?
    if tag.isSome then return ⟨← anchor?, tag⟩ else return ⟨none, none⟩

/-! ### Nodes -/

def afterDash : List Token := [.dash, .blockEnd]
def afterLooseDash : List Token := [.dash, .key, .value, .blockEnd]
def afterKey : List Token := [.key, .value, .blockEnd]

mutual

/-- A node; `block` says that it may be indented on lines of its own, `loose` that
the items of a list need no indentation. -/
def node : Nat → (block loose : Bool) → Composing Node
  | 0, _, _ => refuse
  | fuel + 1, block, loose => do
    match ← peek with
    | some (.alias name) => do
      skip
      referTo name
    | _ => do
      let ps ← properties
      let number ← ps.anchor.mapM declare
      let n ← content fuel block loose ps
      match number with
      | some number => do
        modify fun c => { c with marked := (number, n) :: c.marked }
        return n
      | none => return n

def content : Nat → (block loose : Bool) → Properties → Composing Node
  | 0, _, _, _ => refuse
  | fuel + 1, block, loose, ps => do
    let bare : Composing Node :=
      if ps.anchor.isSome || ps.tag.isSome then return .scalar ps.tag .plain "" else refuse
    match ← peek with
    | some (.scalar style text) => do
      skip
      return .scalar (if ps.tag == some Token.anyTag then none else ps.tag) style text
    | some .listOpen => do
      skip
      return .list (← flowItems fuel true)
    | some .tableOpen => do
      skip
      return .table (← flowPairs fuel true)
    | some .dash => if loose then return .list (← looseItems fuel) else bare
    | some .sequenceStart =>
      if block then do
        skip
        return .list (← items fuel)
      else bare
    | some .mappingStart =>
      if block then do
        skip
        return .table (← pairs fuel)
      else bare
    | _ => bare

def nodeBefore : Nat → List Token → (block loose : Bool) → Composing Node
  | 0, _, _, _ => refuse
  | fuel + 1, stops, block, loose => do
    if ← nextIs stops then return .absent else node fuel block loose

def items : Nat → Composing (List Node)
  | 0 => refuse
  | fuel + 1 => do
    if ← taken .dash then
      let n ← nodeBefore fuel afterDash true false
      return n :: (← items fuel)
    else if ← taken .blockEnd then return []
    else refuse

def looseItems : Nat → Composing (List Node)
  | 0 => refuse
  | fuel + 1 => do
    if ← taken .dash then
      let n ← nodeBefore fuel afterLooseDash true false
      return n :: (← looseItems fuel)
    else return []

def value : Nat → List Token → (block loose : Bool) → Composing Node
  | 0, _, _, _ => refuse
  | fuel + 1, stops, block, loose => do
    if ← taken .value then nodeBefore fuel stops block loose else return .absent

def pairs : Nat → Composing (List (Node × Node))
  | 0 => refuse
  | fuel + 1 => do
    if ← taken .key then
      let k ← nodeBefore fuel afterKey true true
      let v ← value fuel afterKey true true
      return (k, v) :: (← pairs fuel)
    else if ← taken .blockEnd then return []
    else refuse

def flowItems : Nat → (first : Bool) → Composing (List Node)
  | 0, _ => refuse
  | fuel + 1, first => do
    if ← taken .listClose then return []
    if !first then expect .comma
    if ← taken .listClose then return []
    if ← taken .key then
      let p ← flowPair fuel
      return .table [p] :: (← flowItems fuel false)
    else
      let n ← node fuel false false
      return n :: (← flowItems fuel false)

def flowPair : Nat → Composing (Node × Node)
  | 0 => refuse
  | fuel + 1 => do
    let k ← if ← nextIs [.value, .comma, .listClose] then
        skip
        pure Node.absent
      else node fuel false false
    return (k, ← value fuel [.comma, .listClose] false false)

def flowPairs : Nat → (first : Bool) → Composing (List (Node × Node))
  | 0, _ => refuse
  | fuel + 1, first => do
    if ← taken .tableClose then return []
    if !first then expect .comma
    if ← taken .tableClose then return []
    if ← taken .key then
      let k ← nodeBefore fuel [.value, .comma, .tableClose] false false
      let v ← value fuel [.comma, .tableClose] false false
      return (k, v) :: (← flowPairs fuel false)
    else
      let k ← node fuel false false
      return (k, .absent) :: (← flowPairs fuel false)

end

/-! ### Documents -/

def knownHandles : Table Tag :=
  .ofList [("!", Token.anyTag), ("!!", Text.Utf8.encode "tag:yaml.org,2002:")]

/-- Directives, each at most once; the flag says whether a version was given. -/
def directives : Nat → (versioned : Bool) → Table Tag → Composing (Table Tag)
  | 0, _, _ => refuse
  | fuel + 1, versioned, handles => do
    match ← peek with
    | some (.version major minor) =>
      if versioned || major != 1 || (minor != 1 && minor != 2) then refuse
      else do
        skip
        directives fuel true handles
    | some (.tagShort handle meaning) =>
      if (handles.find? handle).isSome then refuse
      else do
        skip
        directives fuel versioned (handles.insert handle meaning)
    | _ => return handles

def isDirective : Token → Bool
  | .version .. => true
  | .tagShort .. => true
  | _ => false

def marked? (fuel : Nat) : Composing Node := do
  match ← peek with
  | none => return .absent
  | some t =>
    if isDirective t || t == .documentStart || t == .documentEnd then return .absent
    else node fuel true false

def root (fuel : Nat) : Composing Node := do
  match ← peek with
  | none => return .absent
  | some t =>
    if isDirective t || t == .documentStart then
      let handles ← directives fuel false .empty
      modify fun c =>
        { c with handles := Table.ofList (knownHandles.entries ++ handles.entries) }
      expect .documentStart
      marked? fuel
    else node fuel true false

/-- The marks with their nodes. Of two anchors with one mark the later one goes first. -/
def byMark (c : Composition) : List (Nat × Node) :=
  (c.marks.zip (List.range c.marks.length).reverse).filterMap fun (mark, number) =>
    (c.marked.find? (·.1 == number)).map fun (_, n) => (mark, n)

end Composition

open PluginGuard.Yaml.Composition in
def Document.parse? (text : String) : Option Document := do
  let ts ← tokens? text
  let (root, c) ← (Composition.root (6 * ts.length + 8)).run ⟨ts, knownHandles, .empty, [], []⟩
  if c.tokens.all (· == .documentEnd) then return ⟨root, c.byMark⟩ else none

end PluginGuard.Yaml
