import RecordSchema.Yaml.Layout
import Std.Data.HashMap

/-!
# YAML documents

A document is a tree of scalars, sequences and mappings.  An alias is a leaf of the tree, and what
it stands for is looked up, so that a node may hold an alias to itself.  The larger a document, the
more aliases may be followed in reading it.
-/

namespace RecordSchema.Yaml

inductive Node where
  /-- A text, and whether it is written without quotes. -/
  | scalar (text : String) (isPlain : Bool)
  | sequence (items : List Node)
  /-- Keys may be any nodes, and may occur twice. -/
  | mapping (pairs : List (Node × Node))
  /-- Stands for the anchored node of a number. -/
  | aliasTo (number : Nat)

namespace Node

/-- A node that is left out. -/
def absent : Node := .scalar "" true

mutual

/-- How many parts a node is written in. A collection has one at each end. -/
def size : Node → Nat
  | scalar .. | aliasTo _ => 1
  | sequence items => sizeOfItems items + 2
  | mapping pairs => sizeOfPairs pairs + 2

def sizeOfItems : List Node → Nat
  | [] => 0
  | item :: items => item.size + sizeOfItems items

def sizeOfPairs : List (Node × Node) → Nat
  | [] => 0
  | (key, value) :: pairs => key.size + value.size + sizeOfPairs pairs

end

end Node

/-! ## Anchors -/

/-- The anchors of a document as far as it was read. -/
structure Anchors where
  /-- The number of each name, latest first. A name that is used again comes again. -/
  numbers : List (String × Nat) := []
  /-- How many different names there are. -/
  count : Nat := 0
  /-- The anchored nodes with their numbers, in the order of their starts. A node that is not closed
  yet is missing. -/
  nodes : Array (Nat × Option Node) := #[]

namespace Anchors

def number? (a : Anchors) (name : String) : Option Nat := a.numbers.lookup name

/-- Starts a node. Its anchor's number is how many names there were before. -/
def start (a : Anchors) : Option String → Anchors
  | none => a
  | some name =>
    { numbers := (name, a.count) :: a.numbers
      count := if (a.number? name).isSome then a.count else a.count + 1
      nodes := a.nodes.push (a.count, none) }

/-- Closes the node that was started after `before` others. -/
def close (a : Anchors) (before : Nat) (anchor : Option String) (node : Node) : Anchors :=
  if anchor.isSome then
    { a with nodes := a.nodes.modify before fun (number, _) => (number, some node) }
  else a

/-- The closed nodes by their numbers. Of those with one number the last to start counts. -/
def closed (a : Anchors) : Std.HashMap Nat Node :=
  a.nodes.foldl (fun m (number, node) => node.elim m (m.insert number)) {}

end Anchors

/-! ## Pieces of token lists -/

/-- What is left of a list once at least one element of it has been read. -/
abbrev Shorter {α : Type} (l : List α) : Type := { r : List α // r.length < l.length }

def Shorter.toRest {α : Type} {l : List α} (r : Shorter l) : Rest l := ⟨r.1, Nat.le_of_lt r.2⟩

def splitFirst? : (ts : List Token) → Option (Token × Shorter ts)
  | [] => none
  | t :: rest => some (t, ⟨rest, Nat.lt_succ_self _⟩)

/-- Passes a token that has to come first. -/
def pass? (t : Token) (ts : List Token) : Option (Shorter ts) :=
  (splitFirst? ts).bind fun (first, rest) => if first = t then some rest else none

/-- An anchor and a tag handle before a node. -/
structure Properties where
  anchor : Option String := none
  handle : Option String := none

/-- Reads the properties before a node, in either order, if there are any. -/
def splitProperties? : (ts : List Token) → Option (Properties × Shorter ts)
  | .anchor anchor :: .tag handle :: rest =>
    some (⟨anchor, handle⟩, ⟨rest, Nat.lt_add_of_pos_right Nat.two_pos⟩)
  | .tag handle :: .anchor anchor :: rest =>
    some (⟨anchor, handle⟩, ⟨rest, Nat.lt_add_of_pos_right Nat.two_pos⟩)
  | .anchor anchor :: rest => some (⟨anchor, none⟩, ⟨rest, Nat.lt_succ_self _⟩)
  | .tag handle :: rest => some (⟨none, handle⟩, ⟨rest, Nat.lt_succ_self _⟩)
  | _ => none

/-- Where a node stands, by the kinds of collections that it may be. -/
inductive Setting where
  | flow
  | block
  /-- Beside a key of a block mapping, where a sequence may stand as far out as the key. -/
  | besideKey
deriving DecidableEq, Repr

/-- Whether a node's content begins with a token. -/
def Setting.admits (setting : Setting) : Token → Bool
  | .scalar .. | .flowSequenceStart | .flowMappingStart => true
  | .blockSequenceStart | .blockMappingStart => setting != .flow
  | .blockEntry => setting == .besideKey
  | _ => false

/-! ## Tokens that a node is absent before -/

def endsItem (t : Token) : Bool := t == .blockEntry || t == .blockEnd

def endsPair (t : Token) : Bool := t == .key || t == .value || t == .blockEnd

def endsDashItem (t : Token) : Bool := t == .blockEntry || endsPair t

def endsFlow (stop : Token) (t : Token) : Bool := t == .flowEntry || t == stop

def endsFlowKey (stop : Token) (t : Token) : Bool := t == .value || endsFlow stop t

/-- Passes the comma that stands before each entry of a flow collection but the first. -/
def passComma? (isFirst : Bool) (ts : List Token) : Option (Rest ts) :=
  if isFirst then some (.all ts) else (pass? .flowEntry ts).map Shorter.toRest

/-! ## Nodes of tokens -/

mutual

/-- Reads a node without properties. -/
def readContent (handles : List String) (setting : Setting) (a : Anchors) (ts : List Token) :
    Option (Node × Anchors × Shorter ts) := do
  let (t, ⟨rest, _⟩) ← splitFirst? ts
  if setting.admits t then
    match t with
    | .scalar text isPlain => some (.scalar text isPlain, a, ⟨rest, by omega⟩)
    | .flowSequenceStart =>
      let (items, a, ⟨rest, _⟩) ← readFlowItems handles true a rest
      return (.sequence items, a, ⟨rest, by omega⟩)
    | .flowMappingStart =>
      let (pairs, a, ⟨rest, _⟩) ← readFlowPairs handles true a rest
      return (.mapping pairs, a, ⟨rest, by omega⟩)
    | .blockSequenceStart =>
      let (items, a, ⟨rest, _⟩) ← readItems handles a rest
      return (.sequence items, a, ⟨rest, by omega⟩)
    | .blockMappingStart =>
      let (pairs, a, ⟨rest, _⟩) ← readPairs handles a rest
      return (.mapping pairs, a, ⟨rest, by omega⟩)
    | _ =>
      let (items, a, ⟨rest, _⟩) ← readDashItems handles a rest
      return (.sequence items, a, ⟨rest, by omega⟩)
  else
    match t with
    | .aliasTo name => return (.aliasTo (← a.number? name), a, ⟨rest, by omega⟩)
    | _ => none
termination_by (ts.length, 0)

/-- Reads a node. With properties it may be absent. -/
def readNode (handles : List String) (setting : Setting) (a : Anchors) (ts : List Token) :
    Option (Node × Anchors × Shorter ts) :=
  match splitProperties? ts with
  | none => readContent handles setting a ts
  | some (p, ⟨rest, _⟩) =>
    if p.handle.all fun h => h.isEmpty || handles.contains h then
      if rest.head?.any setting.admits then do
        let (node, a', ⟨rest, _⟩) ← readContent handles setting (a.start p.anchor) rest
        return (node, a'.close a.nodes.size p.anchor node, ⟨rest, by omega⟩)
      else
        let a' := (a.start p.anchor).close a.nodes.size p.anchor .absent
        some (.absent, a', ⟨rest, by omega⟩)
    else none
termination_by (ts.length, 1)

/-- Reads a node that is absent before a token that ends it. -/
def readEntry (handles : List String) (setting : Setting) (ends : Token → Bool) (a : Anchors)
    (ts : List Token) : Option (Node × Anchors × Rest ts) :=
  if ts.head?.any ends then some (.absent, a, .all ts)
  else (readNode handles setting a ts).map fun (node, a, rest) => (node, a, rest.toRest)
termination_by (ts.length, 2)

/-- Reads the value of a key, absent without the mark of a value. -/
def readValue (handles : List String) (setting : Setting) (ends : Token → Bool) (a : Anchors)
    (ts : List Token) : Option (Node × Anchors × Rest ts) :=
  match pass? .value ts with
  | some ⟨rest, _⟩ => do
    let (value, a, ⟨rest, _⟩) ← readEntry handles setting ends a rest
    return (value, a, ⟨rest, by omega⟩)
  | none => some (.absent, a, .all ts)
termination_by (ts.length, 0)

/-- Reads the items of a block sequence up to its end. -/
def readItems (handles : List String) (a : Anchors) (ts : List Token) :
    Option (List Node × Anchors × Rest ts) :=
  match pass? .blockEnd ts with
  | some rest => some ([], a, rest.toRest)
  | none => do
    let ⟨rest, _⟩ ← pass? .blockEntry ts
    let (item, a, ⟨rest, _⟩) ← readEntry handles .block endsItem a rest
    let (items, a, ⟨rest, _⟩) ← readItems handles a rest
    return (item :: items, a, ⟨rest, by omega⟩)
termination_by (ts.length, 0)

/-- Reads the items of a sequence that stands as far out as its key, from behind a dash on. -/
def readDashItems (handles : List String) (a : Anchors) (ts : List Token) :
    Option (List Node × Anchors × Rest ts) := do
  let (item, a, ⟨rest, _⟩) ← readEntry handles .block endsDashItem a ts
  match pass? .blockEntry rest with
  | some ⟨rest, _⟩ =>
    let (items, a, ⟨rest, _⟩) ← readDashItems handles a rest
    return (item :: items, a, ⟨rest, by omega⟩)
  | none => return ([item], a, ⟨rest, by omega⟩)
termination_by (ts.length, 3)

/-- Reads the pairs of a block mapping up to its end. -/
def readPairs (handles : List String) (a : Anchors) (ts : List Token) :
    Option (List (Node × Node) × Anchors × Rest ts) :=
  match pass? .blockEnd ts with
  | some rest => some ([], a, rest.toRest)
  | none => do
    let ⟨rest, _⟩ ← pass? .key ts
    let (key, a, ⟨rest, _⟩) ← readEntry handles .besideKey endsPair a rest
    let (value, a, ⟨rest, _⟩) ← readValue handles .besideKey endsPair a rest
    let (pairs, a, ⟨rest, _⟩) ← readPairs handles a rest
    return ((key, value) :: pairs, a, ⟨rest, by omega⟩)
termination_by (ts.length, 0)

/-- Reads an item of a flow sequence, which may be a pair that stands for a mapping. What an absent
key of such a pair is absent before is passed. -/
def readFlowItem (handles : List String) (a : Anchors) (ts : List Token) :
    Option (Node × Anchors × Shorter ts) :=
  match pass? .key ts with
  | none => readNode handles .flow a ts
  | some ⟨rest, _⟩ => do
    let (key, a, ⟨rest', _⟩) ←
      if rest.head?.any (endsFlowKey .flowSequenceEnd) then some (.absent, a, Rest.drop 1 rest)
      else (readNode handles .flow a rest).map fun (node, a, r) => (node, a, r.toRest)
    let (value, a, ⟨rest, _⟩) ← readValue handles .flow (endsFlow .flowSequenceEnd) a rest'
    return (.mapping [(key, value)], a, ⟨rest, by omega⟩)
termination_by (ts.length, 2)

/-- Reads the items of a flow sequence up to its end. -/
def readFlowItems (handles : List String) (isFirst : Bool) (a : Anchors) (ts : List Token) :
    Option (List Node × Anchors × Rest ts) :=
  match pass? .flowSequenceEnd ts with
  | some rest => some ([], a, rest.toRest)
  | none => do
    let ⟨rest, _⟩ ← passComma? isFirst ts
    match pass? .flowSequenceEnd rest with
    | some ⟨rest, _⟩ => some ([], a, ⟨rest, by omega⟩)
    | none =>
      let (item, a, ⟨rest, _⟩) ← readFlowItem handles a rest
      let (items, a, ⟨rest, _⟩) ← readFlowItems handles false a rest
      return (item :: items, a, ⟨rest, by omega⟩)
termination_by (ts.length, 3)
decreasing_by all_goals (simp only [Prod.lex_def]; omega)

/-- Reads the pairs of a flow mapping up to its end. An entry without the mark of a key is a key
alone. -/
def readFlowPairs (handles : List String) (isFirst : Bool) (a : Anchors) (ts : List Token) :
    Option (List (Node × Node) × Anchors × Rest ts) :=
  match pass? .flowMappingEnd ts with
  | some rest => some ([], a, rest.toRest)
  | none => do
    let ⟨rest, _⟩ ← passComma? isFirst ts
    match pass? .flowMappingEnd rest with
    | some ⟨rest, _⟩ => some ([], a, ⟨rest, by omega⟩)
    | none =>
      match pass? .key rest with
      | some ⟨rest, _⟩ =>
        let (key, a, ⟨rest, _⟩) ← readEntry handles .flow (endsFlowKey .flowMappingEnd) a rest
        let (value, a, ⟨rest, _⟩) ← readValue handles .flow (endsFlow .flowMappingEnd) a rest
        let (pairs, a, ⟨rest, _⟩) ← readFlowPairs handles false a rest
        return ((key, value) :: pairs, a, ⟨rest, by omega⟩)
      | none =>
        let (key, a, ⟨rest, _⟩) ← readNode handles .flow a rest
        let (pairs, a, ⟨rest, _⟩) ← readFlowPairs handles false a rest
        return ((key, .absent) :: pairs, a, ⟨rest, by omega⟩)
termination_by (ts.length, 3)
decreasing_by all_goals (simp only [Prod.lex_def]; omega)

end

/-! ## Documents -/

structure Document where
  root : Node := .absent
  /-- The nodes that aliases stand for, by their numbers. -/
  anchored : Std.HashMap Nat Node := {}

/-- The handles that need no declaration. -/
def defaultHandles : List String := ["!", "!!"]

/-- The handles that directives declare. The version has to be one of those known, and it and each
handle may be given once. -/
def declaredHandles? (hasVersion : Bool) (handles : List String) : List Token → Option (List String)
  | [] => some handles
  | .version major minor :: rest =>
    if hasVersion || major != 1 || !(minor == 1 || minor == 2) then none
    else declaredHandles? true handles rest
  | .handle name :: rest =>
    if handles.contains name then none else declaredHandles? hasVersion (name :: handles) rest
  | _ => none

def isDirective : Token → Bool
  | .version .. | .handle _ => true
  | _ => false

/-- Whether a token ends the content of a document, or comes before one. -/
def isOutside (t : Token) : Bool := isDirective t || t == .documentStart || t == .documentEnd

namespace Document

/-- Reads the root of a document. Nothing but ends of documents may follow it. -/
def ofContent? (handles : List String) (ts : List Token) : Option Document := do
  let (root, anchors, ⟨rest, _⟩) ← readNode (defaultHandles ++ handles) .block {} ts
  if rest.all (· == .documentEnd) then some { root, anchored := anchors.closed } else none

/-- The document of a list of tokens, which holds no more than one. -/
def ofTokens? (ts : List Token) : Option Document :=
  match ts with
  | [] => some {}
  | t :: _ =>
    if isDirective t || t == .documentStart then do
      let handles ← declaredHandles? false [] (ts.takeWhile isDirective)
      match ts.dropWhile isDirective with
      | .documentStart :: content =>
        if content.head?.all isOutside then
          if content.all (· == .documentEnd) then some {} else none
        else ofContent? handles content
      | _ => none
    else ofContent? [] ts

/-- The document that a text in YAML holds. A text without one holds an absent node. -/
def ofText? (text : String) : Option Document := (Token.ofText? text).bind ofTokens?

/-! ## Reading a document -/

/-- How many aliases may be followed for each part of a document. -/
def aliasesPerPart : Nat := 100

/-- What is read of a document, while no more aliases are followed than the state allows. -/
abbrev Reading := StateT Nat Option

/-- What a node stands for. -/
def resolve (d : Document) : Node → Reading Node
  | .aliasTo number => fun
    | 0 => none
    | allowed + 1 => d.anchored[number]?.map (·, allowed)
  | node => pure node

/-- The text of a scalar, however it is written. -/
def text (d : Document) (node : Node) : Reading String := do
  match ← d.resolve node with
  | .scalar text _ => return text
  | _ => failure

/-- The items of a sequence. An absent node has none. -/
def items (d : Document) (node : Node) : Reading (List Node) := do
  match ← d.resolve node with
  | .sequence items => return items
  | .scalar "" true => return []
  | _ => failure

/-- The pairs of a mapping. An absent node has none. -/
def pairs (d : Document) (node : Node) : Reading (List (Node × Node)) := do
  match ← d.resolve node with
  | .mapping pairs => return pairs
  | .scalar "" true => return []
  | _ => failure

/-- The values of the known keys of a mapping, which occur once at most. Its keys are texts. -/
def fields (d : Document) (known : List String) (node : Node) : Reading (List (String × Node)) := do
  let pairs ← (← d.pairs node).mapM fun (key, value) => return (← d.text key, value)
  let fields := pairs.filter fun (key, _) => known.contains key
  if decide (fields.map (·.1)).Nodup then return fields else failure

/-- Reads a document from its root on. -/
def read? {α : Type} (d : Document) (reading : Node → Reading α) : Option α :=
  (reading d.root).run' (aliasesPerPart * d.root.size)

end Document

end RecordSchema.Yaml
