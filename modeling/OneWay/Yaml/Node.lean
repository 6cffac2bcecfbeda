import OneWay.Yaml.Lexer

/-!
# Documents as trees

`Yaml.parse` reads the text of a document. A node may carry an anchor, and an alias stands for the
last node before it with its anchor, be it the one that the alias is part of; so aliases remain in
the tree, and `Document.target?` tells what they stand for.
-/

namespace OneWay.Yaml

/-- A node of a document. -/
inductive Node where
  /-- Another node, by the number of its anchor. -/
  | alias (anchor : Nat)
  | scalar (tag : Option String) (style : ScalarStyle) (text : String)
  | list (tag : Option String) (items : List Node)
  | mapping (tag : Option String) (fields : List (Node × Node))
  deriving Repr, Inhabited

namespace Node

/-- What stands where nothing is written. -/
def empty : Node := .scalar none .plain ""

mutual

/-- How many parts a node has: collections count at both ends. -/
def size : Node → Nat
  | .alias _ | .scalar .. => 1
  | .list _ items => sizeItems items + 2
  | .mapping _ fields => sizeFields fields + 2

/-- How many parts some nodes have. -/
def sizeItems : List Node → Nat
  | [] => 0
  | n :: l => size n + sizeItems l

/-- How many parts some fields have. -/
def sizeFields : List (Node × Node) → Nat
  | [] => 0
  | (k, v) :: l => size k + size v + sizeFields l

end

end Node

/-- A document. -/
structure Document where
  /-- The outermost node; an empty text has none. -/
  root : Option Node
  /-- The nodes with anchors, by the numbers of the anchors. -/
  anchored : List (Nat × Node)

namespace Document

/-- The node that an anchor stands for. -/
def target? (d : Document) (anchor : Nat) : Option Node :=
  (d.anchored.find? (·.1 = anchor)).map (·.2)

/-- How many parts a document has. -/
def size (d : Document) : Nat := d.root.elim 1 Node.size

end Document

/-! ### Building -/

/-- The tokens that are left and what has been found so far. -/
structure Builder where
  tokens : List Token
  /-- Handles and what they abbreviate. -/
  handles : List (String × String) := []
  /-- The numbers of the anchors by their names, last first. -/
  anchors : List (String × Nat) := []
  anchored : List (Nat × Node) := []

/-- Building may fail. -/
abbrev Build := StateT Builder Option

namespace Build

/-- The next token. -/
def peek : Build (Option Token) := do return (← get).tokens.head?

/-- Skips a token. -/
def skip : Build Unit := modify fun b => { b with tokens := b.tokens.tail }

/-- Whether the next token is one of some. -/
def at? (ts : List Token) : Build Bool := do
  match ← peek with
  | some t => pure (ts.contains t)
  | none => pure false

/-- Skips a token if it is the next one. -/
def accept (t : Token) : Build Bool := do
  if ← at? [t] then
    skip
    pure true
  else pure false

/-- The number of an alias. -/
def alias? (name : String) : Build Node := do
  match (← get).anchors.find? (·.1 = name) with
  | some (_, anchor) => pure (.alias anchor)
  | none => failure

/-- An anchor, if there is one. -/
def anchor? : Build (Option String) := do
  match ← peek with
  | some (.anchor name) =>
    skip
    pure (some name)
  | _ => pure none

/-- What a handle abbreviates. -/
def abbreviated? (handle : String) : Build String := do
  match (← get).handles.find? (·.1 = handle) with
  | some (_, start) => pure start
  | none => failure

/-- A tag, if there is one. -/
def tag? : Build (Option String) := do
  match ← peek with
  | some (.tag handle suffix) =>
    skip
    if handle.isEmpty then pure (some suffix)
    else pure (some ((← abbreviated? handle) ++ suffix))
  | _ => pure none

/-- The anchor and the tag of a node, in either order. -/
def properties : Build (Option String × Option String) := do
  match ← anchor? with
  | some name => pure (some name, ← tag?)
  | none =>
    let tag ← tag?
    if tag.isSome then pure (← anchor?, tag) else pure (none, none)

/-- Numbers an anchor. -/
def declare (name : String) : Build Nat :=
  modifyGet fun b => (b.anchors.length, { b with anchors := (name, b.anchors.length) :: b.anchors })

/-- Records the node of an anchor. -/
def record (anchor : Nat) (n : Node) : Build Unit :=
  modify fun b => { b with anchored := (anchor, n) :: b.anchored }

mutual

/-- A node. Block collections may start it in block context, and items of a list without an
indentation of their own where the value of a mapping stands. -/
def node (fuel : Nat) (inBlock loose : Bool) : Build Node := do
  match fuel with
  | 0 => failure
  | fuel + 1 =>
    match ← peek with
    | some (.alias name) =>
      skip
      alias? name
    | _ =>
      let (anchor?, tag) ← properties
      match anchor? with
      | some name =>
        let anchor ← declare name
        let n ← content fuel inBlock loose true tag
        record anchor n
        pure n
      | none => content fuel inBlock loose tag.isSome tag

/-- A node after its anchor and its tag; it may be empty if it has either. -/
def content (fuel : Nat) (inBlock loose mayBeEmpty : Bool) (tag : Option String) :
    Build Node := do
  match fuel with
  | 0 => failure
  | fuel + 1 =>
    let nothing : Build Node := if mayBeEmpty then pure (.scalar tag .plain "") else failure
    match ← peek with
    | some .item => if loose then return .list tag (← looseItems fuel []) else nothing
    | some (.scalar style text) =>
      skip
      pure (.scalar tag style text)
    | some .flowListStart =>
      skip
      return .list tag (← flowItems fuel true [])
    | some .flowMappingStart =>
      skip
      return .mapping tag (← flowFields fuel true [])
    | some .blockListStart =>
      if inBlock then
        skip
        return .list tag (← blockItems fuel [])
      else nothing
    | some .blockMappingStart =>
      if inBlock then
        skip
        return .mapping tag (← blockFields fuel [])
      else nothing
    | _ => nothing

/-- A node, or nothing if the next token is one of some. -/
def nodeUnless (fuel : Nat) (ends : List Token) (inBlock loose : Bool) : Build Node := do
  match fuel with
  | 0 => failure
  | fuel + 1 => if ← at? ends then pure .empty else node fuel inBlock loose

/-- The items of a block list after those in `acc`, which holds them last first. -/
def blockItems (fuel : Nat) (acc : List Node) : Build (List Node) := do
  match fuel with
  | 0 => failure
  | fuel + 1 =>
    if ← accept .item then
      let n ← nodeUnless fuel [.item, .blockEnd] true false
      blockItems fuel (n :: acc)
    else if ← accept .blockEnd then pure acc.reverse
    else failure

/-- The items of a block list that is not indented, after those in `acc`. -/
def looseItems (fuel : Nat) (acc : List Node) : Build (List Node) := do
  match fuel with
  | 0 => failure
  | fuel + 1 =>
    if ← accept .item then
      let n ← nodeUnless fuel [.item, .key, .value, .blockEnd] true false
      looseItems fuel (n :: acc)
    else pure acc.reverse

/-- The fields of a block mapping after those in `acc`, which holds them last first. -/
def blockFields (fuel : Nat) (acc : List (Node × Node)) : Build (List (Node × Node)) := do
  match fuel with
  | 0 => failure
  | fuel + 1 =>
    if ← accept .key then
      let ends : List Token := [.key, .value, .blockEnd]
      let k ← nodeUnless fuel ends true true
      let v ← if ← accept .value then nodeUnless fuel ends true true else pure .empty
      blockFields fuel ((k, v) :: acc)
    else if ← accept .blockEnd then pure acc.reverse
    else failure

/-- The items of a flow list after those in `acc`, which holds them last first. An item may be a
field, which stands for a mapping with that field alone. -/
def flowItems (fuel : Nat) (first : Bool) (acc : List Node) : Build (List Node) := do
  match fuel with
  | 0 => failure
  | fuel + 1 =>
    if ← accept .flowListEnd then pure acc.reverse
    else if !first && !(← accept .separator) then failure
    else if ← accept .key then
      let k ←
        if ← at? [.value, .separator, .flowListEnd] then do
          skip
          pure .empty
        else node fuel false false
      let v ←
        if ← accept .value then nodeUnless fuel [.separator, .flowListEnd] false false
        else pure .empty
      flowItems fuel false (.mapping none [(k, v)] :: acc)
    else if ← accept .flowListEnd then pure acc.reverse
    else
      let n ← node fuel false false
      flowItems fuel false (n :: acc)

/-- The fields of a flow mapping after those in `acc`, which holds them last first. -/
def flowFields (fuel : Nat) (first : Bool) (acc : List (Node × Node)) :
    Build (List (Node × Node)) := do
  match fuel with
  | 0 => failure
  | fuel + 1 =>
    if ← accept .flowMappingEnd then pure acc.reverse
    else if !first && !(← accept .separator) then failure
    else if ← accept .key then
      let ends : List Token := [.separator, .flowMappingEnd]
      let k ← nodeUnless fuel (.value :: ends) false false
      let v ← if ← accept .value then nodeUnless fuel ends false false else pure .empty
      flowFields fuel false ((k, v) :: acc)
    else if ← accept .flowMappingEnd then pure acc.reverse
    else
      let k ← node fuel false false
      flowFields fuel false ((k, .empty) :: acc)

end

/-- The handles of a document that declares none. -/
def standardHandles : List (String × String) := [("!", "!"), ("!!", "tag:yaml.org,2002:")]

/-- Reads the directives before a document. -/
def directives : Nat → Bool → List (String × String) → Build Unit
  | 0, _, _ => failure
  | fuel + 1, hasVersion, handles => do
    match ← peek with
    | some (.version major minor) =>
      if hasVersion || major ≠ 1 || !(minor = 1 || minor = 2) then failure
      else
        skip
        directives fuel true handles
    | some (.handle name start) =>
      if handles.any (·.1 = name) then failure
      else
        skip
        directives fuel hasVersion (handles ++ [(name, start)])
    | _ => modify fun b => { b with handles := handles ++ standardHandles }

/-- Whether the next token belongs to no node. -/
def atDocumentEdge : Build Bool := do
  match ← peek with
  | none | some (.version ..) | some (.handle ..) | some .documentStart | some .documentEnd =>
    pure true
  | _ => pure false

/-- The outermost node of the first document. -/
def root (fuel : Nat) : Build (Option Node) := do
  match ← peek with
  | none => pure none
  | some (.version ..) | some (.handle ..) | some .documentStart =>
    directives fuel false []
    if ← accept .documentStart then
      if ← atDocumentEdge then pure (some .empty) else some <$> node fuel true false
    else failure
  | some _ =>
    modify fun b => { b with handles := standardHandles }
    some <$> node fuel true false

end Build

/-- Reads a text, which must hold one document at most. -/
def parse (text : String) : Option Document := do
  let tokens ← tokens? text
  let (root, b) ← (Build.root (3 * tokens.length + 3)).run { tokens }
  if b.tokens.all (· = .documentEnd) then pure { root, anchored := b.anchored } else none

end OneWay.Yaml
