import SiteAssist.Yaml.Token

/-!
# The tree of a YAML document

The tokens of a text form a tree of nodes: scalars, sequences, mappings and aliases, each but an
alias with the tag that was written for it. A missing key, value or item is an empty plain scalar.

An alias refers to an anchor by number. The number of an anchor is the number of different names
anchored before it. A name that is anchored again takes the next number as well and shares it with
the next new name; of the anchors that share a number the last one counts, for all aliases.

`Document.ofTokens?` reads the single document of a text, if there is one.
-/

namespace SiteAssist.Yaml

/-- A node of the tree. -/
inductive Node where
  | alias (anchor : Nat)
  | scalar (tag : Option String) (style : Style) (text : String)
  | sequence (tag : Option String) (items : List Node)
  | mapping (tag : Option String) (entries : List (Node × Node))

/-- The scalar that stands for what is not written. -/
def Node.missing : Node := .scalar none .plain ""

/-- A document: its tree, the nodes that aliases refer to, and the number of marks it is made
of, a collection counting for two. -/
structure Document where
  root : Node
  anchored : List (Nat × Node)
  size : Nat

/-- The anchors met so far. -/
structure Anchors where
  /-- the number of each name, the latest first -/
  numbers : List (String × Nat)
  /-- how many different names there are -/
  names : Nat
  /-- the position of the node for each number, the latest first -/
  positions : List (Nat × Nat)
  /-- how many nodes have been anchored -/
  count : Nat
  /-- the nodes by position -/
  nodes : List (Nat × Node)

/-- The state of the reader: the tokens that are left and what has been met. -/
structure Reading where
  tokens : List Token
  /-- tag handles and what they stand for -/
  handles : List (String × String)
  anchors : Anchors
  size : Nat

/-- A reader of tokens. -/
abbrev NodeReader := StateT Reading (Except Fault)

namespace NodeReader

/-- The next token. -/
def peek : NodeReader (Option Token) := do return (← get).tokens.head?

/-- Past the next token. -/
def skip : NodeReader Unit := modify fun r => { r with tokens := r.tokens.drop 1 }

/-- The next token is one of these. -/
def at? (ts : List Token) : NodeReader Bool := do
  return (← peek).any (ts.contains ·)

/-- So many marks more. -/
def grow (n : Nat) : NodeReader Unit := modify fun r => { r with size := r.size + n }

/-- A node that is not written. -/
def absent : NodeReader Node := do
  grow 1
  return .missing

/-- The tag that a handle and a suffix stand for. -/
def tagOf (handle suffix : String) : NodeReader String := do
  if handle = "" then return suffix
  match (← get).handles.lookup handle with
  | some lead => return lead ++ suffix
  | none => throw .order

/-- The properties of a node: anchor and tag, in either order. -/
def properties : NodeReader (Option String × Option String) := do
  match ← peek with
  | some (.anchor name) =>
    skip
    match ← peek with
    | some (.tag handle suffix) =>
      skip
      return (some name, some (← tagOf handle suffix))
    | _ => return (some name, none)
  | some (.tag handle suffix) =>
    skip
    match ← peek with
    | some (.anchor name) =>
      skip
      return (some name, some (← tagOf handle suffix))
    | _ => return (none, some (← tagOf handle suffix))
  | _ => return (none, none)

/-- An anchor is given its number; what comes back is the position of its node. -/
def declare (name : String) : NodeReader Nat := do
  let r ← get
  let a := r.anchors
  let isNew := (a.numbers.lookup name).isNone
  set { r with anchors :=
    { a with
      numbers := (name, a.names) :: a.numbers
      names := if isNew then a.names + 1 else a.names
      positions := (a.names, a.count) :: a.positions
      count := a.count + 1 } }
  return a.count

/-- A node is read under its anchor, if it has one. -/
def anchored (anchor : Option String) (read : NodeReader Node) : NodeReader Node := do
  match anchor with
  | none => read
  | some name =>
    let position ← declare name
    let node ← read
    modify fun r =>
      { r with anchors := { r.anchors with nodes := (position, node) :: r.anchors.nodes } }
    return node

/-- The number of the anchor that an alias names. -/
def aliased (name : String) : NodeReader Node := do
  match (← get).anchors.numbers.lookup name with
  | some n =>
    grow 1
    return .alias n
  | none => throw .alias

mutual

/-- A node: a scalar, an alias or a flow collection, or a block collection where that is
allowed. Where `dashes` holds, a sequence may start without indentation. -/
def node (block dashes : Bool) : Nat → NodeReader Node
  | 0 => throw .order
  | fuel + 1 => do
    if let some (.alias name) ← peek then
      skip
      return ← aliased name
    let (anchor, tag) ← properties
    let first ← peek
    if dashes && first == some .blockEntry then
      grow 2
      anchored anchor (return .sequence tag (← dashedItems fuel))
    else match first with
    | some (.scalar style text) =>
      skip
      grow 1
      let tag := if tag = some "!" then none else tag
      anchored anchor (return .scalar tag style text)
    | some .flowSequenceStart =>
      skip
      grow 2
      anchored anchor (return .sequence tag (← flowItems true fuel))
    | some .flowMappingStart =>
      skip
      grow 2
      anchored anchor (return .mapping tag (← flowEntries true fuel))
    | some .blockSequenceStart =>
      if ¬block then throw .order
      skip
      grow 2
      anchored anchor (return .sequence tag (← blockItems fuel))
    | some .blockMappingStart =>
      if ¬block then throw .order
      skip
      grow 2
      anchored anchor (return .mapping tag (← blockEntries fuel))
    | _ =>
      if anchor.isNone ∧ tag.isNone then throw .order
      grow 1
      anchored anchor (return .scalar tag .plain "")

/-- A node, unless one of these tokens shows that it is not written. -/
def nodeUnless (stops : List Token) (block dashes : Bool) : Nat → NodeReader Node
  | 0 => throw .order
  | fuel + 1 => do
    if ← at? stops then absent else node block dashes fuel

/-- The items of an indented block sequence, and its end. -/
def blockItems : Nat → NodeReader (List Node)
  | 0 => throw .order
  | fuel + 1 => do
    match ← peek with
    | some .blockEntry =>
      skip
      let item ← nodeUnless [.blockEntry, .blockEnd] true false fuel
      return item :: (← blockItems fuel)
    | some .blockEnd =>
      skip
      return []
    | _ => throw .order

/-- The items of a block sequence without indentation. -/
def dashedItems : Nat → NodeReader (List Node)
  | 0 => throw .order
  | fuel + 1 => do
    match ← peek with
    | some .blockEntry =>
      skip
      let item ← nodeUnless [.blockEntry, .key, .value, .blockEnd] true false fuel
      return item :: (← dashedItems fuel)
    | _ => return []

/-- The entries of a block mapping, and its end. -/
def blockEntries : Nat → NodeReader (List (Node × Node))
  | 0 => throw .order
  | fuel + 1 => do
    let stops := [Token.key, .value, .blockEnd]
    let key ← match ← peek with
      | some .key =>
        skip
        nodeUnless stops true true fuel
      | some .blockEnd =>
        skip
        return []
      | _ => throw .order
    let value ←
      if ← at? [.value] then
        skip
        nodeUnless stops true true fuel
      else absent
    return (key, value) :: (← blockEntries fuel)

/-- The items of a flow sequence, and its end. A key mark starts a mapping of one entry. -/
def flowItems (first : Bool) : Nat → NodeReader (List Node)
  | 0 => throw .order
  | fuel + 1 => do
    if ← at? [.flowSequenceEnd] then
      skip
      return []
    if ¬first then
      if ← at? [.flowEntry] then skip else throw .order
    match ← peek with
    | some .key =>
      skip
      grow 2
      -- a key that is not written takes the token after it along
      let key ←
        if ← at? [.value, .flowEntry, .flowSequenceEnd] then
          skip
          absent
        else node false false fuel
      let value ←
        if ← at? [.value] then
          skip
          nodeUnless [.flowEntry, .flowSequenceEnd] false false fuel
        else absent
      return .mapping none [(key, value)] :: (← flowItems false fuel)
    | some .flowSequenceEnd =>
      skip
      return []
    | _ =>
      let item ← node false false fuel
      return item :: (← flowItems false fuel)

/-- The entries of a flow mapping, and its end. -/
def flowEntries (first : Bool) : Nat → NodeReader (List (Node × Node))
  | 0 => throw .order
  | fuel + 1 => do
    if ← at? [.flowMappingEnd] then
      skip
      return []
    if ¬first then
      if ← at? [.flowEntry] then skip else throw .order
    match ← peek with
    | some .key =>
      skip
      let stops := [Token.flowEntry, .flowMappingEnd]
      let key ← nodeUnless (.value :: stops) false false fuel
      let value ←
        if ← at? [.value] then
          skip
          nodeUnless stops false false fuel
        else absent
      return (key, value) :: (← flowEntries false fuel)
    | some .flowMappingEnd =>
      skip
      return []
    | _ =>
      let key ← node false false fuel
      let value ← absent
      return (key, value) :: (← flowEntries false fuel)

end

/-- The handles that need no directive. -/
def usualHandles : List (String × String) := [("!", "!"), ("!!", "tag:yaml.org,2002:")]

/-- The directives before a document: one version at most, and no handle twice. -/
def directives (versioned : Bool) (handles : List (String × String)) :
    Nat → NodeReader (List (String × String))
  | 0 => throw .order
  | fuel + 1 => do
    match ← peek with
    | some (.version major minor) =>
      if versioned ∨ major ≠ 1 ∨ (minor ≠ 1 ∧ minor ≠ 2) then throw .order
      skip
      directives true handles fuel
    | some (.tagDirective handle lead) =>
      if (handles.lookup handle).isSome then throw .order
      skip
      directives versioned ((handle, lead) :: handles) fuel
    | _ => return handles

/-- The only document, if there is any. -/
def document (fuel : Nat) : NodeReader (Option Node) := do
  match ← peek with
  | some .streamEnd => return none
  | some (.version ..) | some (.tagDirective ..) | some .documentStart =>
    let handles ← directives false [] fuel
    if ¬(← at? [.documentStart]) then throw .order
    skip
    modify fun r => { r with handles := handles ++ usualHandles }
    match ← peek with
    | some (.version ..) | some (.tagDirective ..) | some .documentStart | some .documentEnd
    | some .streamEnd => return some (← absent)
    | _ => return some (← node true false fuel)
  | _ => return some (← node true false fuel)

/-- Past the marks that end a document, to the end of the text. -/
def close : NodeReader Unit := do
  modify fun r => { r with tokens := r.tokens.dropWhile (· == .documentEnd) }
  if ¬(← at? [.streamEnd]) then throw .documents

end NodeReader

/-- The state before the first token. -/
def Reading.start (tokens : List Token) : Reading :=
  { tokens, handles := NodeReader.usualHandles
    anchors := { numbers := [], names := 0, positions := [], count := 0, nodes := [] }, size := 0 }

/-- The document that tokens form, or nothing if there is none. -/
def Document.ofTokens? (tokens : List Token) : Except Fault (Option Document) := do
  let reading := do
    let root ← NodeReader.document (4 * tokens.length + 4)
    NodeReader.close
    return root
  let (root, r) ← reading.run (Reading.start tokens)
  return root.map fun root =>
    let a := r.anchors
    { root, size := r.size
      anchored := a.positions.filterMap fun (n, p) => (a.nodes.lookup p).map (n, ·) }

end SiteAssist.Yaml
