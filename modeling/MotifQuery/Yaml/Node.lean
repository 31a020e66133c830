import MotifQuery.Dict
import MotifQuery.Yaml.Token

/-!
# `MotifQuery.Yaml.Node`: YAML documents

A document is a tree of scalars, sequences and mappings. An alias stands for the node that
carried its anchor before. `Node.parse?` reads a text that holds at most one document; a
text without any is an absent node.
-/

set_option autoImplicit false

namespace MotifQuery.Yaml

/-- A node of a document. -/
inductive Node where
  /-- A scalar; `plain` is set where it is written without quotes and not as a block. -/
  | scalar (tag : Option String) (text : String) (plain : Bool)
  | sequence (tag : Option String) (items : List Node)
  | mapping (tag : Option String) (members : List (Node × Node))

namespace Node

instance : Inhabited Node := ⟨.scalar none "" true⟩

/-- The node of a place where nothing is written. -/
def absent : Node := .scalar none "" true

end Node

/-- What is left to read, and the nodes by their anchors. -/
structure Reading where
  tokens : List Token
  anchors : Dict Node := ∅

namespace Reading

/-- Goes past a token. -/
def skip (r : Reading) : Reading :=
  { r with tokens := r.tokens.tail }

/-- Is the next token one of these? -/
def sees (r : Reading) (ts : List Token) : Bool :=
  r.tokens.head?.any ts.contains

/-- Names the node that an anchor stands before. -/
def name (r : Reading) (anchor : Option String) (n : Node) : Reading :=
  match anchor with
  | some a => { r with anchors := r.anchors.insert a n }
  | none => r

end Reading

/-- The anchor and the tag before a node, in either order. -/
def readProperties (r : Reading) : Option String × Option String × Reading :=
  match r.tokens with
  | .anchor a :: .tag t :: rest => (some a, some t, { r with tokens := rest })
  | .anchor a :: rest => (some a, none, { r with tokens := rest })
  | .tag t :: .anchor a :: rest => (some a, some t, { r with tokens := rest })
  | .tag t :: rest => (none, some t, { r with tokens := rest })
  | _ => (none, none, r)

mutual

/-- Reads a node. In a block, block collections may follow; where `indentless` is set, so may
a sequence at the column of the mapping around it. -/
def readNode : Nat → Bool → Bool → Reading → Option (Node × Reading)
  | 0, _, _, _ => none
  | fuel + 1, block, indentless, r =>
    match r.tokens with
    | .alias a :: _ => (r.anchors.get? a).map fun n => (n, r.skip)
    | _ =>
      let (anchor, tag, r) := readProperties r
      let named (n : Node) (r : Reading) : Option (Node × Reading) := some (n, r.name anchor n)
      match r.tokens with
      | .entry :: _ =>
        -- the sequence has no start token and ends with the mapping around it
        if indentless then do
          let (items, r) ← readEntries fuel false r
          named (.sequence tag items) r
        else if anchor.isSome || tag.isSome then named (.scalar tag "" true) r
        else none
      | .scalar text plain :: _ => named (.scalar tag text plain) r.skip
      | .flowSequenceStart :: _ => do
        let (items, r) ← readFlowItems fuel true r.skip
        named (.sequence tag items) r
      | .flowMappingStart :: _ => do
        let (members, r) ← readFlowMembers fuel true r.skip
        named (.mapping tag members) r
      | .sequenceStart :: _ =>
        if block then do
          let (items, r) ← readEntries fuel true r.skip
          named (.sequence tag items) r
        else none
      | .mappingStart :: _ =>
        if block then do
          let (members, r) ← readMembers fuel r.skip
          named (.mapping tag members) r
        else none
      -- properties alone make an empty scalar
      | _ => if anchor.isSome || tag.isSome then named (.scalar tag "" true) r else none

/-- Reads a node in a block, or nothing before one of the tokens. -/
def readBlockNode : Nat → Bool → List Token → Reading → Option (Node × Reading)
  | 0, _, _, _ => none
  | fuel + 1, indentless, before, r =>
    if r.sees before then some (.absent, r) else readNode fuel true indentless r

/-- Reads a node in a flow collection, or nothing before one of the tokens. -/
def readFlowNode : Nat → List Token → Reading → Option (Node × Reading)
  | 0, _, _ => none
  | fuel + 1, before, r =>
    if r.sees before then some (.absent, r) else readNode fuel false false r

/-- Reads the entries of a block sequence; one that is closed by its indentation ends at a
token of its own. -/
def readEntries : Nat → Bool → Reading → Option (List Node × Reading)
  | 0, _, _ => none
  | fuel + 1, closed, r =>
    match r.tokens with
    | .entry :: _ => do
      let before : List Token :=
        -- an entry may be empty
        if closed then [.entry, .blockEnd] else [.entry, .key, .value, .blockEnd]
      let (item, r) ← readBlockNode fuel false before r.skip
      let (items, r) ← readEntries fuel closed r
      pure (item :: items, r)
    | .blockEnd :: _ => some ([], if closed then r.skip else r)
    | _ => if closed then none else some ([], r)

/-- Reads the members of a block mapping. -/
def readMembers : Nat → Reading → Option (List (Node × Node) × Reading)
  | 0, _ => none
  | fuel + 1, r =>
    match r.tokens with
    | .key :: _ => do
      let before : List Token := [.key, .value, .blockEnd]
      let (key, r) ← readBlockNode fuel true before r.skip
      let (value, r) ←
        if r.sees [.value] then readBlockNode fuel true before r.skip
        else some (.absent, r)
      let (members, r) ← readMembers fuel r
      pure ((key, value) :: members, r)
    | .blockEnd :: _ => some ([], r.skip)
    | _ => none

/-- Reads the value after a key in a flow collection. -/
def readFlowValue : Nat → List Token → Reading → Option (Node × Reading)
  | 0, _, _ => none
  | fuel + 1, before, r =>
    if r.sees [.value] then readFlowNode fuel before r.skip else some (.absent, r)

/-- Reads the items of a flow sequence; a key makes a mapping of one member. -/
def readFlowItems : Nat → Bool → Reading → Option (List Node × Reading)
  | 0, _, _ => none
  | fuel + 1, first, r =>
    if r.sees [.flowSequenceEnd] then some ([], r.skip)
    else if !first && !r.sees [.flowEntry] then none
    else
      let r := if first then r else r.skip
      if r.sees [.flowSequenceEnd] then some ([], r.skip)
      else if r.sees [.key] then do
        let before : List Token := [.flowEntry, .flowSequenceEnd]
        let (key, r) ← readFlowNode fuel (.value :: before) r.skip
        let (value, r) ← readFlowValue fuel before r
        let (items, r) ← readFlowItems fuel false r
        pure (.mapping none [(key, value)] :: items, r)
      else do
        let (item, r) ← readNode fuel false false r
        let (items, r) ← readFlowItems fuel false r
        pure (item :: items, r)

/-- Reads the members of a flow mapping; one without a value has an absent one. -/
def readFlowMembers : Nat → Bool → Reading → Option (List (Node × Node) × Reading)
  | 0, _, _ => none
  | fuel + 1, first, r =>
    if r.sees [.flowMappingEnd] then some ([], r.skip)
    else if !first && !r.sees [.flowEntry] then none
    else
      let r := if first then r else r.skip
      if r.sees [.flowMappingEnd] then some ([], r.skip)
      else if r.sees [.key] then do
        let before : List Token := [.flowEntry, .flowMappingEnd]
        let (key, r) ← readFlowNode fuel (.value :: before) r.skip
        let (value, r) ← readFlowValue fuel before r
        let (members, r) ← readFlowMembers fuel false r
        pure ((key, value) :: members, r)
      else do
        let (key, r) ← readNode fuel false false r
        let (members, r) ← readFlowMembers fuel false r
        pure ((key, .absent) :: members, r)

end

/-- Reads the content of a document. -/
def readContent (ts : List Token) : Option (Node × List Token) :=
  match ts with
  | .directive :: _ | .documentStart :: _ | .documentEnd :: _ | .streamEnd :: _ =>
    some (.absent, ts)
  | _ => (readNode (4 * ts.length + 4) true false { tokens := ts }).map fun (n, r) =>
    (n, r.tokens)

/-- Reads a document after its directives. -/
def readMarked (ts : List Token) : Option (Node × List Token) :=
  match ts.dropWhile (· == .directive) with
  | .documentStart :: rest => readContent rest
  | _ => none

/-- The first document among tokens, and the tokens after it. -/
def firstDocument? (ts : List Token) : Option (Node × List Token) :=
  match ts with
  | [.streamEnd] => some (.absent, ts)
  | .directive :: _ | .documentStart :: _ => readMarked ts
  | _ => (readNode (4 * ts.length + 4) true false { tokens := ts }).map fun (n, r) =>
    (n, r.tokens)

/-- Reads a text. -/
def Node.parse? (cs : List Char) : Option Node :=
  match (tokens? cs).bind firstDocument? with
  | some (n, rest) =>
    if (rest.dropWhile (· == .documentEnd)) = [.streamEnd] then some n else none
  | none => none

end MotifQuery.Yaml
