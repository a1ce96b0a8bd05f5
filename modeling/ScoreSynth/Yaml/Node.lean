import ScoreSynth.Yaml.Token

/-!
# YAML documents

The nesting that the tokens of a text spell. A text holds one document at most.
-/

namespace ScoreSynth.Yaml

inductive Node where
  | scalar (s : Scalar)
  /-- The node that an anchor marks, by the anchor's number. -/
  | alias (number : Nat)
  | list (items : List Node)
  | mapping (entries : List (Node × Node))

/-- The nodes that anchors mark: a scalar, or none for a list or a mapping. -/
abbrev Anchored := List (Nat × Option Scalar)

structure Document where
  root : Node
  anchored : Anchored

/-- The scalar that a node is or stands for. -/
def Document.scalar? (d : Document) : Node → Option Scalar
  | .scalar s => some s
  | .alias n => (d.anchored.lookup n).join
  | .list _ | .mapping _ => none

/-! ### Building -/

/-- What is left of the tokens, and what the ones before have declared. -/
structure Building where
  tokens : List Token
  /-- Handles with what their tags begin with. -/
  handles : List (List Char × List Char)
  /-- The names of anchors with their numbers. -/
  names : List (List Char × Nat)
  /-- The nodes that anchors mark, the last first. -/
  anchored : Anchored

def Building.start (tokens : List Token) : Building := ⟨tokens, [], [], []⟩

abbrev Build := StateT Building Option

namespace Build

def peek : Build (Option Token) := return (← get).tokens.head?

def skip : Build Unit := modify fun b => { b with tokens := b.tokens.drop 1 }

def pop : Build (Option Token) := do
  let t ← peek
  skip
  return t

def expect (t : Token) : Build Unit := do
  let found ← pop
  if found = some t then return else failure

def nextIs (t : Token) : Build Bool := return (← peek) = some t

def commonHandles : List (List Char × List Char) :=
  [(['!'], ['!']), (['!', '!'], "tag:yaml.org,2002:".toList)]

/-- The tag that a handle and a suffix spell; the empty handle adds nothing. -/
def resolve (handle suffix : List Char) : Build (List Char) := do
  if handle.isEmpty then return suffix
  match ((← get).handles ++ commonHandles).lookup handle with
  | some stem => return stem ++ suffix
  | none => failure

def anchorMark : Build (Option (List Char)) := do
  match ← peek with
  | some (.anchor name) => do
    skip
    return some name
  | _ => return none

def tagMark : Build (Option (List Char × List Char)) := do
  match ← peek with
  | some (.tag handle suffix) => do
    skip
    return some (handle, suffix)
  | _ => return none

/-- The anchor and the tag of a node, in either order. -/
def properties : Build (Option (List Char) × Option (List Char)) := do
  let anchor ← anchorMark
  let tag ← tagMark
  let anchor ← if anchor.isSome then pure anchor else anchorMark
  match tag with
  | none => return (anchor, none)
  | some (handle, suffix) => return (anchor, some (← resolve handle suffix))

/--
Notes what an anchor marks. An anchor takes as its number how many names there are before it, so one
that takes the number of another also takes its place.
-/
def register (anchor : Option (List Char)) (s : Option Scalar) : Build Unit :=
  match anchor with
  | none => return
  | some name => modify fun b => { b with
      names := (name, b.names.length) :: b.names.filter (·.1 != name)
      anchored := (b.names.length, s) :: b.anchored }

def scalarNode (anchor : Option (List Char)) (s : Scalar) : Build Node := do
  register anchor (some s)
  return .scalar s

/-- A node that is nothing but its anchor or its tag. -/
def emptyNode (anchor tag : Option (List Char)) : Build Node :=
  if anchor.isNone && tag.isNone then failure else scalarNode anchor ⟨[], .plain, tag⟩

/-- The node, or the empty scalar if a token stands here that ends an entry. -/
def unlessAt (ends : Token → Bool) (node : Build Node) : Build Node := do
  if (← peek).any ends then return .scalar .empty else node

/-- The value of an entry; the empty scalar, if there is no mark of a value. -/
def valueUnlessAt (ends : Token → Bool) (node : Build Node) : Build Node := do
  if ← nextIs .value then
    skip
    unlessAt ends node
  else return .scalar .empty

def endsBlockEntry : Token → Bool
  | .key | .value | .blockEnd => true
  | _ => false

def endsBlockItem : Token → Bool
  | .item | .blockEnd => true
  | _ => false

def endsBareItem (t : Token) : Bool := t = .item || endsBlockEntry t

def endsFlowEntry : Token → Bool
  | .comma | .mapEnd => true
  | _ => false

def endsFlowItem : Token → Bool
  | .comma | .listEnd => true
  | _ => false

mutual

/--
A node. Only a block holds blocks, and only the key or the value of a block's entry is a list
without an indent of its own.
-/
def node : Nat → Bool → Bool → Build Node
  | 0, _, _ => failure
  | fuel + 1, inBlock, bare => do
    match ← peek with
    | some (.alias name) => do
      skip
      match (← get).names.lookup name with
      | some n => return .alias n
      | none => failure
    | _ => do
      let (anchor, tag) ← properties
      match ← peek with
      | some (.scalar style text) => do
        skip
        scalarNode anchor ⟨text, style, if tag = some ['!'] then none else tag⟩
      | some .listStart => do
        skip
        register anchor none
        return .list (← flowItems fuel true)
      | some .mapStart => do
        skip
        register anchor none
        return .mapping (← flowEntries fuel true)
      | some t =>
        if t = .item && bare then do
          register anchor none
          return .list (← bareItems fuel)
        else if t = .blockListStart && inBlock then do
          skip
          register anchor none
          return .list (← blockItems fuel)
        else if t = .blockMapStart && inBlock then do
          skip
          register anchor none
          return .mapping (← blockEntries fuel)
        else emptyNode anchor tag
      | none => emptyNode anchor tag

def blockItems : Nat → Build (List Node)
  | 0 => failure
  | fuel + 1 => do
    match ← pop with
    | some .item => do
      let n ← unlessAt endsBlockItem (node fuel true false)
      return n :: (← blockItems fuel)
    | some .blockEnd => return []
    | _ => failure

def bareItems : Nat → Build (List Node)
  | 0 => failure
  | fuel + 1 => do
    if ← nextIs .item then
      skip
      let n ← unlessAt endsBareItem (node fuel true false)
      return n :: (← bareItems fuel)
    else return []

def blockEntries : Nat → Build (List (Node × Node))
  | 0 => failure
  | fuel + 1 => do
    match ← pop with
    | some .key => do
      let k ← unlessAt endsBlockEntry (node fuel true true)
      let v ← valueUnlessAt endsBlockEntry (node fuel true true)
      return (k, v) :: (← blockEntries fuel)
    | some .blockEnd => return []
    | _ => failure

def flowEntries : Nat → Bool → Build (List (Node × Node))
  | 0, _ => failure
  | fuel + 1, first => do
    if ← nextIs .mapEnd then
      skip
      return []
    unless first do expect .comma
    match ← peek with
    | some .mapEnd => do
      skip
      return []
    | some .key => do
      skip
      let k ← unlessAt (fun t => t = .value || endsFlowEntry t) (node fuel false false)
      let v ← valueUnlessAt endsFlowEntry (node fuel false false)
      return (k, v) :: (← flowEntries fuel false)
    | _ => do
      let k ← node fuel false false
      return (k, .scalar .empty) :: (← flowEntries fuel false)

/--
The items of a list between brackets. An item with a key is a mapping of one entry; where its key is
left out, the token behind the mark of the key goes with it.
-/
def flowItems : Nat → Bool → Build (List Node)
  | 0, _ => failure
  | fuel + 1, first => do
    if ← nextIs .listEnd then
      skip
      return []
    unless first do expect .comma
    match ← peek with
    | some .listEnd => do
      skip
      return []
    | some .key => do
      skip
      let k ←
        if (← peek).any (fun t => t = .value || endsFlowItem t) then do
          skip
          pure (Node.scalar .empty)
        else node fuel false false
      let v ← valueUnlessAt endsFlowItem (node fuel false false)
      return .mapping [(k, v)] :: (← flowItems fuel false)
    | _ => do
      let n ← node fuel false false
      return n :: (← flowItems fuel false)

end

/-! ### Documents -/

/-- The directives in front of a document, and whether there are any. -/
def directives (versioned : Bool) : List Token → Build Bool
  | .version major minor :: ts => do
    if versioned || major != 1 || (minor != 1 && minor != 2) then failure
    modify fun b => { b with tokens := ts }
    let _ ← directives true ts
    return true
  | .handle name stem :: ts => do
    if ((← get).handles.lookup name).isSome then failure
    modify fun b => { b with tokens := ts, handles := b.handles ++ [(name, stem)] }
    let _ ← directives versioned ts
    return true
  | _ => return false

def endsDocument : Token → Bool
  | .version _ _ | .handle _ _ | .documentStart | .documentEnd => true
  | _ => false

def content (fuel : Nat) : Build Node := do
  match ← peek with
  | none => return .scalar .empty
  | some t => if endsDocument t then return .scalar .empty else node fuel true false

/-- The document of a text, if it has one. Behind it only marks of its end may follow. -/
def document (fuel : Nat) : Build (Option Document) := do
  if (← peek).isNone then return none
  let directed ← directives false (← get).tokens
  let started ← nextIs .documentStart
  if directed && !started then failure
  let root ←
    if started then do
      skip
      content fuel
    else node fuel true false
  let b ← get
  if b.tokens.all (· = .documentEnd) then return some ⟨root, b.anchored⟩ else failure

end Build

/--
The document of a text, or none inside if the text holds only comments. Each token takes two steps
down at most.
-/
def read? (s : List Char) : Option (Option Document) :=
  (prepare? s).bind fun text =>
    (tokens? text).bind fun ts =>
      ((Build.document (2 * ts.length + 2)).run (.start ts)).map (·.1)

end ScoreSynth.Yaml
