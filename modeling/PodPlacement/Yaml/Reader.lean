import PodPlacement.Yaml.Token

/-! # Reading YAML

`Node.ofText?` builds the tree of a text from its tokens. The collections that have begun stand on a
stack, innermost first, and every token changes the stack in one step: it opens a collection, adds to
the innermost one, or closes it and adds it to the one around it. Where a node is missing, between a key
and the next one, say, an empty scalar stands for it. A tag or an anchor waits on the stack for its
node, and an alias stands for the node with its name. A text holds at most one document. -/

namespace PodPlacement.Yaml

/-- The scalar or collection with a tag. The tag that is a single mark says nothing about a scalar that
is written out. -/
def Node.withTag (tag? : Option String) (node : Node) : Node :=
  match tag?, node with
  | none, node => node
  | some "!", .scalar text quoted =>
    if text.isEmpty && !quoted then .tagged "!" (.scalar text quoted) else .scalar text quoted
  | some tag, node => .tagged tag node

/-- How far the next entry of a mapping is. -/
inductive EntrySlot where
  /-- Nothing of it is there. -/
  | idle
  /-- A key was announced. -/
  | key
  /-- The key is there. -/
  | keyed (key : Node)
  /-- The key is there and a value was announced. -/
  | value (key : Node)

namespace EntrySlot

/-- The entry as it stands, with empty scalars for what is missing. -/
def toEntry? : EntrySlot → Option (Node × Node)
  | idle => none
  | key => some (.empty, .empty)
  | keyed k => some (k, .empty)
  | value k => some (k, .empty)

end EntrySlot

/-- A collection that has begun, or the properties of a node that has not. -/
inductive Frame where
  /-- A block sequence; an item was announced, or not. -/
  | blockSequence (items : List Node) (awaits : Bool)
  /-- A block sequence that stands under a key without indentation. -/
  | flatSequence (items : List Node) (awaits : Bool)
  /-- A block mapping. -/
  | blockMapping (entries : List (Node × Node)) (slot : EntrySlot)
  /-- A flow sequence; an item may follow, or only a comma. -/
  | flowSequence (items : List Node) (awaits : Bool)
  /-- A mapping of one entry inside a flow sequence, which stands without braces. -/
  | pair (slot : EntrySlot)
  /-- A flow mapping; an entry may follow, or only a comma. -/
  | flowMapping (entries : List (Node × Node)) (slot : EntrySlot) (awaits : Bool)
  /-- The tag and the name of the next node. -/
  | properties (tag? name? : Option String)

/-- A document that has begun. -/
structure Draft where
  /-- The nodes that have a name, the last one first. -/
  names : List (String × Node)
  /-- The collections the next node stands in, the innermost one first. -/
  frames : List Frame

/-- The text as far as it was read. -/
inductive Progress where
  /-- Before the document. -/
  | before
  /-- In the document. -/
  | inside (draft : Draft)
  /-- Behind the root of the document. -/
  | done (root : Node)
  /-- Behind the mark at the end of the document. -/
  | closed (root : Node)

namespace Draft

/-- The draft with other collections. -/
def withFrames (d : Draft) (frames : List Frame) : Draft := { d with frames := frames }

/-- A node is complete: it goes into the innermost collection, if that awaits one. Properties that wait
for it are its own. -/
def placeIn? (names : List (String × Node)) : List Frame → Node → Option Progress
  | [], node => some (.done node)
  | .properties tag? name? :: rest, node =>
    let node := node.withTag tag?
    placeIn? (name?.toList.map (·, node) ++ names) rest node
  | .blockSequence items true :: rest, node =>
    some (.inside ⟨names, .blockSequence (items ++ [node]) false :: rest⟩)
  | .flatSequence items true :: rest, node =>
    some (.inside ⟨names, .flatSequence (items ++ [node]) false :: rest⟩)
  | .blockMapping entries .key :: rest, node =>
    some (.inside ⟨names, .blockMapping entries (.keyed node) :: rest⟩)
  | .blockMapping entries (.value k) :: rest, node =>
    some (.inside ⟨names, .blockMapping (entries ++ [(k, node)]) .idle :: rest⟩)
  | .flowSequence items true :: rest, node =>
    some (.inside ⟨names, .flowSequence (items ++ [node]) false :: rest⟩)
  | .pair .key :: rest, node => some (.inside ⟨names, .pair (.keyed node) :: rest⟩)
  | .pair (.value k) :: .flowSequence items _ :: rest, node =>
    some (.inside ⟨names, .flowSequence (items ++ [.mapping [(k, node)]]) false :: rest⟩)
  -- A node without a colon is a key without a value.
  | .flowMapping entries .idle true :: rest, node =>
    some (.inside ⟨names, .flowMapping (entries ++ [(node, .empty)]) .idle false :: rest⟩)
  | .flowMapping entries .key _ :: rest, node =>
    some (.inside ⟨names, .flowMapping entries (.keyed node) false :: rest⟩)
  | .flowMapping entries (.value k) _ :: rest, node =>
    some (.inside ⟨names, .flowMapping (entries ++ [(k, node)]) .idle false :: rest⟩)
  | _, _ => none

/-- A node is complete inside the given collections. -/
def place? (d : Draft) (frames : List Frame) (node : Node) : Option Progress :=
  placeIn? d.names frames node

/-- The innermost collection awaits a node. -/
def awaitsNode : List Frame → Bool
  | [] => true
  | .blockSequence _ awaits :: _ | .flatSequence _ awaits :: _ | .flowSequence _ awaits :: _ => awaits
  | .blockMapping _ slot :: _ | .pair slot :: _ =>
    match slot with
    | .key | .value _ => true
    | _ => false
  | .flowMapping _ slot awaits :: _ =>
    match slot with
    | .key | .value _ => true
    | .idle => awaits
    | .keyed _ => false
  | .properties _ _ :: _ => true

/-- The innermost collection is a flow collection, in which no block collection can stand. -/
def isInFlow : List Frame → Bool
  | .properties _ _ :: rest => isInFlow rest
  | .flowSequence _ _ :: _ | .pair _ :: _ | .flowMapping _ _ _ :: _ => true
  | _ => false

/-- A sequence without indentation may stand here, under a key. -/
def awaitsFlat : List Frame → Bool
  | .properties _ _ :: rest => awaitsFlat rest
  | .blockMapping _ .key :: _ | .blockMapping _ (.value _) :: _ => true
  | _ => false

/-- Opens a collection where a node is awaited. -/
def open? (d : Draft) (frame : Frame) : Option Draft :=
  if awaitsNode d.frames then some (d.withFrames (frame :: d.frames)) else none

/-- Opens a block collection where one may stand. -/
def openBlock? (d : Draft) (frame : Frame) : Option Draft :=
  if isInFlow d.frames then none else d.open? frame

/-- Items with an empty scalar at the end if one was announced. -/
def finish (items : List Node) (awaits : Bool) : List Node :=
  if awaits then items ++ [.empty] else items

/-- A sequence without indentation ends where anything but a dash follows. -/
def endFlat (d : Draft) : Draft :=
  match d.frames with
  | .flatSequence items awaits :: rest =>
    match d.place? rest (.sequence (finish items awaits)) with
    | some (.inside d) => d
    | _ => d
  | _ => d

/-- A pair in a flow sequence ends where the next item or the end of the sequence follows. -/
def endPair : List Frame → List Frame
  | .pair slot :: .flowSequence items _ :: rest =>
    .flowSequence (items ++ [.mapping slot.toEntry?.toList]) false :: rest
  | frames => frames

/-- A dash. -/
def dash? (d : Draft) : Option Draft :=
  match d.frames with
  | .blockSequence items awaits :: rest =>
    some (d.withFrames (.blockSequence (finish items awaits) true :: rest))
  | .flatSequence items awaits :: rest =>
    some (d.withFrames (.flatSequence (finish items awaits) true :: rest))
  | frames => if awaitsFlat frames then some (d.withFrames (.flatSequence [] true :: frames)) else none

/-- The announcement of a key. -/
def key? (d : Draft) : Option Draft :=
  let d := d.endFlat
  match d.frames with
  | .blockMapping entries slot :: rest =>
    some (d.withFrames (.blockMapping (entries ++ slot.toEntry?.toList) .key :: rest))
  | .flowSequence items true :: rest =>
    some (d.withFrames (.pair .key :: .flowSequence items true :: rest))
  | .flowMapping entries .idle true :: rest =>
    some (d.withFrames (.flowMapping entries .key false :: rest))
  | _ => none

/-- The announcement of a value. -/
def value? (d : Draft) : Option Draft :=
  let d := d.endFlat
  match d.frames with
  | .blockMapping entries .key :: rest =>
    some (d.withFrames (.blockMapping entries (.value .empty) :: rest))
  | .blockMapping entries (.keyed k) :: rest =>
    some (d.withFrames (.blockMapping entries (.value k) :: rest))
  | .pair (.keyed k) :: rest => some (d.withFrames (.pair (.value k) :: rest))
  | .flowMapping entries .key _ :: rest =>
    some (d.withFrames (.flowMapping entries (.value .empty) false :: rest))
  | .flowMapping entries (.keyed k) _ :: rest =>
    some (d.withFrames (.flowMapping entries (.value k) false :: rest))
  | _ => none

/-- A comma. -/
def comma? (d : Draft) : Option Draft :=
  match endPair d.frames with
  | .flowSequence items false :: rest => some (d.withFrames (.flowSequence items true :: rest))
  | .flowMapping entries slot false :: rest =>
    some (d.withFrames (.flowMapping (entries ++ slot.toEntry?.toList) .idle true :: rest))
  | _ => none

/-- The end of a block collection. -/
def blockEnd? (d : Draft) : Option Progress :=
  let d := d.endFlat
  match d.frames with
  | .blockSequence items awaits :: rest => d.place? rest (.sequence (finish items awaits))
  | .blockMapping entries slot :: rest => d.place? rest (.mapping (entries ++ slot.toEntry?.toList))
  | _ => none

/-- The end of a flow collection. -/
def flowEnd? (d : Draft) (isSequence : Bool) : Option Progress :=
  match endPair d.frames, isSequence with
  | .flowSequence items _ :: rest, true => d.place? rest (.sequence items)
  | .flowMapping entries slot _ :: rest, false =>
    d.place? rest (.mapping (entries ++ slot.toEntry?.toList))
  | _, _ => none

/-! ### Properties -/

/-- A tag of the next node. It has one at most. -/
def tag? (d : Draft) (tag : String) : Option Draft :=
  match d.frames with
  | .properties none name? :: rest => some (d.withFrames (.properties (some tag) name? :: rest))
  | _ => d.open? (.properties (some tag) none)

/-- A name for the next node. From here on an older node with that name has lost it. -/
def anchor? (d : Draft) (name : String) : Option Draft :=
  let d := { d with names := d.names.filter fun n => n.1 ≠ name }
  match d.frames with
  | .properties tag? none :: rest => some (d.withFrames (.properties tag? (some name) :: rest))
  | _ => d.open? (.properties none (some name))

/-- The node with a name. -/
def alias? (d : Draft) (name : String) : Option Progress :=
  (d.names.lookup name).bind (d.place? d.frames)

/-- The token goes on with a node that has properties already. -/
def continuesNode (rest : List Frame) (tag? name? : Option String) : Token → Bool
  | .scalar _ _ | .flowSequenceStart | .flowMappingStart | .blockSequenceStart | .blockMappingStart => true
  | .dash => awaitsFlat rest
  | .tag _ _ => tag?.isNone
  | .anchor _ => name?.isNone
  | _ => false

/-- Properties that no node follows belong to an empty scalar. -/
def settle? (d : Draft) (t : Token) : Option Progress :=
  match d.frames with
  | .properties tag? name? :: rest =>
    if continuesNode rest tag? name? t then some (.inside d) else d.place? d.frames .empty
  | _ => some (.inside d)

/-- The innermost collection is a pair in a flow sequence that awaits its key. -/
def awaitsPairKey : List Frame → Bool
  | .pair .key :: _ => true
  | _ => false

/-- The mark is an empty key where the key of a pair is awaited. -/
def standsForKey : Token → Bool
  | .value | .comma | .flowSequenceEnd => true
  | _ => false

/-- A token inside of a document. A mark in the place of the key of a pair is taken for an empty key and
means nothing else. -/
def step? (d : Draft) (t : Token) : Option Progress :=
  if awaitsPairKey d.frames && standsForKey t then d.place? d.frames .empty
  else
    match t with
    | .blockSequenceStart => (d.openBlock? (.blockSequence [] false)).map .inside
    | .blockMappingStart => (d.openBlock? (.blockMapping [] .idle)).map .inside
    | .blockEnd => d.blockEnd?
    | .flowSequenceStart => (d.open? (.flowSequence [] true)).map .inside
    | .flowSequenceEnd => d.flowEnd? true
    | .flowMappingStart => (d.open? (.flowMapping [] .idle true)).map .inside
    | .flowMappingEnd => d.flowEnd? false
    | .comma => d.comma?.map .inside
    | .dash => d.dash?.map .inside
    | .key => d.key?.map .inside
    | .value => d.value?.map .inside
    | .scalar text quoted => d.place? d.frames (.scalar text quoted)
    | .tag _ tag => (d.tag? tag).map .inside
    | .anchor name => (d.anchor? name).map .inside
    | .alias name => d.alias? name
    | .documentEnd => if d.frames.isEmpty then some (.closed .empty) else none
    | .documentStart | .directive _ => none

end Draft

namespace Progress

/-- What a token means where no properties are left open. -/
def advance? : Progress → Token → Option Progress
  | .before, .documentStart => some (.inside ⟨[], []⟩)
  | .before, .documentEnd => none
  | .before, t => Draft.step? ⟨[], []⟩ t
  | .inside d, t => d.step? t
  | .done root, .documentEnd => some (.closed root)
  | .done _, _ => none
  | .closed root, .documentEnd => some (.closed root)
  | .closed _, _ => none

/-- One more token. -/
def step? (p : Progress) (t : Token) : Option Progress :=
  match p with
  | .inside d => (d.settle? t).bind (advance? · t)
  | p => p.advance? t

/-- The tree at the end of the text. A text without a document is an empty scalar. -/
def root? : Progress → Option Node
  | .before => some .empty
  | .inside d =>
    match d.frames with
    | [] => some .empty
    | [.properties tag? _] => some (Node.empty.withTag tag?)
    | _ => none
  | .done root => some root
  | .closed root => some root

end Progress

/-- The token with the full name of its tag, if that has a handle that is known. -/
def Token.resolve? (handles : List (String × String)) : Token → Option Token
  | .tag handle name => (handles.lookup handle).map fun beginning => .tag "" (beginning ++ name)
  | t => some t

/-- The directives in front of the other tokens. -/
def splitDirectives : List Token → List Directive × List Token
  | .directive d :: rest => let (directives, tokens) := splitDirectives rest; (d :: directives, tokens)
  | tokens => ([], tokens)

/-- The tree of a list of tokens. Behind directives a document begins with its mark. -/
def Node.ofTokens? (tokens : List Token) : Option Node := do
  let (directives, tokens) := splitDirectives tokens
  let handles ← Directive.handles? directives
  if !directives.isEmpty && tokens.head? != some .documentStart then none
  else
    let tokens ← tokens.mapM (Token.resolve? (handles ++ standardHandles))
    let progress ← tokens.foldlM Progress.step? .before
    progress.root?

/-- The tree of a text, if the text is a YAML document. -/
def Node.ofText? (text : String) : Option Node := (tokens? text).bind Node.ofTokens?

end PodPlacement.Yaml
