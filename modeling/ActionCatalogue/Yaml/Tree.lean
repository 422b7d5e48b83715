import ActionCatalogue.Yaml.Token

/-!
The tree of a YAML document. Tokens are taken one after the other; what has been opened and not
closed yet is kept on a stack of frames. Where a token shows that something was left out, an empty
scalar stands in for it, and a list without an indent of its own ends with the first token that is
no dash.
-/

namespace ActionCatalogue.Yaml

/-- What stands before a node: the name under which it can be repeated, and its tag. -/
structure Properties where
  anchor : Option String := none
  tag : Option String := none
deriving DecidableEq, Repr

inductive Tree where
  | alias (name : String)
  | scalar (anchor : Option String) (value : Scalar)
  | list (properties : Properties) (items : List Tree)
  | map (properties : Properties) (entries : List (Tree × Tree))

namespace Tree

def empty (p : Properties) : Tree := .scalar p.anchor { text := "", style := .plain, tag := p.tag }

/-- A scalar with its tag. A lone exclamation mark is no tag of a scalar. -/
def ofScalar (p : Properties) (style : Style) (text : String) : Tree :=
  .scalar p.anchor { text, style, tag := p.tag.filter (· ≠ "!") }

end Tree

/-- What stands before the root of a document: nothing, directives, or the mark that starts it. -/
inductive Opening where
  | bare | directed | marked
deriving DecidableEq

/-- A part of the document that is not complete. Items and entries are kept last first. -/
inductive Frame where
  | root (opening : Opening)
  | done (root : Tree)
  | properties (p : Properties)
  /-- A block list before a dash, and after one. -/
  | blockList (p : Properties) (items : List Tree)
  | blockItem (p : Properties) (items : List Tree)
  /-- The same for a list without an indent of its own. -/
  | looseList (p : Properties) (items : List Tree)
  | looseItem (p : Properties) (items : List Tree)
  /-- A block map before a key mark, after it, before a colon and after it. -/
  | blockMap (p : Properties) (entries : List (Tree × Tree))
  | blockKey (p : Properties) (entries : List (Tree × Tree))
  | blockColon (p : Properties) (entries : List (Tree × Tree)) (key : Tree)
  | blockValue (p : Properties) (entries : List (Tree × Tree)) (key : Tree)
  /-- A flow list before a comma, and before an item. -/
  | flowList (p : Properties) (items : List Tree)
  | flowItem (p : Properties) (items : List Tree)
  | pairKey (p : Properties) (items : List Tree)
  | pairColon (p : Properties) (items : List Tree) (key : Tree)
  | pairValue (p : Properties) (items : List Tree) (key : Tree)
  /-- A flow map before a comma, and before an entry. -/
  | flowMap (p : Properties) (entries : List (Tree × Tree))
  | flowEntry (p : Properties) (entries : List (Tree × Tree))
  | flowKey (p : Properties) (entries : List (Tree × Tree))
  | flowColon (p : Properties) (entries : List (Tree × Tree)) (key : Tree)
  | flowValue (p : Properties) (entries : List (Tree × Tree)) (key : Tree)

namespace Frame

def allowsBlock : Frame → Bool
  | .root _ | .blockItem _ _ | .looseItem _ _ | .blockKey _ _ | .blockValue _ _ _ => true
  | _ => false

def allowsLoose : Frame → Bool
  | .blockKey _ _ | .blockValue _ _ _ => true
  | _ => false

/-- The single pair of a flow list, as a map. -/
def pair (key value : Tree) : Tree := .map {} [(key, value)]

def fill (node : Tree) : Frame → Option Frame
  | .root opening => if opening = .directed then none else some (.done node)
  | .blockItem p items => some (.blockList p (node :: items))
  | .looseItem p items => some (.looseList p (node :: items))
  | .blockKey p entries => some (.blockColon p entries node)
  | .blockValue p entries key => some (.blockMap p ((key, node) :: entries))
  | .flowItem p items => some (.flowList p (node :: items))
  | .pairKey p items => some (.pairColon p items node)
  | .pairValue p items key => some (.flowList p (pair key node :: items))
  | .flowEntry p entries => some (.flowMap p ((node, Tree.empty {}) :: entries))
  | .flowKey p entries => some (.flowColon p entries node)
  | .flowValue p entries key => some (.flowMap p ((key, node) :: entries))
  | _ => none

/-- Whether a token shows that the node which a frame waits for is left out. -/
def leavesOut (t : Token) : Frame → Bool
  | .root opening => opening == .marked && (t == .documentEnd || t == .streamEnd)
  | .blockItem _ _ => t == .dash || t == .blockEnd
  | .looseItem _ _ => t == .dash || t == .key || t == .value || t == .blockEnd
  | .blockKey _ _ | .blockValue _ _ _ => t == .key || t == .value || t == .blockEnd
  | .pairValue _ _ _ => t == .comma || t == .flowListEnd
  | .flowKey _ _ => t == .value || t == .comma || t == .flowMapEnd
  | .flowValue _ _ _ => t == .comma || t == .flowMapEnd
  | _ => false

/-- Whether a token belongs to the node which a frame waits for, after some properties of it. -/
def startsNode (p : Properties) (t : Token) (frame : Frame) : Bool :=
  match t with
  | .scalar _ _ | .flowListStart | .flowMapStart => true
  | .blockListStart | .blockMapStart => frame.allowsBlock
  | .dash => frame.allowsLoose
  | .anchor _ => p.anchor.isNone
  | .tag _ _ => p.tag.isNone
  | .alias _ => p == {}
  | _ => false

end Frame

structure Reader where
  frames : List Frame := [.root .bare]
  handles : List (String × String) := [("!", "!"), ("!!", "tag:yaml.org,2002:")]
  declared : List String := []
  versioned : Bool := false

namespace Reader

def complete (node : Tree) : List Frame → Option (List Frame)
  | frame :: rest => (frame.fill node).map (· :: rest)
  | [] => none

/-- Closes what a token shows to be complete, if there is anything. -/
def close (t : Token) (frames : List Frame) : Option (List Frame) :=
  match frames with
  | .properties p :: frame :: rest =>
    if frame.startsNode p t then some frames else complete (Tree.empty p) (frame :: rest)
  | .looseList p items :: rest =>
    if t = .dash then some frames else complete (.list p items.reverse) rest
  | .blockColon p entries key :: rest =>
    some (if t = .value then frames else .blockMap p ((key, Tree.empty {}) :: entries) :: rest)
  | .pairColon p items key :: rest =>
    some (if t = .value then frames
      else .flowList p (Frame.pair key (Tree.empty {}) :: items) :: rest)
  | .flowColon p entries key :: rest =>
    some (if t = .value then frames else .flowMap p ((key, Tree.empty {}) :: entries) :: rest)
  | frame :: rest =>
    if frame.leavesOut t then complete (Tree.empty {}) (frame :: rest) else some frames
  | [] => some []

/-- Closes all that a token shows to be complete: at most a node left out, the list in which it
stands, and the value of the key that the list is. -/
def closeAll (t : Token) (frames : List Frame) : Option (List Frame) := do
  close t (← close t (← close t (← close t frames)))

/-- The properties before the innermost node, and the frames without them. -/
def takeProperties : List Frame → Properties × List Frame
  | .properties p :: rest => (p, rest)
  | frames => ({}, frames)

/-- The tag with a handle and a suffix, if the handle stands for something. -/
def tagOf? (r : Reader) (handle suffix : String) : Option String :=
  if handle.isEmpty then some suffix
  else (r.handles.find? (·.1 == handle)).map fun (_, expansion) => expansion ++ suffix

def stepNode (r : Reader) (t : Token) (p : Properties) (frame : Frame) (rest : List Frame) :
    Option (List Frame) :=
  if frame.startsNode p t then
    match t with
    | .alias name => complete (.alias name) (frame :: rest)
    | .scalar style text => complete (Tree.ofScalar p style text) (frame :: rest)
    | .anchor name => some (.properties { p with anchor := some name } :: frame :: rest)
    | .tag handle suffix => do
      return .properties { p with tag := some (← r.tagOf? handle suffix) } :: frame :: rest
    | .flowListStart => some (.flowItem p [] :: frame :: rest)
    | .flowMapStart => some (.flowEntry p [] :: frame :: rest)
    | .blockListStart => some (.blockList p [] :: frame :: rest)
    | .blockMapStart => some (.blockMap p [] :: frame :: rest)
    | .dash => some (.looseItem p [] :: frame :: rest)
    | _ => none
  else none

def stepFrame (r : Reader) (t : Token) (frames : List Frame) : Option (List Frame) :=
  match frames, t with
  | .done root :: rest, .documentEnd => some (.done root :: rest)
  | .done root :: rest, .streamEnd => some (.done root :: rest)
  | .root .bare :: rest, .streamEnd => some (.root .bare :: rest)
  | .root .bare :: rest, .documentStart => some (.root .marked :: rest)
  | .root .directed :: rest, .documentStart => some (.root .marked :: rest)
  | .blockList p items :: rest, .dash => some (.blockItem p items :: rest)
  | .blockList p items :: rest, .blockEnd => complete (.list p items.reverse) rest
  | .looseList p items :: rest, .dash => some (.looseItem p items :: rest)
  | .blockMap p entries :: rest, .key => some (.blockKey p entries :: rest)
  | .blockMap p entries :: rest, .blockEnd => complete (.map p entries.reverse) rest
  | .blockColon p entries key :: rest, .value => some (.blockValue p entries key :: rest)
  | .flowList p items :: rest, .comma => some (.flowItem p items :: rest)
  | .flowList p items :: rest, .flowListEnd => complete (.list p items.reverse) rest
  | .flowItem p items :: rest, .key => some (.pairKey p items :: rest)
  | .flowItem p items :: rest, .flowListEnd => complete (.list p items.reverse) rest
  | .pairKey p items :: rest, .value => some (.pairColon p items (Tree.empty {}) :: rest)
  | .pairKey p items :: rest, .comma => some (.pairColon p items (Tree.empty {}) :: rest)
  | .pairKey p items :: rest, .flowListEnd => some (.pairColon p items (Tree.empty {}) :: rest)
  | .pairColon p items key :: rest, .value => some (.pairValue p items key :: rest)
  | .flowMap p entries :: rest, .comma => some (.flowEntry p entries :: rest)
  | .flowMap p entries :: rest, .flowMapEnd => complete (.map p entries.reverse) rest
  | .flowEntry p entries :: rest, .key => some (.flowKey p entries :: rest)
  | .flowEntry p entries :: rest, .flowMapEnd => complete (.map p entries.reverse) rest
  | .flowColon p entries key :: rest, .value => some (.flowValue p entries key :: rest)
  | frames, t =>
    match takeProperties frames with
    | (p, frame :: rest) => r.stepNode t p frame rest
    | _ => none

/-- Takes a version, which may be said once. -/
def stepVersion (r : Reader) (major minor : Nat) : Option Reader :=
  if r.versioned || major ≠ 1 || (minor ≠ 1 && minor ≠ 2) then none
  else some { r with frames := [.root .directed], versioned := true }

/-- Takes what a handle stands for, which may be said once for each. -/
def stepHandle (r : Reader) (handle expansion : String) : Option Reader :=
  if r.declared.contains handle then none
  else some { r with
    frames := [.root .directed]
    handles := (handle, expansion) :: r.handles
    declared := handle :: r.declared }

/-- Takes a token. Directives may only come before the document. -/
def step (r : Reader) (t : Token) : Option Reader :=
  match r.frames, t with
  | [.root opening], .version major minor =>
    if opening = .marked then none else r.stepVersion major minor
  | [.root opening], .handle handle expansion =>
    if opening = .marked then none else r.stepHandle handle expansion
  | frames, t => do return { r with frames := ← r.stepFrame t (← closeAll t frames) }

end Reader

/-- The tree of the only document among tokens; nothing if there is no document. -/
def Tree.ofTokens? (tokens : List Token) : Option (Option Tree) := do
  match (← tokens.foldlM Reader.step {}).frames with
  | [.done root] => return some root
  | [.root .bare] => return none
  | _ => none

end ActionCatalogue.Yaml
