import ActionCatalogue.Data.Node
import ActionCatalogue.Json.Token

/-!
Reading JSON text. Tokens are taken one after the other; what has been opened and not closed yet is
kept on a stack. A container that stands deeper than a limit is refused by whoever looks at it, and
so are numbers without a value and broken texts; a repeated key of a map is kept as it stands.
-/

namespace ActionCatalogue.Json.Reader

/-- A container that is being read, its parts last first. -/
inductive Frame where
  | list (items : List Node)
  | map (entries : List (Node × Node))
  /-- A map whose next value belongs to a key. -/
  | member (entries : List (Node × Node)) (key : Node)

inductive Stage where
  | value
  | valueOrClose
  | keyOrClose
  | key
  | colon
  | commaOrClose

structure State where
  stage : Stage
  frames : List Frame
  result : Option Node

def start : State := ⟨.value, [], none⟩

def complete (v : Node) : List Frame → Option State
  | [] => some ⟨.commaOrClose, [], some v⟩
  | .list items :: frames => some ⟨.commaOrClose, .list (v :: items) :: frames, none⟩
  | .member entries key :: frames =>
    some ⟨.commaOrClose, .map ((key, v) :: entries) :: frames, none⟩
  | .map _ :: _ => none

/-- Closes the innermost container, which is refused if it stands too deep. -/
def close (maxDepth : Nat) (v : Node) (outer : List Frame) : Option State :=
  complete (if outer.length < maxDepth then v else .refused) outer

def textNode : Option String → Node
  | some s => .text s
  | none => .refused

def stepValue (frames : List Frame) : Token → Option State
  | .openList => some ⟨.valueOrClose, .list [] :: frames, none⟩
  | .openMap => some ⟨.keyOrClose, .map [] :: frames, none⟩
  | .null => complete .null frames
  | .bool b => complete (.bool b) frames
  | .number (some n) => complete (.number n) frames
  | .number none => complete .refused frames
  | .text s => complete (textNode s) frames
  | _ => none

def step (maxDepth : Nat) (s : State) (t : Token) : Option State :=
  match s.stage, t, s.frames with
  | .value, t, frames => if s.result.isSome then none else stepValue frames t
  | .valueOrClose, .closeList, .list items :: outer => close maxDepth (.list .settled items) outer
  | .valueOrClose, t, frames => stepValue frames t
  | .keyOrClose, .closeMap, .map entries :: outer => close maxDepth (.map .settled entries) outer
  | .keyOrClose, .text k, .map entries :: outer =>
    some ⟨.colon, .member entries (textNode k) :: outer, none⟩
  | .key, .text k, .map entries :: outer =>
    some ⟨.colon, .member entries (textNode k) :: outer, none⟩
  | .colon, .colon, frames => some ⟨.value, frames, none⟩
  | .commaOrClose, .comma, .list items :: outer => some ⟨.value, .list items :: outer, none⟩
  | .commaOrClose, .comma, .map entries :: outer => some ⟨.key, .map entries :: outer, none⟩
  | .commaOrClose, .closeList, .list items :: outer =>
    close maxDepth (.list .settled items.reverse) outer
  | .commaOrClose, .closeMap, .map entries :: outer =>
    close maxDepth (.map .settled entries.reverse) outer
  | _, _, _ => none

def read (maxDepth : Nat) (text : String) : Reading Node :=
  match (Token.scan? text.toList).bind (·.foldlM (step maxDepth) start) with
  | some ⟨_, [], some v⟩ => .ok v
  | _ => .error .misshapen

def documentDepth : Nat := 127

def readDocument (text : String) : Reading Node := read documentDepth text

/-- The value that a text writes. A repeated key keeps its first place and takes its last value. -/
def readValue (text : String) : Reading Value := do (← readDocument text).asValue

end ActionCatalogue.Json.Reader
