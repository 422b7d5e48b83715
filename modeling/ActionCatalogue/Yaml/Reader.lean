import ActionCatalogue.Data.Node
import ActionCatalogue.Yaml.Tree

/-!
Reading YAML text as a document. Each node with a name gets a number: how many names there are
before it is named. A repetition stands for the node that got the number of its name last, so where
a name is set again the next new name takes over its repetitions. Repetitions that nest without end,
and more of them than a document of its size may ask for, are refused by whoever looks at them.
-/

namespace ActionCatalogue.Yaml

inductive Numbered where
  | alias (number : Nat)
  | scalar (value : Scalar)
  | list (tag : Option String) (items : List Numbered)
  | map (tag : Option String) (entries : List (Numbered × Numbered))

structure Named where
  number : Nat
  start : Nat
  node : Numbered

/-- The numbers of the names so far, the nodes that have them, and how many starts and ends of nodes
there were. -/
structure Names where
  numbers : Entries Nat := []
  nodes : List Named := []
  size : Nat := 0

namespace Names

def declare (n : Names) (anchor : Option String) : Names :=
  match anchor with
  | some name =>
    { n with numbers := Entries.put name n.numbers.length n.numbers, size := n.size + 1 }
  | none => { n with size := n.size + 1 }

/-- Keeps a node that has a name; `before` is how things stood when it started. -/
def keep (n before : Names) (anchor : Option String) (node : Numbered) : Names :=
  match anchor with
  | some _ => { n with nodes := ⟨before.numbers.length, before.size, node⟩ :: n.nodes }
  | none => n

def node? (n : Names) (number : Nat) : Option Numbered :=
  let named := n.nodes.filter fun a => a.number == number
  let last := named.foldl (fun start a => max start a.start) 0
  (named.find? fun a => a.start == last).map (·.node)

mutual

/-- Puts numbers in the place of names. A repetition of what has no name yet is refused. -/
def ofTree (n : Names) : Tree → Option (Numbered × Names)
  | .alias name => do return (.alias (← Entries.lookup name n.numbers), n.declare none)
  | .scalar anchor value =>
    some (.scalar value, (n.declare anchor).keep n anchor (.scalar value))
  | .list p items => do
    let (items, after) ← ofItems (n.declare p.anchor) items
    return (.list p.tag items, (after.declare none).keep n p.anchor (.list p.tag items))
  | .map p entries => do
    let (entries, after) ← ofEntries (n.declare p.anchor) entries
    return (.map p.tag entries, (after.declare none).keep n p.anchor (.map p.tag entries))

def ofItems (n : Names) : List Tree → Option (List Numbered × Names)
  | [] => some ([], n)
  | t :: rest => do
    let (item, n) ← ofTree n t
    let (items, n) ← ofItems n rest
    return (item :: items, n)

def ofEntries (n : Names) : List (Tree × Tree) → Option (List (Numbered × Numbered) × Names)
  | [] => some ([], n)
  | (k, v) :: rest => do
    let (key, n) ← ofTree n k
    let (value, n) ← ofTree n v
    let (entries, n) ← ofEntries n rest
    return ((key, value) :: entries, n)

end

end Names

namespace Numbered

def standing (tag : Option String) : Standing :=
  if tag.any (·.startsWith "!") then .tagged else .undecided

/-- The node itself, or the one that it repeats; the state is how many repetitions are left. -/
def follow (names : Names) : Numbered → StateM Nat (Option Numbered)
  | .alias number => do
    let left ← get
    if left = 0 then return none
    else
      set (left - 1)
      return names.node? number
  | node => return some node

/-- The node of a document; `inner` gives those inside of it, if it may hold any. -/
def expandWith (names : Names) (inner : Option (Numbered → StateM Nat Node)) (node : Numbered) :
    StateM Nat Node := do
  match ← node.follow names, inner with
  | some (.scalar value), _ => return .scalar value
  | some (.list tag items), some expand => return .list (standing tag) (← items.mapM expand)
  | some (.map tag entries), some expand =>
    return .map (standing tag) (← entries.mapM fun (k, v) => return (← expand k, ← expand v))
  | _, _ => return .refused

def expand (names : Names) : Nat → Numbered → StateM Nat Node
  | 0 => expandWith names none
  | depth + 1 => expandWith names (some (expand names depth))

end Numbered

namespace Reader

def maxDepth : Nat := 128

/-- How many repetitions a document may ask for, times its size. -/
def maxRepetition : Nat := 100

/-- The document that a text writes. An empty text writes an empty scalar. -/
def readDocument (text : String) : Reading Node :=
  match (Token.scan? text).bind Tree.ofTokens? with
  | none => .error .misshapen
  | some none => .ok (.scalar { text := "", style := .plain })
  | some (some tree) =>
    match Names.ofTree {} tree with
    | none => .error .misshapen
    | some (root, names) =>
      .ok ((root.expand names maxDepth).run (names.size * maxRepetition)).1

end Reader

end ActionCatalogue.Yaml
