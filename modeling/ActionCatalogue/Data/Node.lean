import ActionCatalogue.Data.Error
import ActionCatalogue.Yaml.Scalar

/-!
Documents before anyone has said what they must be. A node read from JSON says by its shape what it
is. A node read from YAML may leave that open: the same scalar is text for a reader that wants text
and a number for one that takes what comes. `settle` decides what is open; it refuses whatever no
reader could take.
-/

namespace ActionCatalogue

/-- Whether a collection says by its shape what it is. -/
inductive Standing where
  /-- A collection of JSON, or one whose type is decided. -/
  | settled
  /-- A collection of YAML, read as what is wanted. -/
  | undecided
  /-- The same under a tag of its own, which only a reader that wants something can ignore. -/
  | tagged
deriving DecidableEq, Repr

inductive Node where
  | null
  | bool (value : Bool)
  | number (value : Json.Number)
  /-- An infinity or no number at all. -/
  | nonFinite
  | text (value : String)
  | scalar (value : Yaml.Scalar)
  | list (standing : Standing) (items : List Node)
  | map (standing : Standing) (entries : List (Node × Node))
  /-- A part that is an error for whoever looks at it, and for nobody else. -/
  | refused
deriving Repr, Inhabited

namespace Node

mutual

def ofValue : Json.Value → Node
  | .null => .null
  | .bool b => .bool b
  | .number n => .number n
  | .text s => .text s
  | .list items => .list .settled (ofItems items)
  | .object entries => .map .settled (ofMembers entries)

def ofItems : List Json.Value → List Node
  | [] => []
  | v :: rest => ofValue v :: ofItems rest

def ofMembers : List (String × Json.Value) → List (Node × Node)
  | [] => []
  | (k, v) :: rest => (.text k, ofValue v) :: ofMembers rest

end

/-- What a scalar of YAML is where no type is asked for. -/
def ofMeaning : Yaml.Meaning → Reading Node
  | .null => .ok .null
  | .bool b => .ok (.bool b)
  | .int n => .ok (.number (.int n))
  | .float d => .ok (.number (.double d))
  | .nonFinite => .ok .nonFinite
  | .text s => .ok (.text s)
  | .refused => .error .misshapen

mutual

/-- The node with everything open decided. -/
def settle : Node → Reading Node
  | .scalar s => ofMeaning s.meaning
  | .list standing items =>
    if standing = .tagged then .error .misshapen else return .list .settled (← settleItems items)
  | .map standing entries =>
    if standing = .tagged then .error .misshapen
    else return .map .settled (← settleEntries entries)
  | .refused => .error .misshapen
  | n => .ok n

def settleItems : List Node → Reading (List Node)
  | [] => .ok []
  | n :: rest => return (← settle n) :: (← settleItems rest)

def settleEntries : List (Node × Node) → Reading (List (Node × Node))
  | [] => .ok []
  | (k, v) :: rest => return (← settle k, ← settle v) :: (← settleEntries rest)

end

/-! ### Readers -/

/-- Text. A scalar of YAML is taken literally, whatever it looks like. -/
def asText : Node → Reading String
  | .text s => .ok s
  | .scalar s => .ok s.text
  | _ => .error .misshapen

def asBool : Node → Reading Bool
  | .bool b => .ok b
  | .scalar s => match s.bool? with
    | some b => .ok b
    | none => .error .misshapen
  | _ => .error .misshapen

/-- A natural number of 64 bits. -/
def asNat : Node → Reading Nat
  | .number (.int n) => if 0 ≤ n then .ok n.toNat else .error .misshapen
  | _ => .error .misshapen

/-- Whether nothing stands here, for a reader that accepts nothing. -/
def isAbsent : Node → Reading Bool
  | .null => .ok true
  | .scalar s =>
    if s.style ≠ .plain then .ok false
    else match s.tag with
      | none => .ok (s.text.isEmpty || Yaml.isNullWord s.text)
      | some tag =>
        if tag ≠ Yaml.standardTag "null" then .ok false
        else if Yaml.isNullWord s.text then .ok true
        else .error .misshapen
  | _ => .ok false

/-- The items of a list. Where YAML writes nothing, an empty one. -/
def items : Node → Reading (List Node)
  | .list _ items => .ok items
  | .scalar s => if s.isEmptyPlain then .ok [] else .error .misshapen
  | _ => .error .misshapen

/-- The entries of a map. Where YAML writes nothing, an empty one. -/
def entries : Node → Reading (List (Node × Node))
  | .map _ entries => .ok entries
  | .scalar s => if s.isEmptyPlain then .ok [] else .error .misshapen
  | _ => .error .misshapen

mutual

/-- Any JSON value. Numbers that JSON does not have become null, keys are taken literally. -/
def asValue : Node → Reading Json.Value
  | .null => .ok .null
  | .bool b => .ok (.bool b)
  | .number n => .ok (.number n)
  | .nonFinite => .ok .null
  | .text s => .ok (.text s)
  | .scalar s => match s.meaning with
    | .null => .ok .null
    | .bool b => .ok (.bool b)
    | .int n => .ok (.number (.int n))
    | .float d => .ok (.number (.double d))
    | .nonFinite => .ok .null
    | .text t => .ok (.text t)
    | .refused => .error .misshapen
  | .list standing items =>
    if standing = .tagged then .error .misshapen else return .list (← asValues items)
  | .map standing entries =>
    if standing = .tagged then .error .misshapen
    else return .object (Entries.ofPairs (← asMembers entries))
  | .refused => .error .misshapen

def asValues : List Node → Reading (List Json.Value)
  | [] => .ok []
  | n :: rest => return (← asValue n) :: (← asValues rest)

def asMembers : List (Node × Node) → Reading (List (String × Json.Value))
  | [] => .ok []
  | (k, v) :: rest => do
    let key ← k.asText
    let value ← asValue v
    return (key, value) :: (← asMembers rest)

end

theorem sizeOf_lt_of_items {n v : Node} {vs : List Node} (h : n.items = .ok vs) (hv : v ∈ vs) :
    sizeOf v < sizeOf n := by
  cases n with
  | list standing ws =>
      obtain rfl : ws = vs := by simpa [Node.items] using h
      have := List.sizeOf_lt_of_mem hv
      simp only [list.sizeOf_spec]
      omega
  | scalar s =>
      simp only [Node.items] at h
      split at h
      · cases h
        simp at hv
      · cases h
  | _ => cases h

theorem sizeOf_lt_of_entries {n : Node} {e : Node × Node} {es : List (Node × Node)}
    (h : n.entries = .ok es) (he : e ∈ es) : sizeOf e.2 < sizeOf n := by
  cases n with
  | map standing fs =>
      obtain rfl : fs = es := by simpa [Node.entries] using h
      have := List.sizeOf_lt_of_mem he
      obtain ⟨k, v⟩ := e
      simp only [map.sizeOf_spec, Prod.mk.sizeOf_spec] at this ⊢
      omega
  | scalar s =>
      simp only [Node.entries] at h
      split at h
      · cases h
        simp at he
      · cases h
  | _ => cases h

/-! ### Readers of parts

Each reader of parts comes twice: one whose argument is any reader, and one that also tells the
argument that the part is smaller than the whole, for readers that call themselves. -/

def readEach {α β : Type} : (xs : List α) → ((x : α) → x ∈ xs → Reading β) → Reading (List β)
  | [], _ => .ok []
  | x :: rest, read => do
    let b ← read x List.mem_cons_self
    return b :: (← readEach rest fun y hy => read y (List.mem_cons_of_mem x hy))

def asListOfParts {α : Type} (n : Node) (read : (v : Node) → sizeOf v < sizeOf n → Reading α) :
    Reading (List α) :=
  match h : n.items with
  | .error e => .error e
  | .ok vs => readEach vs fun v hv => read v (sizeOf_lt_of_items h hv)

def asListOf {α : Type} (read : Node → Reading α) (n : Node) : Reading (List α) :=
  n.asListOfParts fun v _ => read v

def asMapOfParts {α : Type} (n : Node) (read : (v : Node) → sizeOf v < sizeOf n → Reading α) :
    Reading (Entries α) :=
  match h : n.entries with
  | .error e => .error e
  | .ok es => do
    let pairs ← readEach es fun e he => do
      let key ← e.1.asText
      let value ← read e.2 (sizeOf_lt_of_entries h he)
      return (key, value)
    return Entries.ofPairs pairs

def asMapOf {α : Type} (read : Node → Reading α) (n : Node) : Reading (Entries α) :=
  n.asMapOfParts fun v _ => read v

def asOptional {α : Type} (read : Node → Reading α) (n : Node) : Reading (Option α) := do
  if ← n.isAbsent then return none else return some (← read n)

def asObject (n : Node) : Reading Json.Object := n.asMapOf asValue

def withoutReason {α : Type} (r : Reading α) : Reading α :=
  match r with
  | .ok a => .ok a
  | .error _ => .error .misshapen

end Node

end ActionCatalogue
