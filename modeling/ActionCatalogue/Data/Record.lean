import ActionCatalogue.Data.Node

/-!
Records: maps whose keys are known. Their fields may come in any order, unknown ones are passed over
and a known one that comes twice is refused; a settled list is read as the fields in their order.
Of several faults the one that stands first in the document is reported, a field that is missing
after all others.
-/

namespace ActionCatalogue

structure Fault where
  position : Nat
  refusal : Refusal

/-- Fields that are being read, or the first fault among them. -/
structure Fields (α : Type) where
  outcome : Except Fault α

namespace Fields

def earlier (a b : Fault) : Fault := if b.position < a.position then b else a

instance : Applicative Fields where
  pure a := ⟨.ok a⟩
  seq f x := ⟨match f.outcome, (x ()).outcome with
    | .ok g, .ok a => .ok (g a)
    | .ok _, .error b => .error b
    | .error a, .ok _ => .error a
    | .error a, .error b => .error (earlier a b)⟩

end Fields

/-- The entries of a node under their names, up to the first entry that no record can have. -/
structure Record (n : Node) where
  entries : List (String × Node)
  broken : Bool
  smaller : ∀ e ∈ entries, sizeOf e.2 < sizeOf n

namespace Record

/-- The name that a key stands for. A number is the position of a field. -/
def keyName? (names : List String) : Node → Option String
  | .text s => some s
  | .scalar s => some s.text
  | .number (.int i) => if 0 ≤ i then some (names.getD i.toNat "") else none
  | _ => none

def nameEntries (names : List String) : List (Node × Node) → List (String × Node) × Bool
  | [] => ([], false)
  | (k, v) :: rest =>
    match keyName? names k with
    | some name => ((name, v) :: (nameEntries names rest).1, (nameEntries names rest).2)
    | none => ([], true)

theorem mem_nameEntries {names : List String} {es : List (Node × Node)} {e : String × Node}
    (h : e ∈ (nameEntries names es).1) : ∃ p ∈ es, p.2 = e.2 := by
  induction es with
  | nil => simp [nameEntries] at h
  | cons p rest ih =>
      obtain ⟨k, v⟩ := p
      simp only [nameEntries] at h
      split at h
      · rcases List.mem_cons.mp h with rfl | h
        · exact ⟨(k, v), by simp, rfl⟩
        · obtain ⟨q, hq, e⟩ := ih h
          exact ⟨q, List.mem_cons_of_mem _ hq, e⟩
      · simp at h

def ofEntries {n : Node} (names : List String) (es : List (Node × Node))
    (h : ∀ e ∈ es, sizeOf e.2 < sizeOf n) : Record n where
  entries := (nameEntries names es).1
  broken := (nameEntries names es).2
  smaller e he := by
    obtain ⟨p, hp, same⟩ := mem_nameEntries he
    rw [← same]
    exact h p hp

def ofNode (names : List String) (n : Node) : Reading (Record n) :=
  match h : n with
  | .list .settled items => .ok {
      entries := names.zip items
      broken := names.length < items.length
      smaller := fun e he => by
        have := List.sizeOf_lt_of_mem (List.of_mem_zip he).2
        simp only [Node.list.sizeOf_spec]
        omega }
  | .list _ _ => .error .misshapen
  | m => match hm : m.entries with
    | .error e => .error e
    | .ok es => .ok (ofEntries names es fun _ he => Node.sizeOf_lt_of_entries hm he)

variable {n : Node} {α : Type}

/-- The first entry with a name, its position, and whether another one follows. -/
def find? (name : String) : (es : List (String × Node)) →
    Option ({ v : Node // ∃ e ∈ es, e.2 = v } × Nat × Option Nat)
  | [] => none
  | (k, v) :: rest =>
    if k = name then
      some (⟨v, (k, v), by simp, rfl⟩, 0, (rest.findIdx? (·.1 = name)).map (· + 1))
    else (find? name rest).map fun (⟨w, hw⟩, i, again) =>
      (⟨w, by obtain ⟨e, he, same⟩ := hw; exact ⟨e, List.mem_cons_of_mem _ he, same⟩⟩, i + 1,
        again.map (· + 1))

/-- A field that may be missing, read by a reader that is told that the field is smaller than the
record. -/
def part? (r : Record n) (name : String) (read : (v : Node) → sizeOf v < sizeOf n → Reading α) :
    Fields (Option α) :=
  match find? name r.entries with
  | none => ⟨.ok none⟩
  | some (⟨v, hv⟩, i, again) =>
    match read v (by obtain ⟨e, he, same⟩ := hv; rw [← same]; exact r.smaller e he) with
    | .error refusal => ⟨.error ⟨i, refusal⟩⟩
    | .ok a => match again with
      | none => ⟨.ok (some a)⟩
      | some j => ⟨.error ⟨j, .misshapen⟩⟩

def requiredPart (r : Record n) (name : String)
    (read : (v : Node) → sizeOf v < sizeOf n → Reading α) : Fields α :=
  ⟨match (r.part? name read).outcome with
    | .ok (some a) => .ok a
    | .ok none => .error ⟨r.entries.length + 1, .misshapen⟩
    | .error f => .error f⟩

def required (r : Record n) (name : String) (read : Node → Reading α) : Fields α :=
  r.requiredPart name fun v _ => read v

def orDefault (r : Record n) (name : String) (default : α) (read : Node → Reading α) : Fields α :=
  (fun a => a.getD default) <$> r.part? name fun v _ => read v

def optional (r : Record n) (name : String) (read : Node → Reading α) : Fields (Option α) :=
  Option.join <$> r.part? name fun v _ => v.asOptional read

def optionalPart (r : Record n) (name : String)
    (read : (v : Node) → sizeOf v < sizeOf n → Reading α) : Fields (Option α) :=
  Option.join <$> r.part? name fun v hv => v.asOptional fun _ => read v hv

def text (r : Record n) (name : String) : Fields String :=
  r.orDefault name "" Node.asText

def flag (r : Record n) (name : String) : Fields Bool :=
  r.orDefault name false Node.asBool

def texts (r : Record n) (name : String) : Fields (List String) :=
  r.orDefault name [] (Node.asListOf Node.asText)

def values (r : Record n) (name : String) : Fields (List Json.Value) :=
  r.orDefault name [] (Node.asListOf Node.asValue)

def finish (r : Record n) (fields : Fields α) : Reading α :=
  match fields.outcome with
  | .ok a => if r.broken then .error .misshapen else .ok a
  | .error f => if r.broken ∧ r.entries.length ≤ f.position then .error .misshapen
    else .error f.refusal

end Record

def Node.asRecord {α : Type} (names : List String) (n : Node) (fields : Record n → Fields α) :
    Reading α := do
  let r ← Record.ofNode names n
  r.finish (fields r)

end ActionCatalogue
