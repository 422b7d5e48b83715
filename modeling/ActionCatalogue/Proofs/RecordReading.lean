import ActionCatalogue.Data.Record
import ActionCatalogue.Proofs.Passes

/-!
Reading JSON values. A value that has no key twice reads as itself. Parts are read one by one, and a
record is read by looking its fields up: in an object under their names, in a list at their places.
So a record that was written is read from what stands under its names, and a record that was read
shows what stands there.
-/

namespace ActionCatalogue

open Json

namespace Json.Value

@[simp] theorem lookup_entry? (key name : String) (value : Option Value) :
    (Entries.lookup key <| entry? name value) = if name = key then value else none := by
  unfold entry?
  cases value <;> simp

/-- An entry that is left out where there is nothing to write. -/
@[simp] theorem lookup_unless (key name : String) (empty : Prop) [Decidable empty] (value : Value) :
    Entries.lookup key (if empty then [] else [(name, value)]) =
      if name = key then (if empty then none else some value) else none := by
  split <;> simp

theorem keys_entry?_sublist (name : String) (value : Option Value) :
    (Entries.keys <| entry? name value).Sublist [name] := by
  unfold entry?
  cases value <;> simp [Entries.keys]

theorem keys_unless_sublist (name : String) (empty : Prop) [Decidable empty] (value : Value) :
    (Entries.keys (if empty then [] else [(name, value)])).Sublist [name] := by
  split <;> simp [Entries.keys]

mutual

/-- No object in a value has a key twice. -/
def Distinct : Value → Prop
  | .list items => DistinctItems items
  | .object members => (Entries.keys members).Nodup ∧ DistinctMembers members
  | .null | .bool _ | .number _ | .text _ => True

def DistinctItems : List Value → Prop
  | [] => True
  | v :: rest => v.Distinct ∧ DistinctItems rest

def DistinctMembers : List (String × Value) → Prop
  | [] => True
  | (_, v) :: rest => v.Distinct ∧ DistinctMembers rest

end

/-- What an optional value has to be to be read back: null stands for no value. -/
def Kept (found : Option Value) : Prop := ∀ v, found = some v → v ≠ .null ∧ v.Distinct

@[simp] theorem kept_none : Kept none := by
  simp [Kept]

@[simp] theorem kept_some {v : Value} : Kept (some v) ↔ v ≠ .null ∧ v.Distinct := by
  simp [Kept]

theorem distinctMembers_iff {members : List (String × Value)} :
    DistinctMembers members ↔ ∀ member ∈ members, member.2.Distinct := by
  induction members with
  | nil => simp [DistinctMembers]
  | cons member rest ih => simp [DistinctMembers, ih]

end Json.Value

namespace Node

theorem ofItems_eq_map (items : List Value) : ofItems items = items.map ofValue := by
  induction items with
  | nil => rfl
  | cons v rest ih => rw [ofItems, ih, List.map_cons]

theorem ofMembers_eq_map (members : List (String × Value)) :
    ofMembers members = members.map fun member => (.text member.1, ofValue member.2) := by
  induction members with
  | nil => rfl
  | cons member rest ih => rw [ofMembers, ih, List.map_cons]

/-! ### Values -/

mutual

theorem asValue_ofValue : (v : Value) → v.Distinct → (ofValue v).asValue = .ok v
  | .null, _ => rfl
  | .bool _, _ => rfl
  | .number _, _ => rfl
  | .text _, _ => rfl
  | .list items, distinct => by
    rw [ofValue, asValue, asValues_ofItems items distinct]
    rfl
  | .object members, distinct => by
    rw [ofValue, asValue, asMembers_ofMembers members distinct.2]
    exact congrArg (fun entries => Except.ok (Value.object entries))
      (Entries.ofPairs_of_nodup distinct.1)

theorem asValues_ofItems : (items : List Value) → Value.DistinctItems items →
    asValues (ofItems items) = .ok items
  | [], _ => rfl
  | v :: rest, distinct => by
    rw [ofItems, asValues, asValue_ofValue v distinct.1, asValues_ofItems rest distinct.2]
    rfl

theorem asMembers_ofMembers : (members : List (String × Value)) → Value.DistinctMembers members →
    asMembers (ofMembers members) = .ok members
  | [], _ => rfl
  | (key, v) :: rest, distinct => by
    rw [ofMembers, asMembers, asValue_ofValue v distinct.1, asMembers_ofMembers rest distinct.2]
    rfl

end

mutual

theorem distinct_of_asValue : (v : Value) → {read : Value} →
    (ofValue v).asValue = .ok read → read.Distinct
  | .null, _, success => by cases success; trivial
  | .bool _, _, success => by cases success; trivial
  | .number _, _, success => by cases success; trivial
  | .text _, _, success => by cases success; trivial
  | .list items, read, success => by
    rw [ofValue, asValue, if_neg (by decide)] at success
    obtain ⟨values, found, success⟩ := exists_of_bind_eq_ok success
    cases success
    exact distinctItems_of_asValues items found
  | .object members, read, success => by
    rw [ofValue, asValue, if_neg (by decide)] at success
    obtain ⟨pairs, found, success⟩ := exists_of_bind_eq_ok success
    cases success
    have distinct := distinctMembers_of_asMembers members found
    refine ⟨Entries.nodup_keys_ofPairs pairs, Value.distinctMembers_iff.mpr fun pair put => ?_⟩
    exact Value.distinctMembers_iff.mp distinct pair (Entries.mem_of_mem_ofPairs put)

theorem distinctItems_of_asValues : (items : List Value) → {values : List Value} →
    asValues (ofItems items) = .ok values → Value.DistinctItems values
  | [], _, success => by cases success; trivial
  | v :: rest, _, success => by
    rw [ofItems, asValues] at success
    obtain ⟨first, found, success⟩ := exists_of_bind_eq_ok success
    obtain ⟨values, others, success⟩ := exists_of_bind_eq_ok success
    cases success
    exact ⟨distinct_of_asValue v found, distinctItems_of_asValues rest others⟩

theorem distinctMembers_of_asMembers : (members : List (String × Value)) →
    {pairs : List (String × Value)} → asMembers (ofMembers members) = .ok pairs →
      Value.DistinctMembers pairs
  | [], _, success => by cases success; trivial
  | (key, v) :: rest, _, success => by
    rw [ofMembers, asMembers] at success
    obtain ⟨name, -, success⟩ := exists_of_bind_eq_ok success
    obtain ⟨first, found, success⟩ := exists_of_bind_eq_ok success
    obtain ⟨pairs, others, success⟩ := exists_of_bind_eq_ok success
    cases success
    exact ⟨distinct_of_asValue v found, distinctMembers_of_asMembers rest others⟩

end

mutual

/-- Nothing is open in a JSON value. -/
theorem settle_ofValue : (v : Value) → (ofValue v).settle = .ok (ofValue v)
  | .null => rfl
  | .bool _ => rfl
  | .number _ => rfl
  | .text _ => rfl
  | .list items => by
    rw [ofValue, settle, settleItems_ofItems items]
    rfl
  | .object members => by
    rw [ofValue, settle, settleEntries_ofMembers members]
    rfl

theorem settleItems_ofItems : (items : List Value) →
    settleItems (ofItems items) = .ok (ofItems items)
  | [] => rfl
  | v :: rest => by
    rw [ofItems, settleItems, settle_ofValue v, settleItems_ofItems rest]
    rfl

theorem settleEntries_ofMembers : (members : List (String × Value)) →
    settleEntries (ofMembers members) = .ok (ofMembers members)
  | [] => rfl
  | (key, v) :: rest => by
    rw [ofMembers, settleEntries, settle_ofValue v, settleEntries_ofMembers rest]
    rfl

end

theorem eq_null_of_asValue {v : Value} (success : (ofValue v).asValue = .ok .null) : v = .null := by
  cases v with
  | null => rfl
  | list items =>
    rw [ofValue, asValue, if_neg (by decide)] at success
    obtain ⟨values, -, success⟩ := exists_of_bind_eq_ok success
    cases success
  | object members =>
    rw [ofValue, asValue, if_neg (by decide)] at success
    obtain ⟨pairs, -, success⟩ := exists_of_bind_eq_ok success
    cases success
  | _ => cases success

theorem eq_text_of_asText {v : Value} {s : String} (success : (ofValue v).asText = .ok s) :
    v = .text s := by
  cases v <;> cases success
  rfl

/-! ### Parts -/

section Parts

variable {α β : Type} {read : Node → Reading α} {found : List α}

theorem asOptional_ofValue {v : Value} (written : v ≠ .null) :
    (ofValue v).asOptional read = some <$> read (ofValue v) := by
  cases v with
  | null => exact absurd rfl written
  | _ => rfl

theorem readEach_eq_ok_iff {read : α → Reading β} {xs : List α} {ys : List β} :
    readEach xs (fun x _ => read x) = .ok ys ↔ List.Forall₂ (fun x y => read x = .ok y) xs ys := by
  induction xs generalizing ys with
  | nil => cases ys <;> simp [readEach]
  | cons x rest ih =>
    rw [readEach]
    constructor
    · intro success
      obtain ⟨first, found, success⟩ := exists_of_bind_eq_ok success
      obtain ⟨others, followed, success⟩ := exists_of_bind_eq_ok success
      cases success
      exact .cons found (ih.mp followed)
    · rintro (_ | ⟨found, followed⟩)
      rw [found, ih.mpr followed]
      rfl

theorem asListOf_ofValue {items : List Value} :
    (ofValue (.list items)).asListOf read = .ok found ↔
      List.Forall₂ (fun v a => read (ofValue v) = .ok a) items found := by
  have parts : (ofValue (.list items)).asListOf read =
      readEach (ofItems items) fun v _ => read v := rfl
  rw [parts, readEach_eq_ok_iff, ofItems_eq_map, List.forall₂_map_left_iff]

theorem exists_of_asListOf {v : Value} (success : (ofValue v).asListOf read = .ok found) :
    ∃ items, v = .list items ∧ List.Forall₂ (fun v a => read (ofValue v) = .ok a) items found := by
  cases v with
  | list items => exact ⟨items, rfl, asListOf_ofValue.mp success⟩
  | _ => cases success

/-- A list that was written is read item by item. -/
theorem asListOf_map {items : List α} {write : α → Value}
    (back : ∀ a ∈ items, read (ofValue (write a)) = .ok a) :
    (ofValue (.list (items.map write))).asListOf read = .ok items := by
  rw [asListOf_ofValue, List.forall₂_map_left_iff, List.forall₂_same]
  exact back

theorem asMapOf_ofValue {members : List (String × Value)} {entries : Entries α} :
    (ofValue (.object members)).asMapOf read = .ok entries ↔
      ∃ pairs, List.Forall₂ (fun member pair => member.1 = pair.1 ∧
        read (ofValue member.2) = .ok pair.2) members pairs ∧ Entries.ofPairs pairs = entries := by
  have parts : (ofValue (.object members)).asMapOf read =
      readEach (ofMembers members) (fun e _ => e.1.asText >>= fun key =>
        read e.2 >>= fun value => .ok (key, value)) >>= fun pairs =>
          .ok (Entries.ofPairs pairs) := rfl
  have one : ∀ (member : String × Value) (pair : String × α),
      ((Node.text member.1).asText >>= fun key => read (ofValue member.2) >>= fun value =>
        .ok (key, value)) = .ok pair ↔
      member.1 = pair.1 ∧ read (ofValue member.2) = .ok pair.2 := by
    rintro ⟨key, v⟩ ⟨name, a⟩
    cases read (ofValue v) <;> simp [asText, bind, Except.bind]
  have each : ∀ pairs, readEach (ofMembers members) (fun e _ => e.1.asText >>= fun key =>
        read e.2 >>= fun value => .ok (key, value)) = .ok pairs ↔
      List.Forall₂ (fun member pair => member.1 = pair.1 ∧
        read (ofValue member.2) = .ok pair.2) members pairs := by
    intro pairs
    rw [readEach_eq_ok_iff, ofMembers_eq_map, List.forall₂_map_left_iff]
    simp only [one]
  rw [parts]
  constructor
  · intro success
    obtain ⟨pairs, found, success⟩ := exists_of_bind_eq_ok success
    cases success
    exact ⟨pairs, (each pairs).mp found, rfl⟩
  · rintro ⟨pairs, found, rfl⟩
    rw [(each pairs).mpr found]
    rfl

/-- A map that was written is read entry by entry. -/
theorem asMapOf_mapValues {entries : Entries α} {write : α → Value}
    (distinct : (Entries.keys entries).Nodup)
    (back : ∀ key a, (key, a) ∈ entries → read (ofValue (write a)) = .ok a) :
    (ofValue (.object (Entries.mapValues write entries))).asMapOf read = .ok entries := by
  refine asMapOf_ofValue.mpr ⟨entries, ?_, Entries.ofPairs_of_nodup distinct⟩
  rw [Entries.mapValues, List.forall₂_map_left_iff, List.forall₂_same]
  exact fun entry member => ⟨rfl, back entry.1 entry.2 member⟩

theorem exists_of_asMapOf {v : Value} {entries : Entries α}
    (success : (ofValue v).asMapOf read = .ok entries) :
    ∃ members, v = .object members ∧ (Entries.keys entries).Nodup ∧
      ∀ key a, (key, a) ∈ entries → ∃ w, (key, w) ∈ members ∧ read (ofValue w) = .ok a := by
  cases v with
  | object members =>
    obtain ⟨pairs, each, rfl⟩ := asMapOf_ofValue.mp success
    refine ⟨members, rfl, Entries.nodup_keys_ofPairs pairs, fun key a put => ?_⟩
    obtain ⟨⟨name, w⟩, member, rfl, found⟩ :=
      Pass.exists_of_mem_right each (Entries.mem_of_mem_ofPairs put)
    exact ⟨w, member, found⟩
  | _ => cases success

end Parts

end Node

/-! ### Records -/

namespace Fields

variable {α β : Type}

/-- The fields are read without a fault. -/
def Give (f : Fields α) (a : α) : Prop := f.outcome = .ok a

theorem give_seq {f : Fields (α → β)} {x : Fields α} {b : β} :
    (f <*> x).Give b ↔ ∃ g, f.Give g ∧ ∃ a, x.Give a ∧ g a = b := by
  simp only [Give, Seq.seq]
  cases f.outcome <;> cases x.outcome <;> simp

theorem give_map {g : α → β} {x : Fields α} {b : β} :
    (g <$> x).Give b ↔ ∃ a, x.Give a ∧ g a = b := by
  simp only [Give, Functor.map]
  cases x.outcome <;> simp

theorem Give.seq {f : Fields (α → β)} {g : α → β} {x : Fields α} {a : α} (first : f.Give g)
    (second : x.Give a) : (f <*> x).Give (g a) :=
  give_seq.mpr ⟨g, first, a, second, rfl⟩

theorem Give.map {x : Fields α} {a : α} (given : x.Give a) (g : α → β) : (g <$> x).Give (g a) :=
  give_map.mpr ⟨a, given, rfl⟩

end Fields

namespace Json.Value

/-- The fields of a record that a value writes: by name, or in their order. -/
def fieldsUnder (names : List String) : Value → Object
  | .object members => members
  | .list items => names.zip items
  | .null | .bool _ | .number _ | .text _ => []

end Json.Value

namespace Record

variable {α : Type} {names : List String}

theorem nameEntries_ofMembers (members : Object) : nameEntries names (Node.ofMembers members) =
    (Entries.mapValues Node.ofValue members, false) := by
  induction members with
  | nil => rfl
  | cons member rest ih =>
    simp only [Node.ofMembers, nameEntries, keyName?, ih]
    rfl

/-- The entries of a record are what a value writes. -/
def Shows {n : Node} (r : Record n) (members : Object) : Prop :=
  r.entries = Entries.mapValues Node.ofValue members

/-- A record of an object that gives its fields is read. -/
theorem asRecord_object {members : Object}
    {fields : Record (Node.ofValue (.object members)) → Fields α} {a : α}
    (give : ∀ r, r.Shows members → (fields r).Give a) :
    (Node.ofValue (.object members)).asRecord names fields = .ok a := by
  let r : Record (Node.ofValue (.object members)) :=
    ofEntries names (Node.ofMembers members) fun _ he => Node.sizeOf_lt_of_entries rfl he
  have shown : r.Shows members := congrArg Prod.fst (nameEntries_ofMembers members)
  have whole : r.broken = false := congrArg Prod.snd (nameEntries_ofMembers members)
  have run : (Node.ofValue (.object members)).asRecord names fields = r.finish (fields r) := rfl
  rw [run, finish, give r shown]
  simp [whole]

theorem exists_of_asRecord {v : Value} {fields : Record (Node.ofValue v) → Fields α} {a : α}
    (success : (Node.ofValue v).asRecord names fields = .ok a) :
    ∃ r, r.Shows (v.fieldsUnder names) ∧ (fields r).Give a := by
  obtain ⟨r, opened, success⟩ := exists_of_bind_eq_ok success
  refine ⟨r, ?_, ?_⟩
  · cases v with
    | object members =>
      cases opened
      exact congrArg Prod.fst (nameEntries_ofMembers members)
    | list items =>
      cases opened
      simp [Shows, Value.fieldsUnder, Entries.mapValues, Node.ofItems_eq_map, List.zip_map_right]
    | _ => cases opened
  · unfold finish at success
    split at success
    next b given =>
      split at success
      · cases success
      · cases success
        exact given
    next => split at success <;> cases success

/-! A field is found by its name, and found once where no name comes twice. -/

theorem find?_eq_none {name : String} {es : List (String × Node)} :
    find? name es = none ↔ Entries.lookup name es = none := by
  induction es with
  | nil => simp [find?]
  | cons e rest ih =>
    obtain ⟨other, v⟩ := e
    by_cases same : other = name <;> simp [find?, same, ih]

theorem lookup_of_find? {name : String} {es : List (String × Node)}
    {found : { v : Node // ∃ e ∈ es, e.2 = v }} {i : Nat} {again : Option Nat}
    (search : find? name es = some (found, i, again)) :
    Entries.lookup name es = some found.1 := by
  induction es generalizing i again with
  | nil => cases search
  | cons e rest ih =>
    obtain ⟨other, v⟩ := e
    by_cases same : other = name
    · simp only [find?, same, if_true, Option.some.injEq, Prod.mk.injEq] at search
      simp [same, ← search.1]
    · simp only [find?, same, if_false, Option.map_eq_some_iff, Prod.mk.injEq] at search
      obtain ⟨⟨w, j, next⟩, later, rfl, -⟩ := search
      simp [same, ih later]

theorem again_eq_none {name : String} {es : List (String × Node)}
    (distinct : (Entries.keys es).Nodup) {found : { v : Node // ∃ e ∈ es, e.2 = v }} {i : Nat}
    {again : Option Nat} (search : find? name es = some (found, i, again)) : again = none := by
  induction es generalizing i again with
  | nil => cases search
  | cons e rest ih =>
    obtain ⟨other, v⟩ := e
    obtain ⟨fresh, distinct⟩ := List.nodup_cons.mp distinct
    by_cases same : other = name
    · simp only [find?, same, if_true, Option.some.injEq, Prod.mk.injEq] at search
      rw [← search.2.2, Option.map_eq_none_iff, List.findIdx?_eq_none_iff]
      intro e later
      have different : e.1 ≠ name := by
        rintro rfl
        exact fresh (same ▸ List.mem_map.mpr ⟨e, later, rfl⟩)
      simpa using different
    · simp only [find?, same, if_false, Option.map_eq_some_iff, Prod.mk.injEq] at search
      obtain ⟨⟨w, j, next⟩, later, -, -, rfl⟩ := search
      simp [ih distinct later]

variable {n : Node} {r : Record n} {members : Object} {name : String} {v : Value} {a : α}
  {read : (v : Node) → sizeOf v < sizeOf n → Reading α}

theorem lookup_entries (shown : r.Shows members) :
    Entries.lookup name r.entries = (Entries.lookup name members).map Node.ofValue := by
  rw [shown, Entries.lookup_mapValues]

theorem part?_give_none (shown : r.Shows members) (missing : Entries.lookup name members = none) :
    (r.part? name read).Give none := by
  have absent : find? name r.entries = none := by
    rw [find?_eq_none, lookup_entries shown, missing]
    rfl
  simp [Fields.Give, part?, absent]

theorem part?_give_some (shown : r.Shows members) (distinct : (Entries.keys members).Nodup)
    (written : Entries.lookup name members = some v)
    (back : ∀ smaller, read (Node.ofValue v) smaller = .ok a) :
    (r.part? name read).Give (some a) := by
  have stands : Entries.lookup name r.entries = some (Node.ofValue v) := by
    rw [lookup_entries shown, written]
    rfl
  have once : (Entries.keys r.entries).Nodup := by
    rw [shown, Entries.keys_mapValues]
    exact distinct
  cases search : find? name r.entries with
  | none =>
    rw [find?_eq_none.mp search] at stands
    cases stands
  | some result =>
    obtain ⟨⟨w, _⟩, i, again⟩ := result
    obtain rfl : w = Node.ofValue v :=
      Option.some.inj ((lookup_of_find? search).symm.trans stands)
    obtain rfl := again_eq_none once search
    simp [Fields.Give, part?, search, back]

/-- What a part gives is the default of a field that is missing, or is read from what is written. -/
theorem exists_of_part? (shown : r.Shows members) {found : Option α}
    (give : (r.part? name read).Give found) :
    (Entries.lookup name members = none ∧ found = none) ∨
      ∃ v smaller a, Entries.lookup name members = some v ∧
        read (Node.ofValue v) smaller = .ok a ∧ found = some a := by
  have stands : Entries.lookup name r.entries = (Entries.lookup name members).map Node.ofValue :=
    lookup_entries shown
  unfold Fields.Give part? at give
  split at give
  next search =>
    cases give
    rw [find?_eq_none.mp search] at stands
    exact .inl ⟨Option.map_eq_none_iff.mp stands.symm, rfl⟩
  next w _ i again search =>
    rw [lookup_of_find? search] at stands
    obtain ⟨v, written, rfl⟩ := Option.map_eq_some_iff.mp stands.symm
    split at give
    · cases give
    next a back =>
      split at give
      · cases give
        exact .inr ⟨v, _, a, written, back, rfl⟩
      · cases give

theorem requiredPart_give (shown : r.Shows members) (distinct : (Entries.keys members).Nodup)
    (written : Entries.lookup name members = some v)
    (back : ∀ smaller, read (Node.ofValue v) smaller = .ok a) :
    (r.requiredPart name read).Give a := by
  have part := part?_give_some shown distinct written back
  simp only [Fields.Give] at part
  simp [Fields.Give, requiredPart, part]

theorem exists_of_requiredPart (shown : r.Shows members)
    (give : (r.requiredPart name read).Give a) :
    ∃ v smaller, Entries.lookup name members = some v ∧ read (Node.ofValue v) smaller = .ok a := by
  unfold Fields.Give requiredPart at give
  split at give
  next b part =>
    cases give
    obtain ⟨-, missing⟩ | ⟨v, smaller, _, written, back, found⟩ := exists_of_part? shown part
    · cases missing
    · cases found
      exact ⟨v, smaller, written, back⟩
  · cases give
  · cases give

section Readers

variable {read : Node → Reading α} {default : α} {found : Option α}

theorem required_give (shown : r.Shows members) (distinct : (Entries.keys members).Nodup)
    (written : Entries.lookup name members = some v) (back : read (Node.ofValue v) = .ok a) :
    (r.required name read).Give a :=
  requiredPart_give shown distinct written fun _ => back

theorem orDefault_give_default (shown : r.Shows members)
    (missing : Entries.lookup name members = none) :
    (r.orDefault name default read).Give default :=
  Fields.give_map.mpr ⟨none, part?_give_none shown missing, rfl⟩

theorem orDefault_give (shown : r.Shows members) (distinct : (Entries.keys members).Nodup)
    (written : Entries.lookup name members = some v) (back : read (Node.ofValue v) = .ok a) :
    (r.orDefault name default read).Give a :=
  Fields.give_map.mpr ⟨some a, part?_give_some shown distinct written fun _ => back, rfl⟩

theorem text_give {s : String} (shown : r.Shows members) (distinct : (Entries.keys members).Nodup)
    (written : Entries.lookup name members = some (.text s)) : (r.text name).Give s :=
  orDefault_give shown distinct written rfl

theorem flag_give {b : Bool} (shown : r.Shows members) (distinct : (Entries.keys members).Nodup)
    (written : Entries.lookup name members = some (.bool b)) : (r.flag name).Give b :=
  orDefault_give shown distinct written rfl

theorem exists_of_orDefault (shown : r.Shows members)
    (give : (r.orDefault name default read).Give a) :
    (Entries.lookup name members = none ∧ a = default) ∨
      ∃ v, Entries.lookup name members = some v ∧ read (Node.ofValue v) = .ok a := by
  obtain ⟨found, part, rfl⟩ := Fields.give_map.mp give
  obtain ⟨missing, rfl⟩ | ⟨v, -, a, written, back, rfl⟩ := exists_of_part? shown part
  · exact .inl ⟨missing, rfl⟩
  · exact .inr ⟨v, written, back⟩

/-- A list that is left out where it is empty. -/
theorem list_give {items : List α} {write : α → Value} (shown : r.Shows members)
    (distinct : (Entries.keys members).Nodup)
    (written : Entries.lookup name members =
      if items.isEmpty then none else some (.list (items.map write)))
    (back : ∀ a ∈ items, read (Node.ofValue (write a)) = .ok a) :
    (r.orDefault name [] (Node.asListOf read)).Give items := by
  cases items with
  | nil => exact orDefault_give_default shown written
  | cons a rest => exact orDefault_give shown distinct written (Node.asListOf_map back)

theorem optional_give_none (shown : r.Shows members)
    (missing : Entries.lookup name members = none) : (r.optional name read).Give none :=
  Fields.give_map.mpr ⟨none, part?_give_none shown missing, rfl⟩

theorem optional_give_some (shown : r.Shows members) (distinct : (Entries.keys members).Nodup)
    (written : Entries.lookup name members = some v) (notNull : v ≠ .null)
    (back : read (Node.ofValue v) = .ok a) : (r.optional name read).Give (some a) := by
  have present : (Node.ofValue v).asOptional read = .ok (some a) := by
    rw [Node.asOptional_ofValue notNull, back]
    rfl
  exact Fields.give_map.mpr
    ⟨some (some a), part?_give_some shown distinct written fun _ => present, rfl⟩

/-- A part that is left out where there is none. -/
theorem optional_give {found : Option α} {write : α → Value} (shown : r.Shows members)
    (distinct : (Entries.keys members).Nodup)
    (written : Entries.lookup name members = found.map write) (notNull : ∀ a, write a ≠ .null)
    (back : ∀ a, found = some a → read (Node.ofValue (write a)) = .ok a) :
    (r.optional name read).Give found := by
  cases found with
  | none => exact optional_give_none shown written
  | some a => exact optional_give_some shown distinct written (notNull a) (back a rfl)

theorem optionalText_give {found : Option String} (shown : r.Shows members)
    (distinct : (Entries.keys members).Nodup)
    (written : Entries.lookup name members = found.map .text) :
    (r.optional name Node.asText).Give found :=
  optional_give shown distinct written (fun _ => nofun) fun _ _ => rfl

theorem texts_give {texts : List String} (shown : r.Shows members)
    (distinct : (Entries.keys members).Nodup)
    (written : Entries.lookup name members =
      if texts.isEmpty then none else some (Value.texts texts)) : (r.texts name).Give texts :=
  list_give shown distinct written fun _ _ => rfl

theorem values_give {values : List Value} (shown : r.Shows members)
    (distinct : (Entries.keys members).Nodup)
    (written : Entries.lookup name members = if values.isEmpty then none else some (.list values))
    (different : ∀ v ∈ values, v.Distinct) : (r.values name).Give values := by
  have items : values.map id = values := List.map_id values
  rw [← items] at written
  rw [List.isEmpty_map] at written
  exact list_give shown distinct written fun v member => Node.asValue_ofValue v (different v member)

/-- A map that is left out where it is empty. -/
theorem map_give {entries : Entries α} {write : α → Value} (shown : r.Shows members)
    (distinct : (Entries.keys members).Nodup)
    (written : Entries.lookup name members =
      if entries.isEmpty then none else some (.object (Entries.mapValues write entries)))
    (keys : (Entries.keys entries).Nodup)
    (back : ∀ key a, (key, a) ∈ entries → read (Node.ofValue (write a)) = .ok a) :
    (r.orDefault name [] (Node.asMapOf read)).Give entries := by
  cases entries with
  | nil => exact orDefault_give_default shown written
  | cons entry rest =>
    exact orDefault_give shown distinct written (Node.asMapOf_mapValues keys back)

/-- A value that is left out where there is none. -/
theorem value_give {found : Option Value} (shown : r.Shows members)
    (distinct : (Entries.keys members).Nodup) (written : Entries.lookup name members = found)
    (kept : Value.Kept found) : (r.optional name Node.asValue).Give found := by
  cases found with
  | none => exact optional_give_none shown written
  | some v =>
    obtain ⟨notNull, different⟩ := kept v rfl
    exact optional_give_some shown distinct written notNull (Node.asValue_ofValue v different)

theorem exists_of_optional (shown : r.Shows members)
    (give : (r.optional name read).Give (some a)) :
    ∃ v, Entries.lookup name members = some v ∧ v ≠ .null ∧ read (Node.ofValue v) = .ok a := by
  obtain ⟨found, part, joined⟩ := Fields.give_map.mp give
  obtain ⟨-, rfl⟩ | ⟨v, -, b, written, back, rfl⟩ := exists_of_part? shown part
  · cases joined
  obtain rfl : b = some a := joined
  by_cases null : v = .null
  · subst null
    cases back
  · rw [Node.asOptional_ofValue null] at back
    cases answer : read (Node.ofValue v) with
    | error e => rw [answer] at back; cases back
    | ok b =>
      rw [answer] at back
      cases back
      exact ⟨v, written, null, answer⟩

theorem exists_of_list {items : List α} (shown : r.Shows members)
    (give : (r.orDefault name [] (Node.asListOf read)).Give items) :
    ∀ a ∈ items, ∃ w, read (Node.ofValue w) = .ok a := by
  intro a member
  obtain ⟨-, rfl⟩ | ⟨u, -, found⟩ := exists_of_orDefault shown give
  · cases member
  obtain ⟨items, -, each⟩ := Node.exists_of_asListOf found
  obtain ⟨w, -, back⟩ := Pass.exists_of_mem_right each member
  exact ⟨w, back⟩

theorem exists_of_map {entries : Entries α} (shown : r.Shows members)
    (give : (r.orDefault name [] (Node.asMapOf read)).Give entries) :
    (Entries.keys entries).Nodup ∧
      ∀ key a, (key, a) ∈ entries → ∃ w, read (Node.ofValue w) = .ok a := by
  obtain ⟨-, rfl⟩ | ⟨u, -, found⟩ := exists_of_orDefault shown give
  · exact ⟨List.nodup_nil, fun _ _ => nofun⟩
  obtain ⟨_, -, distinct, each⟩ := Node.exists_of_asMapOf found
  refine ⟨distinct, fun key a member => ?_⟩
  obtain ⟨w, -, back⟩ := each key a member
  exact ⟨w, back⟩

theorem distinct_of_values {values : List Value} (shown : r.Shows members)
    (give : (r.values name).Give values) : ∀ v ∈ values, v.Distinct := by
  intro v member
  obtain ⟨w, read⟩ := exists_of_list shown give v member
  exact Node.distinct_of_asValue w read

theorem kept_of_value {found : Option Value} (shown : r.Shows members)
    (give : (r.optional name Node.asValue).Give found) : Value.Kept found := by
  rintro v rfl
  obtain ⟨u, -, notNull, read⟩ := exists_of_optional shown give
  refine ⟨?_, Node.distinct_of_asValue u read⟩
  rintro rfl
  exact notNull (Node.eq_null_of_asValue read)

end Readers

end Record

end ActionCatalogue
