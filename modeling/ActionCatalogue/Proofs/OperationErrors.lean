import ActionCatalogue.Proofs.ConversionSteps
import ActionCatalogue.Swagger.Derivation

/-!
What can go wrong with one operation. A conversion fails only where a reference leads nowhere, and a
description of an operation only there or where its data is refused. So none of its errors reads
like that of a name that is taken.
-/

namespace ActionCatalogue

/-- A computation all of whose errors have a property. -/
def FailsOnly {ε α : Type} (P : ε → Prop) (x : Except ε α) : Prop := ∀ e, x = .error e → P e

namespace FailsOnly

variable {ε α β : Type} {P Q : ε → Prop} {x : Except ε α}

theorem ok (a : α) : FailsOnly P (.ok a) := by
  intro e fails
  cases fails

theorem error {e : ε} (holds : P e) : FailsOnly P (.error e : Except ε α) := by
  intro other fails
  cases fails
  exact holds

theorem mono (weaker : ∀ e, P e → Q e) (fails : FailsOnly P x) : FailsOnly Q x :=
  fun e failed => weaker e (fails e failed)

theorem bind {f : α → Except ε β} (first : FailsOnly P x) (next : ∀ a, FailsOnly P (f a)) :
    FailsOnly P (x >>= f) := by
  cases x with
  | error e => exact error (first e rfl)
  | ok a => exact next a

theorem map {f : α → β} (fails : FailsOnly P x) : FailsOnly P (f <$> x) := by
  rw [map_eq_pure_bind]
  exact bind fails fun _ => ok _

theorem mapM {f : β → Except ε α} {items : List β} (each : ∀ b ∈ items, FailsOnly P (f b)) :
    FailsOnly P (items.mapM f) := by
  induction items with
  | nil => exact ok []
  | cons item rest ih =>
    have later := ih fun b member => each b (List.mem_cons_of_mem _ member)
    rw [List.mapM_cons]
    exact bind (each item List.mem_cons_self) fun _ => bind later fun _ => ok _

theorem foldlM {f : α → β → Except ε α} (step : ∀ a b, FailsOnly P (f a b)) (items : List β)
    (a : α) : FailsOnly P (items.foldlM f a) := by
  induction items generalizing a with
  | nil => exact ok a
  | cons item rest ih =>
    rw [List.foldlM_cons]
    exact bind (step a item) ih

end FailsOnly

namespace Swagger

open FailsOnly

/-! ### References -/

def Unresolved (e : SwaggerError) : Prop := ∃ reason, e = .unresolved reason

theorem nameIn_fails (sectionName reference : String) :
    FailsOnly Unresolved (Pointer.nameIn sectionName reference) := by
  unfold Pointer.nameIn
  split
  · dsimp only
    split
    · exact error ⟨_, rfl⟩
    · split
      · split
        · exact error ⟨_, rfl⟩
        · exact ok _
      · exact error ⟨_, rfl⟩
  · exact error ⟨_, rfl⟩

namespace Document

variable {α : Type}

theorem lookupIn_fails (sectionName : String) (entries : Entries α) (reference : String) :
    FailsOnly Unresolved (lookupIn sectionName entries reference) := by
  have named := nameIn_fails sectionName reference
  unfold lookupIn
  split
  next e fails => exact error (named e fails)
  next =>
    split
    · exact ok _
    · exact error ⟨_, rfl⟩

theorem resolve_fails (sectionName : String) (entries : Entries α) (shared : Shared α) :
    FailsOnly Unresolved (resolve sectionName entries shared) := by
  cases shared with
  | inline a => exact ok a
  | pointer reference =>
    have found := lookupIn_fails sectionName entries reference
    rw [resolve]
    split
    · exact ok _
    next e fails => exact error (found e fails)

end Document

/-! ### Conversions -/

variable {P : SwaggerError → Prop}

namespace Schema

variable {convert : Schema → Except SwaggerError TypeDescription} {s : Schema}

theorem partsWith_fails {parts : List Schema} (each : ∀ part ∈ parts, FailsOnly P (convert part))
    (merged : Entries FieldDescription) : FailsOnly P (partsWith convert merged parts) := by
  induction parts generalizing merged with
  | nil => exact ok _
  | cons part rest ih =>
    have later := ih fun p member => each p (List.mem_cons_of_mem _ member)
    rw [partsWith]
    refine bind (each part List.mem_cons_self) fun description => ?_
    cases description with
    | fields fields => exact later _
    | named name =>
      dsimp only
      split
      · exact later merged
      · exact ok _
    | list items => exact ok _

/-- A description from descriptions fails only as one of those does. -/
theorem describeWith_fails (below : ∀ t, s.Below t → FailsOnly P (convert t)) :
    FailsOnly P (s.describeWith convert) := by
  have fields : FailsOnly P (fieldsWith convert s.required s.properties) :=
    mapM fun property member => bind (below property.2 (.property member)) fun _ => ok _
  have parts : FailsOnly P (partsWith convert [] s.allOf) :=
    partsWith_fails (fun part member => below part (.part member)) []
  have plain : FailsOnly P (plainWith convert s) := by
    unfold plainWith
    split
    · exact map fields
    · split
      · exact ok _
      · exact map fields
    · split
      next items has => exact map (below items (.items has))
      next => exact ok _
    · exact ok _
  unfold describeWith compositeWith
  split
  · exact map plain
  · refine bind parts fun merged => ?_
    cases merged with
    | none => exact ok _
    | some merged => exact bind fields fun _ => ok _

end Schema

/-- A conversion fails only as the references to definitions do. -/
theorem Document.convert_fails {d : Document}
    (resolving : ∀ reference, FailsOnly P (d.definition reference))
    (active : List String) (s : Schema) : FailsOnly P (d.convert active s) := by
  induction active, s using Document.conversion (d := d) with
  | unresolved active s reference e isReference unresolved =>
    rw [convert_unresolved isReference unresolved]
    exact error (resolving reference e unresolved)
  | cut active s reference name target isReference resolved isActive =>
    rw [convert_active isReference resolved isActive]
    exact ok _
  | opened active s reference name target isReference resolved fresh ih =>
    rw [convert_fresh isReference resolved fresh]
    exact bind ih fun _ => ok _
  | node active s noReference ih =>
    rw [convert_node noReference]
    exact Schema.describeWith_fails ih

/-! ### Operations -/

/-- The errors of one operation: a reference that leads nowhere, or data that is refused. -/
inductive OfOperation : SwaggerError → Prop
  | unresolved (reason : String) : OfOperation (.unresolved reason)
  | data (error : DataError) : OfOperation (.data error)

theorem Unresolved.ofOperation (e : SwaggerError) (unresolved : Unresolved e) : OfOperation e := by
  obtain ⟨reason, rfl⟩ := unresolved
  exact .unresolved reason

variable (d : Document) (n : Normalizer)

theorem typeOf_fails (s : Schema) : FailsOnly OfOperation (d.typeOf s) :=
  Document.convert_fails
    (fun reference => (Document.lookupIn_fails _ _ reference).mono Unresolved.ofOperation) [] s

theorem ofData_fails {α : Type} (x : Except DataError α) : FailsOnly OfOperation (ofData x) := by
  cases x with
  | ok a => exact ok a
  | error e => exact error (.data e)

theorem parameterField_fails (p : Parameter) (required : Bool) :
    FailsOnly OfOperation (parameterField d p required) :=
  bind (bind (typeOf_fails d p.valueSchema) fun _ => ok _) fun _ => ok _

theorem add_fails (inputs : Inputs) (p : Parameter) :
    FailsOnly OfOperation (inputs.add d p) := by
  unfold Inputs.add
  split
  · exact ok _
  · have fields : FailsOnly OfOperation (d.objectFields p.valueSchema) := by
      refine bind (typeOf_fails d p.valueSchema) fun description => ?_
      cases description <;> exact ok _
    refine bind fields fun fields => ?_
    cases fields with
    | some fields => exact ok _
    | none => exact bind (parameterField_fails d p p.required) fun _ => ok _
  · exact bind (parameterField_fails d p true) fun _ => ok _
  all_goals exact bind (parameterField_fails d p p.required) fun _ => ok _

theorem responseType_fails (op : Operation) :
    FailsOnly OfOperation (responseType d n op) := by
  unfold responseType
  split
  · exact ok _
  next shared _ =>
    have resolved := (Document.resolve_fails "responses" d.responses shared).mono
      Unresolved.ofOperation
    refine bind resolved fun response => ?_
    cases response.schema with
    | none => exact ok _
    | some s => exact bind (typeOf_fails d s) fun _ => bind (ofData_fails _) fun _ => ok _

theorem describe_fails (e : Endpoint) : FailsOnly OfOperation (describe d n e) := by
  have parameters : FailsOnly OfOperation (parametersOf d e) := by
    have each : ∀ p, FailsOnly OfOperation (d.parameter p) := fun p =>
      (Document.resolve_fails "parameters" d.parameters p).mono Unresolved.ofOperation
    exact bind (mapM fun p _ => each p) fun _ => ok _
  refine bind parameters fun parameters => ?_
  refine bind (foldlM (add_fails d) parameters {}) fun inputs => ?_
  refine bind (ofData_fails _) fun options => ?_
  exact bind (responseType_fails d (n.within _) e.operation) fun _ => ok _

/-! ### What errors say -/

def Begins (c : Char) (s : String) : Prop := s.toList.head? = some c

namespace Begins

variable {c other : Char} {s : String}

theorem head (first : s.toList.head? = some c) : Begins c s := first

theorem append (begins : Begins c s) (t : String) : Begins c (s ++ t) := by
  unfold Begins at *
  rw [String.toList_append, List.head?_append, begins]
  rfl

theorem unique (begins : Begins c s) (again : Begins other s) : c = other :=
  Option.some.inj (begins.symm.trans again)

end Begins

open Begins in
theorem message_begins (error : DataError) : ∃ c, Begins c error.message ∧ c ≠ 'd' := by
  cases error with
  | unknownType name path =>
    exact ⟨'u', append (append (append (append (head (by decide)) _) _) _) _, by decide⟩
  | invalidType path reason =>
    exact ⟨'i', append (append (append (head (by decide)) _) _) _, by decide⟩
  | unresolved reason => exact ⟨'s', append (head (by decide)) _, by decide⟩
  | notFound what => exact ⟨'n', append (head (by decide)) _, by decide⟩
  | conflict what => exact ⟨'c', append (head (by decide)) _, by decide⟩
  | invalid reason => exact ⟨'i', append (head (by decide)) _, by decide⟩
  | unreadable reason => exact ⟨'s', append (head (by decide)) _, by decide⟩

/-- No error of an operation reads like that of a name that is taken. -/
theorem OfOperation.message_ne {e : SwaggerError} (ofOperation : OfOperation e) (name : String) :
    e.message ≠ Skipped.duplicateReason name := by
  have taken : Begins 'd' (Skipped.duplicateReason name) :=
    .append (.append (.head (by decide)) _) _
  have begins : ∃ c, Begins c e.message ∧ c ≠ 'd' := by
    cases ofOperation with
    | unresolved reason => exact ⟨'s', .append (.head (by decide)) _, by decide⟩
    | data error => exact message_begins error
  obtain ⟨c, begins, different⟩ := begins
  intro same
  rw [same] at begins
  exact different (begins.unique taken)

end Swagger

end ActionCatalogue
