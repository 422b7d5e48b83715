import Mathlib.Data.List.Induction
import ActionCatalogue.Build.Policy
import ActionCatalogue.Data.Entries

/-!
What a collision policy leaves of definitions that are put in one after the other. The names stand
in the order of their first definitions; under a name stands the last definition of it, or the
first one, as the policy says. A definition collides if its name occurs among those before it.
-/

namespace ActionCatalogue

variable {κ α β : Type}

/-! ### Elements and what stands before them -/

def earlierFrom (before : List α) : List α → List (List α × α)
  | [] => []
  | x :: rest => (before, x) :: earlierFrom (before ++ [x]) rest

/-- The elements of a list, each with those before it. -/
def withEarlier (xs : List α) : List (List α × α) := earlierFrom [] xs

theorem earlierFrom_append (before xs ys : List α) :
    earlierFrom before (xs ++ ys) = earlierFrom before xs ++ earlierFrom (before ++ xs) ys := by
  induction xs generalizing before with
  | nil => simp [earlierFrom]
  | cons x rest ih => simp [earlierFrom, ih]

@[simp] theorem withEarlier_concat (xs : List α) (x : α) :
    withEarlier (xs ++ [x]) = withEarlier xs ++ [(xs, x)] := by
  rw [withEarlier, earlierFrom_append]
  rfl

theorem mem_of_mem_earlierFrom {before earlier xs : List α} {x : α}
    (member : (earlier, x) ∈ earlierFrom before xs) : x ∈ xs := by
  induction xs generalizing before with
  | nil => cases member
  | cons y rest ih =>
    rcases List.mem_cons.mp member with first | later
    · cases first
      exact List.mem_cons_self
    · exact List.mem_cons_of_mem _ (ih later)

theorem not_mem_earlierFrom {name : α → κ} {before earlier xs : List α} {x : α}
    (distinct : ((before ++ xs).map name).Nodup) (member : (earlier, x) ∈ earlierFrom before xs) :
    name x ∉ earlier.map name := by
  induction xs generalizing before with
  | nil => cases member
  | cons y rest ih =>
    rcases List.mem_cons.mp member with first | later
    · cases first
      rw [List.map_append, List.map_cons] at distinct
      intro taken
      exact (List.nodup_append.mp distinct).2.2 _ taken _ List.mem_cons_self rfl
    · rw [List.append_cons] at distinct
      exact ih distinct later

/-- An element with a name of its own finds its name new. -/
theorem not_mem_earlier {name : α → κ} {earlier xs : List α} {x : α}
    (distinct : (xs.map name).Nodup) (member : (earlier, x) ∈ withEarlier xs) :
    name x ∉ earlier.map name := by
  have whole : (([] ++ xs).map name).Nodup := distinct
  exact not_mem_earlierFrom whole member

variable [DecidableEq κ]

theorem eraseDups_concat (names : List κ) (name : κ) :
    (names ++ [name]).eraseDups =
      if name ∈ names then names.eraseDups else names.eraseDups ++ [name] := by
  rw [List.eraseDups_append]
  by_cases taken : name ∈ names
  · simp [List.removeAll, taken]
  · simp [List.removeAll, taken, List.eraseDups_cons]

theorem nodup_eraseDups (names : List κ) : names.eraseDups.Nodup := by
  induction names using List.reverseRecOn with
  | nil => simp
  | append_singleton names name ih =>
    rw [eraseDups_concat]
    by_cases taken : name ∈ names
    · rw [if_pos taken]
      exact ih
    · rw [if_neg taken]
      exact List.nodup_append.mpr ⟨ih, by simp, by grind [List.mem_eraseDups]⟩

/-- The names that stand in a list before already, once for each time. -/
def repeated (names : List κ) : List κ :=
  (withEarlier names).filterMap fun (earlier, name) => if name ∈ earlier then some name else none

theorem repeated_concat (names : List κ) (name : κ) :
    repeated (names ++ [name]) =
      if name ∈ names then repeated names ++ [name] else repeated names := by
  rw [repeated, withEarlier_concat, List.filterMap_append]
  by_cases taken : name ∈ names
  · rw [if_pos taken]
    simp [repeated, taken]
  · rw [if_neg taken]
    simp [repeated, taken]

/-! ### Definitions under their names -/

namespace CollisionPolicy

open Entries

/-- The definition that is kept, among all those of one name in their order. -/
def winner? (policy : CollisionPolicy) (definitions : List α) : Option α :=
  match policy with
  | .overwrite => definitions.getLast?
  | .reject => definitions.head?

theorem mem_of_winner {policy : CollisionPolicy} {definitions : List α} {value : α}
    (kept : policy.winner? definitions = some value) : value ∈ definitions := by
  cases policy with
  | overwrite => exact List.mem_of_getLast? kept
  | reject => exact List.mem_of_head? kept

theorem winner_map (policy : CollisionPolicy) (f : α → β) (definitions : List α) :
    policy.winner? (definitions.map f) = (policy.winner? definitions).map f := by
  cases policy with
  | overwrite => exact List.getLast?_map
  | reject => exact List.head?_map

theorem winner_concat (policy : CollisionPolicy) (definitions : List α) (value : α) :
    policy.winner? (definitions ++ [value]) =
      if (policy.winner? definitions).isSome && policy = .reject then policy.winner? definitions
      else some value := by
  cases policy with
  | overwrite => simp [winner?]
  | reject => cases definitions <;> simp [winner?]

/-- Puts a definition in, unless its name is taken and the first definition stays. -/
def settle (policy : CollisionPolicy) (key : κ) (value : α) (entries : List (κ × α)) :
    List (κ × α) :=
  if has key entries && policy = .reject then entries else put key value entries

theorem settle_kept {policy : CollisionPolicy} {key : κ} {entries : List (κ × α)}
    (kept : ¬(key ∈ keys entries ∧ policy = .reject)) (value : α) :
    policy.settle key value entries = put key value entries := by
  apply if_neg
  simpa [has_eq] using kept

theorem settle_dropped {policy : CollisionPolicy} {key : κ} {entries : List (κ × α)}
    (dropped : key ∈ keys entries ∧ policy = .reject) (value : α) :
    policy.settle key value entries = entries := by
  apply if_pos
  simpa [has_eq] using dropped

theorem keys_settle (policy : CollisionPolicy) (key : κ) (value : α) (entries : List (κ × α)) :
    keys (policy.settle key value entries) =
      if key ∈ keys entries then keys entries else keys entries ++ [key] := by
  by_cases dropped : key ∈ keys entries ∧ policy = .reject
  · rw [settle_dropped dropped, if_pos dropped.1]
  · rw [settle_kept dropped, keys_put]

theorem lookup_settle_self (policy : CollisionPolicy) (key : κ) (value : α)
    (entries : List (κ × α)) : lookup key (policy.settle key value entries) =
      if has key entries && policy = .reject then lookup key entries else some value := by
  unfold settle
  by_cases stays : has key entries && policy = .reject
  · rw [if_pos stays, if_pos stays]
  · rw [if_neg stays, if_neg stays, lookup_put_self]

theorem lookup_settle_of_ne (policy : CollisionPolicy) {key other : κ} (different : other ≠ key)
    (value : α) (entries : List (κ × α)) :
    lookup other (policy.settle key value entries) = lookup other entries := by
  unfold settle
  split
  · rfl
  · exact lookup_put_of_ne different value entries

/-- What is left of definitions that are put in one after the other. -/
def collect (policy : CollisionPolicy) (definitions : List (κ × α)) : List (κ × α) :=
  definitions.foldl (fun entries pair => policy.settle pair.1 pair.2 entries) []

theorem collect_concat (policy : CollisionPolicy) (definitions : List (κ × α)) (key : κ)
    (value : α) : policy.collect (definitions ++ [(key, value)]) =
      policy.settle key value (policy.collect definitions) := by
  rw [collect, List.foldl_append]
  rfl

/-- Entries are put together as definitions are of which the last one counts. -/
theorem collect_overwrite (pairs : List (κ × α)) : overwrite.collect pairs = ofPairs pairs := by
  simp [collect, settle, ofPairs, putAll]

/-- The names stand in the order of their first definitions. -/
theorem keys_collect (policy : CollisionPolicy) (definitions : List (κ × α)) :
    keys (policy.collect definitions) = (keys definitions).eraseDups := by
  induction definitions using List.reverseRecOn with
  | nil => rfl
  | append_singleton definitions pair ih =>
    obtain ⟨key, value⟩ := pair
    rw [collect_concat, keys_settle, ih, keys_concat, eraseDups_concat]
    simp only [List.mem_eraseDups]

theorem keys_ofPairs (pairs : List (κ × α)) : keys (ofPairs pairs) = (keys pairs).eraseDups := by
  rw [← collect_overwrite, keys_collect]

theorem nodup_keys_collect (policy : CollisionPolicy) (definitions : List (κ × α)) :
    (keys (policy.collect definitions)).Nodup := by
  rw [keys_collect]
  exact nodup_eraseDups _

theorem mem_keys_collect (policy : CollisionPolicy) (definitions : List (κ × α)) (key : κ) :
    key ∈ keys (policy.collect definitions) ↔ key ∈ keys definitions := by
  rw [keys_collect, List.mem_eraseDups]

/-- Definitions of different names are all kept, whatever the policy. -/
theorem collect_of_nodup (policy : CollisionPolicy) {definitions : List (κ × α)}
    (distinct : (keys definitions).Nodup) : policy.collect definitions = definitions := by
  induction definitions using List.reverseRecOn with
  | nil => rfl
  | append_singleton definitions pair ih =>
    obtain ⟨key, value⟩ := pair
    rw [keys_concat] at distinct
    obtain ⟨before, -, apart⟩ := List.nodup_append.mp distinct
    have fresh : key ∉ keys definitions :=
      fun taken => apart key taken key (List.mem_singleton_self key) rfl
    rw [collect_concat, ih before, settle_kept (fun taken => fresh taken.1), put_of_fresh fresh]

theorem mem_of_mem_collect {policy : CollisionPolicy} {definitions : List (κ × α)}
    {pair : κ × α} (member : pair ∈ policy.collect definitions) : pair ∈ definitions := by
  induction definitions using List.reverseRecOn with
  | nil => exact member
  | append_singleton definitions last ih =>
    rw [collect_concat, settle] at member
    split at member
    · exact List.mem_append_left _ (ih member)
    · rcases mem_put member with new | old
      · exact List.mem_append_right _ (List.mem_singleton.mpr new)
      · exact List.mem_append_left _ (ih old)

/-- Under a name stands the definition that wins among those of the name. -/
theorem lookup_collect (policy : CollisionPolicy) (definitions : List (κ × α)) (key : κ) :
    lookup key (policy.collect definitions) =
      policy.winner? (values (definitions.filter (·.1 = key))) := by
  induction definitions using List.reverseRecOn with
  | nil => cases policy <;> rfl
  | append_singleton definitions pair ih =>
    obtain ⟨other, value⟩ := pair
    rw [collect_concat, List.filter_append]
    by_cases same : other = key
    · subst same
      have one : [(other, value)].filter (·.1 = other) = [(other, value)] := by simp
      rw [lookup_settle_self, has, ih, one, values_concat]
      exact (winner_concat policy _ value).symm
    · have none : [(other, value)].filter (·.1 = key) = [] := by simp [same]
      rw [lookup_settle_of_ne policy (Ne.symm same), ih, none, List.append_nil]

theorem winner_of_mem_collect {policy : CollisionPolicy} {definitions : List (κ × α)} {key : κ}
    {value : α} (member : (key, value) ∈ policy.collect definitions) :
    policy.winner? (values (definitions.filter (·.1 = key))) = some value := by
  rw [← lookup_collect]
  exact lookup_of_mem (nodup_keys_collect policy definitions) member

/-! ### Definitions that give their own names -/

/-- Gives each element its name, and the value it defines. -/
def defining (name : α → κ) (value : α → β) (xs : List α) : List (κ × β) :=
  xs.map fun x => (name x, value x)

omit [DecidableEq κ] in
theorem keys_defining (name : α → κ) (value : α → β) (xs : List α) :
    keys (defining name value xs) = xs.map name := by
  simp [keys, defining]

theorem collect_defining_concat (policy : CollisionPolicy) (name : α → κ) (value : α → β)
    (xs : List α) (x : α) : policy.collect (defining name value (xs ++ [x])) =
      policy.settle (name x) (value x) (policy.collect (defining name value xs)) := by
  rw [defining, List.map_append]
  exact collect_concat policy _ (name x) (value x)

/-- What is left under a name is defined by the element that wins among those of the name. -/
theorem exists_of_mem_collect_defining {policy : CollisionPolicy} {name : α → κ} {value : α → β}
    {xs : List α} {key : κ} {left : β}
    (member : (key, left) ∈ policy.collect (defining name value xs)) :
    ∃ x, policy.winner? (xs.filter (name · = key)) = some x ∧ value x = left ∧ name x = key := by
  have won := winner_of_mem_collect member
  have named : values ((defining name value xs).filter (·.1 = key)) =
      (xs.filter (name · = key)).map value := by
    rw [values, defining, List.filter_map, List.map_map]
    rfl
  rw [named, winner_map] at won
  obtain ⟨x, kept, defined⟩ := Option.map_eq_some_iff.mp won
  refine ⟨x, kept, defined, ?_⟩
  have among := List.mem_filter.mp (mem_of_winner kept)
  exact of_decide_eq_true among.2

end CollisionPolicy

end ActionCatalogue
