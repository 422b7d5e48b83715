/-!
Ordered entries: keys with their values, in the order in which the keys were first put in. Putting a
key in again keeps its place and replaces its value. Looking up after a put is looking up in a
function with one point changed, and the keys stay distinct. Entries with different keys are put
together as they are.
-/

namespace ActionCatalogue

abbrev Entries (α : Type) := List (String × α)

namespace Entries

variable {κ α β : Type}

def keys (entries : List (κ × α)) : List κ :=
  entries.map Prod.fst

def values (entries : List (κ × α)) : List α :=
  entries.map Prod.snd

theorem length_keys (entries : List (κ × α)) : (keys entries).length = entries.length :=
  List.length_map _

theorem keys_append (first second : List (κ × α)) :
    keys (first ++ second) = keys first ++ keys second :=
  List.map_append

theorem keys_concat (entries : List (κ × α)) (key : κ) (value : α) :
    keys (entries ++ [(key, value)]) = keys entries ++ [key] := by
  simp [keys]

theorem values_concat (entries : List (κ × α)) (key : κ) (value : α) :
    values (entries ++ [(key, value)]) = values entries ++ [value] := by
  simp [values]

theorem keys_filter (keep : κ → Bool) (entries : List (κ × α)) :
    keys (entries.filter fun entry => keep entry.1) = (keys entries).filter keep := by
  simp [keys, List.filter_map, Function.comp_def]

theorem mem_values {entries : List (κ × α)} {value : α} :
    value ∈ values entries ↔ ∃ key, (key, value) ∈ entries := by
  simp [values]

def mapValues (f : α → β) (entries : List (κ × α)) : List (κ × β) :=
  entries.map fun entry => (entry.1, f entry.2)

theorem keys_mapValues (f : α → β) (entries : List (κ × α)) :
    keys (mapValues f entries) = keys entries := by
  simp [keys, mapValues]

theorem values_mapValues (f : α → β) (entries : List (κ × α)) :
    values (mapValues f entries) = (values entries).map f := by
  simp [values, mapValues]

@[simp] theorem isEmpty_mapValues (f : α → β) (entries : List (κ × α)) :
    (mapValues f entries).isEmpty = entries.isEmpty := by
  simp [mapValues]

variable [DecidableEq κ]

/-- The value of the first entry with a key. -/
def lookup (key : κ) : List (κ × α) → Option α
  | [] => none
  | (k, v) :: rest => if k = key then some v else lookup key rest

def has (key : κ) (entries : List (κ × α)) : Bool :=
  (lookup key entries).isSome

/-- Sets the value of a key: in its place if it is there, else at the end. -/
def put (key : κ) (value : α) : List (κ × α) → List (κ × α)
  | [] => [(key, value)]
  | (k, v) :: rest => if k = key then (k, value) :: rest else (k, v) :: put key value rest

def putAll (entries : List (κ × α)) (pairs : List (κ × α)) : List (κ × α) :=
  pairs.foldl (fun es pair => put pair.1 pair.2 es) entries

def ofPairs (pairs : List (κ × α)) : List (κ × α) :=
  putAll [] pairs

@[simp] theorem lookup_nil (key : κ) : lookup key ([] : List (κ × α)) = none := rfl

@[simp] theorem lookup_cons (key other : κ) (value : α) (entries : List (κ × α)) :
    lookup key ((other, value) :: entries) =
      if other = key then some value else lookup key entries :=
  rfl

@[simp] theorem lookup_append (key : κ) (first second : List (κ × α)) :
    lookup key (first ++ second) = (lookup key first).or (lookup key second) := by
  induction first with
  | nil => simp
  | cons entry rest ih =>
    obtain ⟨other, value⟩ := entry
    by_cases same : other = key <;> simp [same, ih]

theorem lookup_mapValues (f : α → β) (key : κ) (entries : List (κ × α)) :
    lookup key (mapValues f entries) = (lookup key entries).map f := by
  induction entries with
  | nil => rfl
  | cons entry rest ih =>
    obtain ⟨other, value⟩ := entry
    simp only [mapValues] at ih
    by_cases same : other = key <;> simp [mapValues, same, ih]

theorem lookup_put_self (key : κ) (value : α) (entries : List (κ × α)) :
    lookup key (put key value entries) = some value := by
  induction entries with
  | nil => simp [put]
  | cons entry rest ih =>
      obtain ⟨k, v⟩ := entry
      by_cases h : k = key <;> simp [put, h, ih]

theorem lookup_put_of_ne {key other : κ} (h : other ≠ key) (value : α)
    (entries : List (κ × α)) : lookup other (put key value entries) = lookup other entries := by
  induction entries with
  | nil => simp [put, lookup, Ne.symm h]
  | cons entry rest ih =>
      obtain ⟨k, v⟩ := entry
      by_cases hk : k = key
      · simp [put, lookup, hk, Ne.symm h]
      · simp only [put, lookup, if_neg hk, ih]

theorem lookup_eq_none_iff {key : κ} {entries : List (κ × α)} :
    lookup key entries = none ↔ key ∉ keys entries := by
  induction entries with
  | nil => simp [lookup, keys]
  | cons entry rest ih =>
      obtain ⟨k, v⟩ := entry
      by_cases h : k = key
      · simp [lookup, keys, h]
      · simp only [keys] at ih
        simp [lookup, keys, h, ih, Ne.symm h]

theorem lookup_reverse_eq_none_iff {key : κ} {entries : List (κ × α)} :
    lookup key entries.reverse = none ↔ key ∉ keys entries := by
  rw [lookup_eq_none_iff, keys, List.map_reverse, List.mem_reverse, keys]

theorem has_eq (key : κ) (entries : List (κ × α)) :
    has key entries = decide (key ∈ keys entries) := by
  rw [has, Bool.eq_iff_iff, Option.isSome_iff_ne_none, Ne, lookup_eq_none_iff]
  simp

theorem mem_of_lookup {key : κ} {value : α} {entries : List (κ × α)}
    (found : lookup key entries = some value) : (key, value) ∈ entries := by
  induction entries with
  | nil => cases found
  | cons entry rest ih =>
      obtain ⟨k, v⟩ := entry
      by_cases h : k = key
      · rw [lookup, if_pos h, Option.some.injEq] at found
        rw [h, found]
        exact List.mem_cons_self
      · rw [lookup, if_neg h] at found
        exact List.mem_cons_of_mem _ (ih found)

theorem lookup_of_mem {key : κ} {value : α} {entries : List (κ × α)}
    (distinct : (keys entries).Nodup) (member : (key, value) ∈ entries) :
    lookup key entries = some value := by
  induction entries with
  | nil => cases member
  | cons entry rest ih =>
    obtain ⟨other, old⟩ := entry
    obtain ⟨fresh, distinct⟩ := List.nodup_cons.mp distinct
    rcases List.mem_cons.mp member with first | later
    · cases first
      exact if_pos rfl
    · have different : other ≠ key := by
        rintro rfl
        exact fresh (List.mem_map.mpr ⟨_, later, rfl⟩)
      exact (if_neg different).trans (ih distinct later)

/-- The order of entries with different keys makes no difference to what is looked up. -/
theorem lookup_perm {first second : List (κ × α)} (same : first.Perm second)
    (distinct : (keys first).Nodup) (key : κ) : lookup key first = lookup key second := by
  have sameKeys : (keys first).Perm (keys second) := same.map Prod.fst
  cases found : lookup key first with
  | some value =>
    have member := same.mem_iff.mp (mem_of_lookup found)
    exact (lookup_of_mem (sameKeys.nodup_iff.mp distinct) member).symm
  | none =>
    have missing := lookup_eq_none_iff.mp found
    exact (lookup_eq_none_iff.mpr fun taken => missing (sameKeys.mem_iff.mpr taken)).symm

theorem keys_put (key : κ) (value : α) (entries : List (κ × α)) :
    keys (put key value entries) =
      if key ∈ keys entries then keys entries else keys entries ++ [key] := by
  induction entries with
  | nil => simp [put, keys]
  | cons entry rest ih =>
      obtain ⟨k, v⟩ := entry
      by_cases h : k = key
      · simp [put, keys, h]
      · simp only [keys] at ih
        by_cases hm : key ∈ List.map Prod.fst rest <;> simp [put, keys, h, ih, hm, Ne.symm h]

theorem length_put (key : κ) (value : α) (entries : List (κ × α)) :
    (put key value entries).length =
      if key ∈ keys entries then entries.length else entries.length + 1 := by
  rw [← length_keys, keys_put]
  split
  · rw [length_keys]
  · rw [List.length_append, length_keys, List.length_singleton]

theorem mem_put {key : κ} {value : α} {entries : List (κ × α)} {pair : κ × α}
    (member : pair ∈ put key value entries) : pair = (key, value) ∨ pair ∈ entries := by
  induction entries with
  | nil => exact .inl (List.mem_singleton.mp member)
  | cons entry rest ih =>
    obtain ⟨other, old⟩ := entry
    unfold put at member
    split at member
    next same =>
      rcases List.mem_cons.mp member with first | later
      · exact .inl (first.trans (by rw [same]))
      · exact .inr (List.mem_cons_of_mem _ later)
    next =>
      rcases List.mem_cons.mp member with first | later
      · exact .inr (first ▸ List.mem_cons_self)
      · exact (ih later).imp_right (List.mem_cons_of_mem _)

theorem forall_put {P : κ × α → Prop} {entries : List (κ × α)} (each : ∀ entry ∈ entries, P entry)
    {key : κ} {value : α} (own : P (key, value)) : ∀ entry ∈ put key value entries, P entry := by
  intro entry member
  rcases mem_put member with rfl | old
  · exact own
  · exact each entry old

theorem nodup_keys_put {entries : List (κ × α)} (h : (keys entries).Nodup) (key : κ)
    (value : α) : (keys (put key value entries)).Nodup := by
  rw [keys_put]
  split
  · exact h
  · rename_i hk
    rw [List.nodup_append]
    exact ⟨h, by simp, fun a ha b hb hab => hk (by simp_all)⟩

theorem putAll_append (entries first second : List (κ × α)) :
    putAll entries (first ++ second) = putAll (putAll entries first) second :=
  List.foldl_append

theorem lookup_putAll_of_fresh {key : κ} {pairs : List (κ × α)} (fresh : key ∉ keys pairs)
    (entries : List (κ × α)) : lookup key (putAll entries pairs) = lookup key entries := by
  induction pairs generalizing entries with
  | nil => rfl
  | cons pair rest ih =>
    obtain ⟨other, value⟩ := pair
    simp only [keys, List.map_cons, List.mem_cons, not_or] at fresh ih
    have step : putAll entries ((other, value) :: rest) = putAll (put other value entries) rest :=
      rfl
    rw [step, ih fresh.2, lookup_put_of_ne fresh.1]

/-- What is put in last counts, and what was there before only if nothing is put in. -/
theorem lookup_putAll (key : κ) (entries pairs : List (κ × α)) :
    lookup key (putAll entries pairs) = (lookup key pairs.reverse).or (lookup key entries) := by
  induction pairs generalizing entries with
  | nil => rfl
  | cons pair rest ih =>
    obtain ⟨other, value⟩ := pair
    have step : putAll entries ((other, value) :: rest) = putAll (put other value entries) rest :=
      rfl
    rw [step, ih, List.reverse_cons, lookup_append, Option.or_assoc]
    by_cases same : key = other
    · rw [same, lookup_put_self, lookup_cons, if_pos rfl, Option.some_or]
    · rw [lookup_put_of_ne same, lookup_cons, if_neg (Ne.symm same), lookup_nil, Option.none_or]

theorem lookup_ofPairs (key : κ) (pairs : List (κ × α)) :
    lookup key (ofPairs pairs) = lookup key pairs.reverse := by
  rw [ofPairs, lookup_putAll, lookup_nil, Option.or_none]

/-- The last of several pairs with a key gives its value. -/
theorem lookup_ofPairs_last {pair : κ × α} {later : List (κ × α)} (fresh : pair.1 ∉ keys later)
    (earlier : List (κ × α)) :
    lookup pair.1 (ofPairs (earlier ++ pair :: later)) = some pair.2 := by
  have step : ofPairs (earlier ++ pair :: later) =
      putAll (put pair.1 pair.2 (ofPairs earlier)) later := putAll_append [] earlier (pair :: later)
  rw [step, lookup_putAll_of_fresh fresh, lookup_put_self]

theorem nodup_keys_putAll {entries : List (κ × α)} (h : (keys entries).Nodup)
    (pairs : List (κ × α)) : (keys (putAll entries pairs)).Nodup := by
  induction pairs generalizing entries with
  | nil => exact h
  | cons pair rest ih => exact ih (nodup_keys_put h pair.1 pair.2)

theorem nodup_keys_ofPairs (pairs : List (κ × α)) : (keys (ofPairs pairs)).Nodup :=
  nodup_keys_putAll (by simp [keys]) pairs

theorem mapValues_put (f : α → β) (key : κ) (value : α) (entries : List (κ × α)) :
    mapValues f (put key value entries) = put key (f value) (mapValues f entries) := by
  induction entries with
  | nil => rfl
  | cons entry rest ih =>
    obtain ⟨other, old⟩ := entry
    simp only [mapValues] at ih
    by_cases same : other = key <;> simp [put, mapValues, same, ih]

theorem mapValues_putAll (f : α → β) (entries pairs : List (κ × α)) :
    mapValues f (putAll entries pairs) = putAll (mapValues f entries) (mapValues f pairs) := by
  induction pairs generalizing entries with
  | nil => rfl
  | cons pair rest ih =>
    have step : putAll entries (pair :: rest) = putAll (put pair.1 pair.2 entries) rest := rfl
    rw [step, ih, mapValues_put]
    rfl

theorem put_of_fresh {key : κ} {entries : List (κ × α)} (fresh : key ∉ keys entries) (value : α) :
    put key value entries = entries ++ [(key, value)] := by
  induction entries with
  | nil => rfl
  | cons entry rest ih =>
    obtain ⟨other, old⟩ := entry
    simp only [keys, List.map_cons, List.mem_cons, not_or] at fresh ih
    simp [put, Ne.symm fresh.1, ih fresh.2]

theorem putAll_of_nodup {entries pairs : List (κ × α)}
    (distinct : (keys (entries ++ pairs)).Nodup) : putAll entries pairs = entries ++ pairs := by
  induction pairs generalizing entries with
  | nil => simp [putAll]
  | cons pair rest ih =>
    obtain ⟨key, value⟩ := pair
    have fresh : key ∉ keys entries := by
      simp only [keys, List.map_append, List.map_cons] at distinct
      intro taken
      exact (List.nodup_append.mp distinct).2.2 key taken key List.mem_cons_self rfl
    have step : putAll entries ((key, value) :: rest) = putAll (put key value entries) rest := rfl
    rw [step, put_of_fresh fresh, ih (by simpa using distinct)]
    simp

theorem filter_put (keep : κ → Bool) (key : κ) (value : α) (entries : List (κ × α)) :
    (put key value entries).filter (fun entry => keep entry.1) =
      if keep key then put key value (entries.filter fun entry => keep entry.1)
      else entries.filter fun entry => keep entry.1 := by
  induction entries with
  | nil => cases kept : keep key <;> simp [put, kept]
  | cons entry rest ih =>
    obtain ⟨other, old⟩ := entry
    by_cases same : other = key
    · cases kept : keep key <;> simp [put, same, kept]
    · cases kept : keep other <;> cases own : keep key <;> simp_all [put]

theorem filter_putAll (keep : κ → Bool) (entries pairs : List (κ × α)) :
    (putAll entries pairs).filter (fun entry => keep entry.1) =
      putAll (entries.filter fun entry => keep entry.1)
        (pairs.filter fun entry => keep entry.1) := by
  induction pairs generalizing entries with
  | nil => rfl
  | cons pair rest ih =>
    have step : putAll entries (pair :: rest) = putAll (put pair.1 pair.2 entries) rest := rfl
    rw [step, ih, filter_put]
    cases kept : keep pair.1 <;> simp [kept, putAll]

/-- Keys can be left out before entries are put together or afterwards. -/
theorem filter_ofPairs (keep : κ → Bool) (pairs : List (κ × α)) :
    (ofPairs pairs).filter (fun entry => keep entry.1) =
      ofPairs (pairs.filter fun entry => keep entry.1) :=
  filter_putAll keep [] pairs

/-- Entries with different keys are put together as they are. -/
theorem ofPairs_of_nodup {pairs : List (κ × α)} (distinct : (keys pairs).Nodup) :
    ofPairs pairs = pairs :=
  putAll_of_nodup distinct

/-! Keys that are renamed apart. -/

section Rename

variable {ι : Type} [DecidableEq ι] {rename : κ → ι}

def mapKeys (rename : κ → ι) (entries : List (κ × α)) : List (ι × α) :=
  entries.map fun entry => (rename entry.1, entry.2)

theorem put_mapKeys (apart : Function.Injective rename) (key : κ) (value : α)
    (entries : List (κ × α)) :
    put (rename key) value (mapKeys rename entries) = mapKeys rename (put key value entries) := by
  induction entries with
  | nil => rfl
  | cons entry rest ih =>
    obtain ⟨other, old⟩ := entry
    simp only [mapKeys] at ih
    by_cases same : other = key
    · simp [put, mapKeys, same]
    · simp [put, mapKeys, same, apart.ne same, ih]

theorem putAll_mapKeys (apart : Function.Injective rename) (entries pairs : List (κ × α)) :
    putAll (mapKeys rename entries) (mapKeys rename pairs) =
      mapKeys rename (putAll entries pairs) := by
  induction pairs generalizing entries with
  | nil => rfl
  | cons pair rest ih =>
    have step : putAll (mapKeys rename entries) (mapKeys rename (pair :: rest)) =
        putAll (put (rename pair.1) pair.2 (mapKeys rename entries)) (mapKeys rename rest) := rfl
    rw [step, put_mapKeys apart, ih]
    rfl

theorem ofPairs_mapKeys (apart : Function.Injective rename) (pairs : List (κ × α)) :
    ofPairs (mapKeys rename pairs) = mapKeys rename (ofPairs pairs) :=
  putAll_mapKeys apart [] pairs

end Rename

theorem mem_of_mem_putAll {entries pairs : List (κ × α)} {pair : κ × α}
    (member : pair ∈ putAll entries pairs) : pair ∈ entries ∨ pair ∈ pairs := by
  induction pairs generalizing entries with
  | nil => exact .inl member
  | cons first rest ih =>
    rcases ih member with put | later
    · rcases mem_put put with new | old
      · exact .inr (by simp [new])
      · exact .inl old
    · exact .inr (List.mem_cons_of_mem _ later)

theorem forall_putAll {P : κ × α → Prop} {entries pairs : List (κ × α)}
    (each : ∀ entry ∈ entries, P entry) (later : ∀ entry ∈ pairs, P entry) :
    ∀ entry ∈ putAll entries pairs, P entry :=
  fun entry member => (mem_of_mem_putAll member).elim (each entry) (later entry)

theorem mem_of_mem_ofPairs {pairs : List (κ × α)} {pair : κ × α} (member : pair ∈ ofPairs pairs) :
    pair ∈ pairs :=
  (mem_of_mem_putAll member).resolve_left (by simp)

end Entries

end ActionCatalogue
