import Mathlib.Data.List.Nodup
import ActionCatalogue.Manifest.Declaration

/-!
What a manifest that passes its checks makes sure of. The checks go along with the names that they
have seen. No app comes twice, even with other blanks around its name, no app has an action twice,
and actions are declared only where there is a document for them.
-/

namespace ActionCatalogue.Manifest

theorem nodup_of_checkActions {app : String} {seen : List String}
    {actions : List ActionDeclaration} (valid : checkActions app seen actions = .ok ()) :
    (actions.map (·.name)).Nodup ∧ ∀ a ∈ actions, a.name ∉ seen := by
  induction actions generalizing seen with
  | nil => simp
  | cons a rest ih =>
    rw [checkActions] at valid
    split at valid
    · cases valid
    split at valid
    · cases valid
    next unknown =>
      obtain ⟨distinct, fresh⟩ := ih valid
      have apart : a.name ∉ rest.map (·.name) := by
        intro again
        obtain ⟨b, later, same⟩ := List.mem_map.mp again
        exact fresh b later (same ▸ List.mem_cons_self)
      refine ⟨List.nodup_cons.mpr ⟨apart, distinct⟩, fun b member => ?_⟩
      rcases List.mem_cons.mp member with rfl | later
      · simpa using unknown
      · exact fun known => fresh b later (List.mem_cons_of_mem _ known)

/-- A declaration that passes the checks of its own. -/
structure Admissible (d : AppDeclaration) : Prop where
  documented : d.actions ≠ [] → d.app.swagger.isSome
  actions : (d.actions.map (·.name)).Nodup

theorem admissible_of_checkApps_cons {seen : List String} {d : AppDeclaration}
    {rest : List AppDeclaration} (valid : checkApps seen (d :: rest) = .ok ()) :
    Text.trim d.app.name ∉ seen ∧ Admissible d ∧
      checkApps (Text.trim d.app.name :: seen) rest = .ok () := by
  simp only [checkApps] at valid
  split at valid
  · cases valid
  split at valid
  · cases valid
  next unknown =>
    split at valid
    · cases valid
    next documented =>
      obtain ⟨_, actions, others⟩ := exists_of_bind_eq_ok valid
      have fresh : Text.trim d.app.name ∉ seen := by simpa using unknown
      refine ⟨fresh, ⟨fun declares => ?_, (nodup_of_checkActions actions).1⟩, others⟩
      rw [Option.isSome_iff_ne_none]
      intro missing
      simp [missing] at documented
      exact declares documented

theorem nodup_of_checkApps {seen : List String} {apps : List AppDeclaration}
    (valid : checkApps seen apps = .ok ()) : (apps.map fun d => Text.trim d.app.name).Nodup ∧
      ∀ d ∈ apps, Text.trim d.app.name ∉ seen ∧ Admissible d := by
  induction apps generalizing seen with
  | nil => simp
  | cons d rest ih =>
    obtain ⟨fresh, admissible, others⟩ := admissible_of_checkApps_cons valid
    obtain ⟨distinct, later⟩ := ih others
    have apart : Text.trim d.app.name ∉ rest.map fun d => Text.trim d.app.name := by
      intro again
      obtain ⟨other, member, same⟩ := List.mem_map.mp again
      exact (later other member).1 (same ▸ List.mem_cons_self)
    refine ⟨List.nodup_cons.mpr ⟨apart, distinct⟩, fun other member => ?_⟩
    rcases List.mem_cons.mp member with rfl | further
    · exact ⟨fresh, admissible⟩
    · obtain ⟨unseen, sound⟩ := later other further
      exact ⟨fun known => unseen (List.mem_cons_of_mem _ known), sound⟩

variable {m : Manifest}

/-- Names that differ but for the blanks around them differ. -/
theorem nodup_names (valid : m.validate = .ok ()) : (m.apps.map (·.app.name)).Nodup := by
  apply List.Nodup.of_map Text.trim
  rw [List.map_map]
  exact (nodup_of_checkApps valid).1

theorem admissible_of_mem (valid : m.validate = .ok ()) {d : AppDeclaration} (member : d ∈ m.apps) :
    Admissible d :=
  ((nodup_of_checkApps valid).2 d member).2

end ActionCatalogue.Manifest
