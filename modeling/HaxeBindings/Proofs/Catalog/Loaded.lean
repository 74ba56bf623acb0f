import HaxeBindings.Catalog.Describe
import HaxeBindings.Catalog.Select
import HaxeBindings.Proofs.Catalog.Loading
import HaxeBindings.Proofs.Sorted.Selection
import HaxeBindings.Proofs.Text.Trimmed

/-!
# Types that come from a dump

A type is loaded under its stripped full name, and only when there is something left of
it (`fullName_of_mem_ofJson`).  So no type of a loaded catalog is without a name, and
each one that is selected is described (`describeAll_select_eq_map`).
-/

namespace HaxeBindings
namespace Catalog

open Text Schema

/-- The types of a loaded catalog have stripped names that are not empty. -/
theorem fullName_of_mem_ofJson {dump : Json} {catalog : Logged (List Assembly)}
    (h : ofJson dump = .ok catalog) {a : Assembly} (ha : a ∈ catalog.value) {t : TypeEntry}
    (ht : t ∈ a.types) : t.fullName ≠ [] ∧ strip t.fullName = t.fullName := by
  obtain ⟨items, rfl⟩ : ∃ items, Logged.collect (List.map loadAssembly items) = catalog := by
    unfold ofJson at h
    split at h
    · exact nomatch h
    · next items _ => exact ⟨items, Except.ok.inj h⟩
  rw [value_collect] at ha
  obtain ⟨item, -, hitem⟩ := List.mem_filterMap.mp ha
  unfold loadAssembly at hitem
  split at hitem
  · exact nomatch hitem
  · obtain rfl := Option.some_inj.mp hitem
    simp only [value_collect] at ht
    obtain ⟨entry, -, hentry⟩ := List.mem_filterMap.mp ht
    unfold loadType at hentry
    split at hentry
    · exact nomatch hentry
    · simp only at hentry
      split at hentry
      · exact nomatch hentry
      · next hne =>
        obtain rfl := Option.some_inj.mp hentry
        exact ⟨fun hnil => hne (List.isEmpty_iff.mpr hnil), strip_strip _⟩

theorem not_isBlankText_canonicalName {t : TypeEntry} (hne : t.fullName ≠ [])
    (htrim : strip t.fullName = t.fullName) : isBlankText t.canonicalName = false := by
  obtain ⟨c, rest, hcons⟩ := List.exists_cons_of_ne_nil hne
  have hc : isBlank c = false := head_not_blank htrim (by rw [hcons]; rfl)
  obtain ⟨d, hd, hdotted⟩ : ∃ d, isBlank d = false ∧ d ∈ dotted t.fullName := by
    refine ⟨if c = '+' then '.' else c, ?_, ?_⟩
    · split
      · decide
      · exact hc
    · rw [dotted, hcons]
      exact List.mem_cons_self
  have hmem : d ∈ t.canonicalName := by
    unfold TypeEntry.canonicalName
    split
    · exact hdotted
    · exact List.mem_append_left _ (List.mem_append_left _ hdotted)
  have hkept := mem_strip_of_mem hmem hd
  rw [isBlankText, ← Bool.not_eq_true, List.isEmpty_iff]
  exact List.ne_nil_of_mem hkept

/-- A selected type is among the types of the catalog, and it is exportable. -/
theorem of_mem_select {root : Text} {assemblies : List Assembly} {t : TypeEntry}
    (ht : t ∈ (select root assemblies).value) :
    (∃ a ∈ assemblies, t ∈ a.types) ∧ t.isExportable root = true := by
  obtain ⟨hcandidate, hexportable⟩ := List.mem_filter.mp (Sorted.mem_of_mem_firstPerKey ht)
  obtain ⟨a, ha, hta⟩ := List.mem_flatMap.mp hcandidate
  exact ⟨⟨a, (List.mem_filter.mp ha).1, hta⟩, hexportable⟩

/-- The selected types of a loaded catalog have stripped names that are not empty. -/
theorem fullName_of_mem_select {dump : Json} {catalog : Logged (List Assembly)}
    (h : ofJson dump = .ok catalog) {root : Text} {t : TypeEntry}
    (ht : t ∈ (select root catalog.value).value) :
    t.fullName ≠ [] ∧ strip t.fullName = t.fullName := by
  obtain ⟨⟨a, ha, hta⟩, -⟩ := of_mem_select ht
  exact fullName_of_mem_ofJson h ha hta

/-- **The descriptors of a dump are those of its selected types**, one for each. -/
theorem describeAll_select_eq_map {dump : Json} {catalog : Logged (List Assembly)}
    (h : ofJson dump = .ok catalog) (root : Text) :
    describeAll (select root catalog.value).value =
      (select root catalog.value).value.map TypeEntry.describe := by
  refine List.filter_eq_self.mpr fun d hd => ?_
  obtain ⟨t, ht, rfl⟩ := List.mem_map.mp hd
  obtain ⟨hne, htrim⟩ := fullName_of_mem_select h ht
  rw [TypeEntry.describe, not_isBlankText_canonicalName hne htrim, Bool.not_false]

/-- Each selected type of a dump is described. -/
theorem describe_mem_describeAll {dump : Json} {catalog : Logged (List Assembly)}
    (h : ofJson dump = .ok catalog) {root : Text} {t : TypeEntry}
    (ht : t ∈ (select root catalog.value).value) :
    t.describe ∈ describeAll (select root catalog.value).value := by
  rw [describeAll_select_eq_map h]
  exact List.mem_map_of_mem ht

end Catalog
end HaxeBindings
