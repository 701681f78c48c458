import Mathlib.Data.List.Basic
import Mathlib.Data.List.Find
import Terse.Lookup
import Terse.Proofs.Project.Index

/-!
# Names come from imports

A name that can be traced comes from the module itself or from one that it imports, by itself or by
default. So what names mean in a module, and how they are written there, depends only on what is
known about these modules.
-/

namespace Terse

/-- The imports of a module with the default ones. -/
def Module.allImports (m : Module) : List Import := Core.defaultImports ++ m.imports

/-- The modules that names in a module can come from: itself and what it imports. -/
def Module.visible (m : Module) : List ModuleName :=
  m.name.value :: m.allImports.map (·.path.value)

/-- Every module that is imported is visible. -/
theorem Module.mem_visible_of_import {m : Module} {i : Import} (h : i ∈ m.allImports) :
    i.path.value ∈ m.visible :=
  List.mem_cons_of_mem _ (List.mem_map_of_mem h)

/-! ## Tables over imports -/

namespace AliasTable

/-- The modules that a table names. -/
def paths (t : AliasTable) : List ModuleName := t.flatMap Prod.snd

theorem modulesOf_subset (t : AliasTable) (qualifier : String) :
    t.modulesOf qualifier ⊆ t.paths := by
  intro path hpath
  unfold modulesOf at hpath
  cases hlookup : t.lookup qualifier with
  | none =>
    rw [hlookup] at hpath
    cases hpath
  | some found =>
    rw [hlookup] at hpath
    rcases List.lookup_eq_some_iff.mp hlookup with ⟨before, rest, heq, -⟩
    rw [paths, heq]
    simp only [List.flatMap_append, List.flatMap_cons, List.mem_append]
    exact .inr (.inl hpath)

/-- An alias adds no module but its own. -/
theorem paths_add (qualifier : String) (path : ModuleName) (t : AliasTable) :
    (t.add qualifier path).paths ⊆ path :: t.paths := by
  induction t with
  | nil => simp [add, paths]
  | cons entry t ih =>
    rcases entry with ⟨q, found⟩
    unfold add
    split
    · intro x hx
      simp only [paths, List.flatMap_cons, List.mem_append, List.mem_cons] at hx ⊢
      split at hx <;> simp at hx <;> grind
    · intro x hx
      have hsub := @ih x
      simp only [paths, List.flatMap_cons, List.mem_append, List.mem_cons] at hx hsub ⊢
      grind

/-- A qualifier stands for imported modules. -/
theorem modulesOf_ofImports {m : Module} {qualifier : String} {path : ModuleName}
    (h : path ∈ (ofImports m.imports).modulesOf qualifier) : path ∈ m.visible := by
  have hfold : ∀ (imports : List Import) (t : AliasTable), imports ⊆ m.allImports →
      t.paths ⊆ m.visible →
      (imports.foldl (fun t i => t.add i.qualifier.render i.path.value) t).paths ⊆ m.visible := by
    intro imports
    induction imports with
    | nil => exact fun _ _ ht => ht
    | cons i imports ih =>
      intro t himports ht
      rw [List.cons_subset] at himports
      apply ih _ himports.2
      intro x hx
      rcases List.mem_cons.mp (paths_add _ _ t hx) with rfl | hx
      · exact Module.mem_visible_of_import himports.1
      · exact ht hx
  exact hfold _ [] (List.Subset.refl _) (List.nil_subset _) (modulesOf_subset _ _ h)

end AliasTable

namespace Lookup

/-! ## Where names come from -/

variable {m : Module} {k k' : Knowledge}

/-- Modules imported with everything they expose are visible. -/
theorem mem_visible_of_openModules {path : ModuleName} (h : path ∈ openBy m.allImports) :
    path ∈ m.visible := by
  rw [openBy, List.mem_eraseDups] at h
  rcases List.mem_map.mp h with ⟨i, hi, rfl⟩
  exact Module.mem_visible_of_import (List.mem_filter.mp hi).1

theorem find?_putAll {names : List String} {path owner : ModuleName} {name : String}
    {t : Table String ModuleName}
    (h : Table.find? (names.foldl (fun t name => Table.put t name path) t) name = some owner) :
    owner = path ∨ Table.find? t name = some owner := by
  induction names generalizing t with
  | nil => exact .inr h
  | cons n names ih =>
    rcases ih h with hpath | hput
    · exact .inl hpath
    · rw [Table.find?_put] at hput
      split at hput
      · exact .inl (Option.some.inj hput).symm
      · exact .inr hput

/-- Names that imports list come from visible modules. -/
theorem mem_visible_of_exposed {name : String} {owner : ModuleName}
    (h : Table.find? (exposedBy k m.allImports) name = some owner) : owner ∈ m.visible := by
  have hfold : ∀ (imports : List Import) (t : Table String ModuleName), imports ⊆ m.allImports →
      (Table.find? t name = some owner → owner ∈ m.visible) →
      Table.find? (imports.foldl (fun t i => (namesOfImport k i).foldl
        (fun t name => Table.put t name i.path.value) t) t) name = some owner →
      owner ∈ m.visible := by
    intro imports
    induction imports with
    | nil => exact fun _ _ ht h => ht h
    | cons i imports ih =>
      intro t himports ht
      rw [List.cons_subset] at himports
      apply ih _ himports.2
      intro hput
      rcases find?_putAll hput with rfl | hold
      · exact Module.mem_visible_of_import himports.1
      · exact ht hold
  exact hfold _ [] (List.Subset.refl _) (fun h => by cases h) h

/-- A name that can be traced comes from a visible module. -/
theorem path_mem_visible {q : QualifiedName} {r : ResolvedName}
    (h : (ofModule m k).resolve q = some r) : r.path ∈ m.visible := by
  rcases Option.map_eq_some_iff.mp h with ⟨path, hpath, rfl⟩
  split at hpath
  · unfold moduleOfQualified at hpath
    apply AliasTable.modulesOf_ofImports
    rcases Option.or_eq_some_iff.mp hpath with hfound | ⟨-, hfirst⟩
    · exact List.mem_of_find?_eq_some hfound
    · exact List.mem_of_mem_head? hfirst
  · unfold moduleOfBare at hpath
    split at hpath
    · cases hpath
      exact List.mem_cons_self
    · rcases Option.or_eq_some_iff.mp hpath with hlisted | ⟨-, hopen⟩
      · exact mem_visible_of_exposed hlisted
      · exact mem_visible_of_openModules (List.mem_of_find?_eq_some hopen)

/-! ## What is known about visible modules -/

variable (hk : ∀ path ∈ m.visible, Knowledge.AgreesAbout path k k')
include hk

/-- Knowledge that agrees about visible modules gives the same names to an import. -/
theorem namesOfImport_agrees {i : Import} (hi : i ∈ m.allImports) :
    namesOfImport k i = namesOfImport k' i := by
  have hitem : namesOfItem k i.path.value = namesOfItem k' i.path.value := by
    funext item
    unfold namesOfItem
    split
    · rfl
    · rw [(hk _ (Module.mem_visible_of_import hi)).constructorsOf]
    · rfl
    · rfl
  rw [namesOfImport, namesOfImport, hitem]

theorem exposedBy_agrees : exposedBy k m.allImports = exposedBy k' m.allImports := by
  apply List.foldl_ext
  intro t i hi
  rw [namesOfImport_agrees hk hi]

theorem find?_exposes_agrees (paths : List ModuleName) (hpaths : paths ⊆ m.visible)
    (name : String) : paths.find? (k.exposes · name) = paths.find? (k'.exposes · name) :=
  List.find?_congr fun path hpath => (hk path (hpaths hpath)).exposes name

/-- Knowledge that agrees about visible modules finds bare names in the same modules. -/
theorem moduleOfBare_agrees : (ofModule m k).moduleOfBare = (ofModule m k').moduleOfBare := by
  funext name
  have hopen := find?_exposes_agrees hk (openBy m.allImports)
    (fun _ => mem_visible_of_openModules) name
  unfold moduleOfBare ofModule
  dsimp only
  rw [← Module.allImports, exposedBy_agrees hk, hopen]

/-- Knowledge that agrees about visible modules finds qualified names in the same modules. -/
theorem moduleOfQualified_agrees :
    (ofModule m k).moduleOfQualified = (ofModule m k').moduleOfQualified := by
  funext qualifier name
  have hfind := find?_exposes_agrees hk
    ((AliasTable.ofImports m.imports).modulesOf qualifier.render)
    (fun _ => AliasTable.modulesOf_ofImports) name
  unfold moduleOfQualified ofModule
  dsimp only
  rw [hfind]

/-- Names mean the same. -/
theorem resolve_agrees : (ofModule m k).resolve = (ofModule m k').resolve := by
  funext q
  rw [resolve, resolve, moduleOfBare_agrees hk, moduleOfQualified_agrees hk]

/-- Values are written the same. -/
theorem qualify_agrees : (ofModule m k).qualify = (ofModule m k').qualify := by
  funext path name shadowed
  rw [qualify, qualify, reference?, reference?, moduleOfBare_agrees hk]
  rfl

end Lookup

end Terse
