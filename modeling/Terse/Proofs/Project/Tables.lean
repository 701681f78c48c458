import Terse.Proofs.Project.Index

/-!
# The two tables of an index

An index keeps the interfaces of modules, and apart from them the types that constructors belong
to. Adding an interface replaces the older one of its module in the first table only: in the second
one, the constructors of the older interface stay where no new one takes their place. So whatever an
interface declares is found from its constructors, but a constructor may lead to a type that has it
no longer. Here is exactly when.
-/

namespace Terse

/-! ## Tables with one entry for a key -/

namespace Table

variable {α β : Type}

/-- No key has a second entry. -/
def KeysDiffer (t : Table α β) : Prop := (t.map Prod.fst).Nodup

instance [DecidableEq α] (t : Table α β) : Decidable t.KeysDiffer :=
  inferInstanceAs (Decidable (t.map Prod.fst).Nodup)

variable [BEq α] [LawfulBEq α]

/-- Putting an entry into a table keeps its keys different. -/
theorem KeysDiffer.put {t : Table α β} (h : t.KeysDiffer) (key : α) (value : β) :
    (t.put key value).KeysDiffer := by
  rw [KeysDiffer, Table.put, List.map_cons, List.nodup_cons]
  constructor
  · intro hmem
    obtain ⟨entry, hentry, hkey⟩ := List.mem_map.mp hmem
    -- the entries that stay have other keys
    have hother := (List.mem_filter.mp hentry).2
    simp [hkey] at hother
  · exact h.sublist (List.filter_sublist.map _)

/-- In a table with different keys, every entry is found. -/
theorem KeysDiffer.find?_of_mem {t : Table α β} (h : t.KeysDiffer) {key : α} {value : β}
    (hmem : (key, value) ∈ t) : t.find? key = some value := by
  induction t with
  | nil => cases hmem
  | cons entry t ih =>
    obtain ⟨hnot, hrest⟩ := List.nodup_cons.mp h
    rw [find?, List.lookup_cons]
    rcases List.mem_cons.mp hmem with heq | hmem
    · simp [← heq]
    · have hne : key ≠ entry.1 := by
        intro heq
        exact hnot (heq ▸ List.mem_map_of_mem hmem)
      rw [beq_false_of_ne hne]
      exact ih hrest hmem

theorem mem_of_find? {t : Table α β} {key : α} {value : β} (h : t.find? key = some value) :
    (key, value) ∈ t := by
  obtain ⟨before, behind, ht, -⟩ := List.lookup_eq_some_iff.mp h
  simp [ht]

end Table

/-! ## Constructors of an interface -/

namespace Interface

variable {i : Interface} {c : String} {t : TypeName}

/-- A custom type of the interface has the constructor. -/
def Declares (i : Interface) (c : String) : Prop := ∃ entry ∈ i.types, c ∈ entry.2

/-- A constructor is owned by a type of the interface that declares it. -/
theorem exists_of_ownerOf (h : i.ownerOf c = some t) :
    t.path = i.name ∧ ∃ constructors, (t.name, constructors) ∈ i.types ∧ c ∈ constructors := by
  obtain ⟨⟨name, constructors⟩, hmem, howner⟩ := List.exists_of_findSome?_eq_some h
  dsimp only at howner
  split at howner
  · rename_i hc
    cases howner
    exact ⟨rfl, constructors, hmem, hc⟩
  · cases howner

/-- A constructor has an owner when the interface declares it. -/
theorem isSome_ownerOf_iff : (i.ownerOf c).isSome = true ↔ i.Declares c := by
  rw [ownerOf, List.findSome?_isSome_iff, Declares]
  simp

theorem declares_of_constructorsOf {name : String} {constructors : List String}
    (h : i.constructorsOf name = some constructors) (hc : c ∈ constructors) : i.Declares c :=
  ⟨(name, constructors), Table.mem_of_find? h, hc⟩

/-- The interface of a module has one entry for each name of a type. -/
theorem keysDiffer_ofModule (m : Module) : (ofModule m).types.KeysDiffer := by
  have hfold : ∀ (types : List CustomType) (i : Interface), i.types.KeysDiffer →
      (types.foldl (fun i t => i.withHiddenType t.name.value t.constructorNames)
        i).types.KeysDiffer := by
    intro types
    induction types with
    | nil => exact fun _ h => h
    | cons t types ih => exact fun i h => ih _ (h.put _ _)
  exact hfold _ _ List.nodup_nil

/-- In the core library no module declares two types of one name. -/
theorem keysDiffer_core : ∀ i ∈ Core.interfaces, i.types.KeysDiffer := by
  decide +kernel

end Interface

namespace ProjectIndex

/-! ## What is added -/

/-- An interface whose types have different names, in whatever order they are listed, or a module of
the project. -/
inductive Addition where
  | interface (i : Interface) (h : i.types.KeysDiffer)
  | module (m : Module)

/-- The interface that is added. -/
def Addition.content : Addition → Interface
  | interface i _ => i
  | module m => .ofModule m

theorem Addition.keysDiffer (a : Addition) : a.content.types.KeysDiffer := by
  cases a with
  | interface i h => exact h
  | module m => exact Interface.keysDiffer_ofModule m

/-- Add an interface or a module. -/
def add (index : ProjectIndex) : Addition → ProjectIndex
  | .interface i _ => index.addInterface i
  | .module m => index.addModule m

/-- The index of the core library with all that is added to it. -/
def ofAdditions (additions : List Addition) : ProjectIndex := additions.foldl add core

/-- The interfaces that an index is made of, the latest one last. -/
def history (additions : List Addition) : List Interface :=
  Core.interfaces ++ additions.map Addition.content

/-- The type has the constructor, by its interface. -/
def HasConstructor (index : ProjectIndex) (t : TypeName) (c : String) : Prop :=
  ∃ constructors, index.constructorsOf t = some constructors ∧ c ∈ constructors

/-! ## What the tables hold -/

/-- What the tables of an index have to do with the interfaces that were added. -/
structure Reflects (index : ProjectIndex) (added : List Interface) : Prop where
  /-- The latest interface of a module counts. -/
  interface : ∀ m, index.interface? m = (added.filter (·.name = m)).getLast?
  /-- A constructor that was ever declared leads to a type. -/
  isSome_typeOf : ∀ m c,
    (index.typeOf m c).isSome = true ↔ ∃ i ∈ added, i.name = m ∧ i.Declares c
  path : ∀ m c t, index.typeOf m c = some t → t.path = m
  /-- A constructor of the latest interface leads to one of its types. -/
  ownerOf : ∀ m c t i, index.typeOf m c = some t → index.interface? m = some i → i.Declares c →
    i.ownerOf c = some t

/-- The empty index reflects that nothing was added. -/
theorem reflects_empty : Reflects empty [] := by
  refine ⟨fun _ => rfl, ?_, ?_, ?_⟩
  · intro m c
    simp [typeOf, empty, Table.find?]
  · intro m c t h
    cases h
  · intro m c t i h
    cases h

variable {index : ProjectIndex} {added : List Interface}

/-- Adding one interface. -/
theorem Reflects.addInterface (h : Reflects index added) (i : Interface) :
    Reflects (index.addInterface i) (added ++ [i]) := by
  refine ⟨?interface, ?isSome, ?path, ?owner⟩
  case interface =>
    intro m
    rw [interface?_addInterface, List.filter_append]
    by_cases hm : m = i.name
    · simp [hm]
    · simp [hm, Ne.symm hm, h.interface m]
  case isSome =>
    intro m c
    rw [typeOf_addInterface]
    by_cases hm : m = i.name
    · rw [if_pos hm, Option.isSome_or, Bool.or_eq_true, Interface.isSome_ownerOf_iff,
        h.isSome_typeOf]
      simp [hm, or_and_right, exists_or, or_comm]
    · rw [if_neg hm, h.isSome_typeOf]
      simp [Ne.symm hm, or_and_right, exists_or]
  case path =>
    intro m c t ht
    rw [typeOf_addInterface] at ht
    by_cases hm : m = i.name
    · rw [if_pos hm] at ht
      rcases Option.or_eq_some_iff.mp ht with hnew | ⟨-, hold⟩
      · exact (Interface.exists_of_ownerOf hnew).1.trans hm.symm
      · exact h.path m c t hold
    · rw [if_neg hm] at ht
      exact h.path m c t ht
  case owner =>
    intro m c t j ht hj hc
    rw [typeOf_addInterface] at ht
    rw [interface?_addInterface] at hj
    by_cases hm : m = i.name
    · -- the new interface is the latest one, and what it declares takes the place of older entries
      rw [if_pos hm] at ht hj
      cases hj
      obtain ⟨owner, howner⟩ := Option.isSome_iff_exists.mp (Interface.isSome_ownerOf_iff.mpr hc)
      rwa [howner, Option.some_or, ← howner] at ht
    · rw [if_neg hm] at ht hj
      exact h.ownerOf m c t j ht hj hc

/-- An index that holds the same at every module reflects the same interfaces. -/
theorem Reflects.of_sameAt {index' : ProjectIndex} (h : Reflects index added)
    (hsame : ∀ m, SameAt m index' index) : Reflects index' added := by
  refine ⟨?_, ?_, ?_, ?_⟩
  · intro m
    rw [(hsame m).interface, h.interface]
  · intro m c
    rw [(hsame m).typeOf, h.isSome_typeOf]
  · intro m c t ht
    rw [(hsame m).typeOf] at ht
    exact h.path m c t ht
  · intro m c t i ht hi hc
    rw [(hsame m).typeOf] at ht
    rw [(hsame m).interface] at hi
    exact h.ownerOf m c t i ht hi hc

/-- Adding an interface or a module. -/
theorem Reflects.add (h : Reflects index added) (a : Addition) :
    Reflects (index.add a) (added ++ [a.content]) := by
  cases a with
  | interface i _ => exact h.addInterface i
  | module m =>
    exact (h.addInterface (.ofModule m)).of_sameAt fun path => addModule_sameAt path index m

theorem Reflects.foldl_addInterface (h : Reflects index added) (is : List Interface) :
    Reflects (is.foldl ProjectIndex.addInterface index) (added ++ is) := by
  induction is generalizing index added with
  | nil => simpa using h
  | cons i is ih =>
    rw [List.foldl_cons, List.append_cons]
    exact ih (h.addInterface i)

/-- An index reflects what was added to it, one addition after another. -/
theorem Reflects.foldl_add (h : Reflects index added) (additions : List Addition) :
    Reflects (additions.foldl ProjectIndex.add index)
      (added ++ additions.map Addition.content) := by
  induction additions generalizing index added with
  | nil => simpa using h
  | cons a additions ih =>
    rw [List.foldl_cons, List.map_cons, List.append_cons]
    exact ih (h.add a)

/-- The tables after any additions to the core library. -/
theorem reflects_ofAdditions (additions : List Addition) :
    Reflects (ofAdditions additions) (history additions) :=
  (reflects_empty.foldl_addInterface Core.interfaces).foldl_add additions

theorem keysDiffer_history (additions : List Addition) :
    ∀ i ∈ history additions, i.types.KeysDiffer := by
  rw [history, List.forall_mem_append, List.forall_mem_map]
  exact ⟨Interface.keysDiffer_core, fun a _ => a.keysDiffer⟩

/-! ## One table against the other -/

theorem HasConstructor.exists_declares {t : TypeName} {c : String}
    (hc : index.HasConstructor t c) :
    ∃ i, index.interface? t.path = some i ∧ i.Declares c := by
  obtain ⟨constructors, hconstructors, hc⟩ := hc
  obtain ⟨i, hi, htype⟩ := Option.bind_eq_some_iff.mp hconstructors
  exact ⟨i, hi, Interface.declares_of_constructorsOf htype hc⟩

namespace Reflects

variable {m : ModuleName} {c : String} {t : TypeName} {i : Interface}

/-- The interface of a module is one that was added. -/
theorem interface_mem (h : Reflects index added) (hi : index.interface? m = some i) :
    i ∈ added ∧ i.name = m := by
  rw [h.interface] at hi
  simpa using List.mem_filter.mp (List.mem_of_getLast? hi)

/-- What the latest interface declares is found in both tables. -/
theorem hasConstructor (h : Reflects index added) (hkeys : ∀ i ∈ added, i.types.KeysDiffer)
    (ht : index.typeOf m c = some t) (hi : index.interface? m = some i) (hc : i.Declares c) :
    index.HasConstructor t c := by
  obtain ⟨-, constructors, hmem, hc'⟩ :=
    Interface.exists_of_ownerOf (h.ownerOf m c t i ht hi hc)
  refine ⟨constructors, ?_, hc'⟩
  rw [constructorsOf, h.path m c t ht, hi]
  exact (hkeys i (h.interface_mem hi).1).find?_of_mem hmem

end Reflects

/-- The tables of an index after any additions to the core library. A constructor leads to a type
exactly if an interface of its module ever declared it, and the type is one of that module; the type
has the constructor exactly if the latest interface of the module declares it. The other way, a
constructor of a type always leads to a type that has it. -/
theorem tables_agree_iff (additions : List Addition) :
    (∀ m c, (∃ t, (ofAdditions additions).typeOf m c = some t) ↔
      ∃ i ∈ history additions, i.name = m ∧ i.Declares c) ∧
    (∀ m c t, (ofAdditions additions).typeOf m c = some t → t.path = m ∧
      ((ofAdditions additions).HasConstructor t c ↔
        ∃ i, ((history additions).filter (·.name = m)).getLast? = some i ∧ i.Declares c)) ∧
    ∀ t c, (ofAdditions additions).HasConstructor t c →
      ∃ t', (ofAdditions additions).typeOf t.path c = some t' ∧
        (ofAdditions additions).HasConstructor t' c := by
  have h := reflects_ofAdditions additions
  have hkeys := keysDiffer_history additions
  refine ⟨?found, ?kept, ?back⟩
  case found =>
    intro m c
    rw [← h.isSome_typeOf, Option.isSome_iff_exists]
  case kept =>
    intro m c t ht
    refine ⟨h.path m c t ht, ?_⟩
    rw [← h.interface]
    constructor
    · intro hc
      have hpath := h.path m c t ht
      rw [← hpath]
      exact hc.exists_declares
    · rintro ⟨i, hi, hc⟩
      exact h.hasConstructor hkeys ht hi hc
  case back =>
    intro t c hc
    obtain ⟨i, hi, hdeclares⟩ := hc.exists_declares
    have hsome := (h.isSome_typeOf t.path c).mpr
      ⟨i, (h.interface_mem hi).1, (h.interface_mem hi).2, hdeclares⟩
    obtain ⟨t', ht'⟩ := Option.isSome_iff_exists.mp hsome
    exact ⟨t', ht', h.hasConstructor hkeys ht' hi hdeclares⟩

/-- A module is added, and again with another constructor for its type. -/
def editedType : List Addition :=
  [.interface ((Interface.empty ⟨["M"]⟩).withType "T" ["X"]) (by decide),
   .interface ((Interface.empty ⟨["M"]⟩).withType "T" ["Y"]) (by decide)]

theorem typeOf_editedType : (ofAdditions editedType).typeOf ⟨["M"]⟩ "X" = some ⟨⟨["M"]⟩, "T"⟩ := by
  decide +kernel

/-- The older constructor still leads to the type, which has it if the latest interface does. -/
theorem tables_agree_iff_edited :
    (ofAdditions editedType).typeOf ⟨["M"]⟩ "X" = some ⟨⟨["M"]⟩, "T"⟩ ∧
      ((ofAdditions editedType).HasConstructor ⟨⟨["M"]⟩, "T"⟩ "X" ↔
        ∃ i, ((history editedType).filter (·.name = ⟨["M"]⟩)).getLast? = some i ∧
          i.Declares "X") :=
  ⟨typeOf_editedType, ((tables_agree_iff editedType).2.1 _ _ _ typeOf_editedType).2⟩

/-- It is not so that a constructor always leads to a type that has it. -/
theorem replaced_constructor_remains :
    ¬ ∀ (additions : List Addition) (m : ModuleName) (c : String) (t : TypeName),
      (ofAdditions additions).typeOf m c = some t →
        t.path = m ∧ (ofAdditions additions).HasConstructor t c := by
  intro h
  obtain ⟨-, constructors, hconstructors, hmem⟩ := h editedType _ _ _ typeOf_editedType
  have hlatest : (ofAdditions editedType).constructorsOf ⟨⟨["M"]⟩, "T"⟩ = some ["Y"] := by
    decide +kernel
  rw [hlatest] at hconstructors
  cases hconstructors
  exact absurd hmem (by decide)

end ProjectIndex

end Terse
