import Terse.Project.Index

/-!
# What an index knows about a module

Adding the interface of a module changes nothing that is known about other modules. So what an
index knows about a module depends only on the interfaces of that name, in the order in which they
were added; and a constructor of a module always belongs to a type of the same module.
-/

namespace Terse

namespace Table

variable {α β : Type} [BEq α] [LawfulBEq α]

/-- Putting an entry into a table changes what is found for its key alone. -/
theorem find?_put (t : Table α β) (key : α) (value : β) (other : α) :
    (t.put key value).find? other = if other == key then some value else t.find? other := by
  unfold put find?
  rw [List.lookup_cons]
  by_cases heq : other = key
  · simp [heq]
  · have hne : (other == key) = false := beq_eq_false_iff_ne.mpr heq
    simp only [hne, Bool.false_eq_true, if_false]
    induction t with
    | nil => rfl
    | cons entry t ih =>
      rcases entry with ⟨k, v⟩
      by_cases hk : k = key
      · -- the older entry is removed, and it was not the one that is looked up
        simp [hk, List.lookup_cons, hne, ih]
      · simp [hk, List.lookup_cons, ih]

end Table

namespace Interface

theorem name_ofModule (m : Module) : (ofModule m).name = m.name.value := by
  have hfold : ∀ (types : List CustomType) (i : Interface), (types.foldl
      (fun i t => i.withHiddenType t.name.value t.constructorNames) i).name = i.name := by
    intro types
    induction types with
    | nil => exact fun _ => rfl
    | cons t types ih => exact fun i => ih _
  exact hfold _ _

/-- The type that one of the interface's types has the constructor of. -/
def ownerOf (i : Interface) (constructor : String) : Option TypeName :=
  i.types.findSome? fun (name, constructors) =>
    if constructor ∈ constructors then some ⟨i.name, name⟩ else none

end Interface

/-- Two states of knowledge give the same answers about a module. -/
structure Knowledge.AgreesAbout (path : ModuleName) (k k' : Knowledge) : Prop where
  exposes : ∀ name, k.exposes path name = k'.exposes path name
  constructorsOf : ∀ name, k.constructorsOf ⟨path, name⟩ = k'.constructorsOf ⟨path, name⟩
  typeOf : ∀ constructor, k.typeOf path constructor = k'.typeOf path constructor

namespace ProjectIndex

/-! ## One interface -/

/-- Constructors of a type are owned by it afterwards, and all others as before. -/
theorem find?_own (owners : Table (ModuleName × String) TypeName) (owner : TypeName)
    (constructors : List String) (path : ModuleName) (constructor : String) :
    Table.find? (own owners owner constructors) (path, constructor) =
      if path = owner.path ∧ constructor ∈ constructors then some owner
      else Table.find? owners (path, constructor) := by
  unfold own
  induction constructors generalizing owners with
  | nil => simp
  | cons c cs ih =>
    rw [List.foldl_cons, ih, Table.find?_put]
    simp only [beq_iff_eq, Prod.mk.injEq, List.mem_cons]
    grind

/-- Adding an interface changes the interface of its own module alone. -/
theorem interface?_addInterface (index : ProjectIndex) (i : Interface) (path : ModuleName) :
    (index.addInterface i).interface? path =
      if path = i.name then some i else index.interface? path := by
  rw [interface?, addInterface, Table.find?_put]
  simp only [beq_iff_eq]
  rfl

/-- Adding an interface changes the owners of constructors in its own module alone. -/
theorem typeOf_addInterface (index : ProjectIndex) (i : Interface) (path : ModuleName)
    (constructor : String) :
    (index.addInterface i).typeOf path constructor =
      if path = i.name then (i.ownerOf constructor).or (index.typeOf path constructor)
      else index.typeOf path constructor := by
  unfold typeOf addInterface Interface.ownerOf
  dsimp only
  induction i.types with
  | nil => simp
  | cons entry types ih =>
    rcases entry with ⟨name, constructors⟩
    rw [List.foldr_cons, find?_own, ih, List.findSome?_cons]
    grind

/-! ## Indexes that are built -/

/-- An index that is made by adding interfaces and modules, one after another. -/
inductive Built : ProjectIndex → Prop where
  | empty : Built .empty
  | addInterface {index : ProjectIndex} (h : Built index) (i : Interface) :
    Built (index.addInterface i)
  | addModule {index : ProjectIndex} (h : Built index) (m : Module) : Built (index.addModule m)

/-- A constructor belongs to a type of its own module. -/
theorem Built.path_of_typeOf {index : ProjectIndex} (h : index.Built) {path : ModuleName}
    {constructor : String} {t : TypeName} (ht : index.typeOf path constructor = some t) :
    t.path = path := by
  have hadd : ∀ {index : ProjectIndex} {i : Interface},
      (index.typeOf path constructor = some t → t.path = path) →
      (index.addInterface i).typeOf path constructor = some t → t.path = path := by
    intro index i hold hnew
    rw [typeOf_addInterface] at hnew
    split at hnew
    · rename_i hpath
      -- a later interface of the same path is asked first
      rcases Option.or_eq_some_iff.mp hnew with howner | ⟨-, hkept⟩
      · rcases List.exists_of_findSome?_eq_some howner with ⟨⟨name, constructors⟩, -, howner⟩
        dsimp only at howner
        split at howner
        · cases howner
          exact hpath.symm
        · cases howner
      · exact hold hkept
    · exact hold hnew
  induction h with
  | empty => cases ht
  | addInterface h i ih => exact hadd ih ht
  | addModule h m ih => exact hadd ih ht

/-- Adding interfaces one after another builds an index. -/
theorem Built.foldl_addInterface {index : ProjectIndex} (h : index.Built) (is : List Interface) :
    (is.foldl ProjectIndex.addInterface index).Built := by
  induction is generalizing index with
  | nil => exact h
  | cons i is ih => exact ih (h.addInterface i)

theorem Built.foldl_addModule {index : ProjectIndex} (h : index.Built) (ms : List Module) :
    (ms.foldl ProjectIndex.addModule index).Built := by
  induction ms generalizing index with
  | nil => exact h
  | cons m ms ih => exact ih (h.addModule m)

/-- The index of a project is built. -/
theorem built_ofProject (modules : List Module) (dependencies : List Interface) :
    (ofProject modules dependencies).Built :=
  ((Built.empty.foldl_addInterface _).foldl_addInterface _).foldl_addModule _

/-! ## The interfaces of one name -/

/-- Two indexes hold the same about a module. -/
structure SameAt (path : ModuleName) (index index' : ProjectIndex) : Prop where
  interface : index.interface? path = index'.interface? path
  typeOf : ∀ constructor, index.typeOf path constructor = index'.typeOf path constructor

variable {path : ModuleName} {index index' : ProjectIndex}

/-- Indexes that hold the same about a module give the same answers about it. -/
theorem SameAt.agreesAbout (h : SameAt path index index') :
    Knowledge.AgreesAbout path index.knowledge index'.knowledge := by
  refine ⟨?_, ?_, h.typeOf⟩
  · intro name
    simp only [knowledge, exposes, h.interface]
  · intro name
    simp only [knowledge, constructorsOf, h.interface]

theorem SameAt.refl (path : ModuleName) (index : ProjectIndex) : SameAt path index index :=
  ⟨rfl, fun _ => rfl⟩

theorem SameAt.trans {index'' : ProjectIndex} (h : SameAt path index index')
    (h' : SameAt path index' index'') : SameAt path index index'' :=
  ⟨h.interface.trans h'.interface, fun c => (h.typeOf c).trans (h'.typeOf c)⟩

theorem SameAt.symm (h : SameAt path index index') : SameAt path index' index :=
  ⟨h.interface.symm, fun c => (h.typeOf c).symm⟩

/-- The same interface has the same effect. -/
theorem SameAt.addInterface (h : SameAt path index index') (i : Interface) :
    SameAt path (index.addInterface i) (index'.addInterface i) := by
  refine ⟨?_, ?_⟩
  · rw [interface?_addInterface, interface?_addInterface, h.interface]
  · intro constructor
    rw [typeOf_addInterface, typeOf_addInterface, h.typeOf]

/-- An interface of another name has no effect. -/
theorem sameAt_addInterface {i : Interface} (hi : i.name ≠ path) :
    SameAt path (index.addInterface i) index := by
  refine ⟨?_, ?_⟩
  · rw [interface?_addInterface, if_neg hi.symm]
  · intro constructor
    rw [typeOf_addInterface, if_neg hi.symm]

/-- Of all interfaces, only those of the name have an effect. -/
theorem SameAt.foldl_filter (h : SameAt path index index') (is : List Interface) :
    SameAt path (is.foldl ProjectIndex.addInterface index)
      ((is.filter (·.name = path)).foldl ProjectIndex.addInterface index') := by
  induction is generalizing index index' with
  | nil => exact h
  | cons i is ih =>
    by_cases hi : i.name = path
    · rw [List.filter_cons_of_pos (by simpa using hi)]
      exact ih (h.addInterface i)
    · rw [List.filter_cons_of_neg (by simpa using hi)]
      exact ih ((sameAt_addInterface hi).trans h)

/-- Adding a module is adding its interface. -/
theorem addModule_sameAt (path : ModuleName) (index : ProjectIndex) (m : Module) :
    SameAt path (index.addModule m) (index.addInterface (.ofModule m)) :=
  ⟨rfl, fun _ => rfl⟩

/-- Adding a module to both keeps what two indexes hold the same. -/
theorem SameAt.addModule (h : SameAt path index index') (m : Module) :
    SameAt path (index.addModule m) (index'.addModule m) :=
  ((addModule_sameAt path index m).trans (h.addInterface _)).trans
    (addModule_sameAt path index' m).symm

/-- A module of another name has no effect. -/
theorem sameAt_addModule {m : Module} (hm : m.name.value ≠ path) :
    SameAt path (index.addModule m) index := by
  apply (addModule_sameAt path index m).trans
  apply sameAt_addInterface
  rw [Interface.name_ofModule]
  exact hm

theorem SameAt.foldl_addModule (h : SameAt path index index') (ms : List Module) :
    SameAt path (ms.foldl ProjectIndex.addModule index)
      ((ms.map Interface.ofModule).foldl ProjectIndex.addInterface index') := by
  induction ms generalizing index index' with
  | nil => exact h
  | cons m ms ih =>
    exact ih ((addModule_sameAt path index m).trans (h.addInterface _))

/-- The interfaces of one name that make up the index of a project. -/
def interfacesNamed (path : ModuleName) (modules : List Module) (dependencies : List Interface) :
    List Interface :=
  (Core.interfaces ++ dependencies ++ modules.map Interface.ofModule).filter (·.name = path)

/-- About a module, the index of a project holds what the interfaces of its name say. -/
theorem ofProject_sameAt (path : ModuleName) (modules : List Module)
    (dependencies : List Interface) :
    SameAt path (ofProject modules dependencies)
      ((interfacesNamed path modules dependencies).foldl addInterface empty) := by
  have hmodules : SameAt path (ofProject modules dependencies)
      ((Core.interfaces ++ dependencies ++ modules.map Interface.ofModule).foldl addInterface
        empty) := by
    rw [List.foldl_append, List.foldl_append]
    exact (SameAt.refl path _).foldl_addModule modules
  exact hmodules.trans ((SameAt.refl path empty).foldl_filter _)

end ProjectIndex

end Terse
