import Mathlib.Data.List.Nodup
import Terse.Proofs.Lint.Analysis
import Terse.Proofs.Project.Lookup
import Terse.Proofs.Rule.Agreement

/-!
# Findings depend on imports only

What is found in a module depends on what is known about the module and about those it imports. All
other modules and libraries of a project may come and go without any effect on its findings.
-/

namespace Terse

/-! ## Two states of knowledge -/

theorem Context.path_mem_visible {m : Module} {knowledge : Knowledge} {ignoredTypes : List TypeName}
    {scope : List String} {isFree : Bool} {q : QualifiedName} {r : ResolvedName}
    (h : Context.resolve ⟨ModuleContext.ofModule m knowledge ignoredTypes, scope, isFree⟩ q =
      some r) : r.path ∈ m.visible := by
  unfold Context.resolve at h
  split at h
  · cases h
  · exact Lookup.path_mem_visible h

/-- Contexts in one module agree when the same is known about all modules visible in it. -/
theorem ModuleContext.ofModule_agrees {m : Module} {index index' : ProjectIndex}
    (hindex : index.Built)
    (hk : ∀ path ∈ m.visible, Knowledge.AgreesAbout path index.knowledge index'.knowledge)
    (ignoredTypes : List TypeName) (scope : List String) (isFree : Bool) :
    Context.Agrees ⟨ofModule m index.knowledge ignoredTypes, scope, isFree⟩
      ⟨ofModule m index'.knowledge ignoredTypes, scope, isFree⟩ where
  source := rfl
  isFree := rfl
  resolve := by
    funext q
    simp only [Context.resolve, ofModule, Lookup.resolve_agrees hk]
  qualify := by
    funext path name
    simp only [Context.qualify, ofModule, Lookup.qualify_agrees hk]
  ignoredTypes := rfl
  typeOf q r hr := (hk r.path (Context.path_mem_visible hr)).typeOf r.name
  constructorsOf q r t hr ht := by
    -- the type is one of the module that the constructor comes from
    have hpath : t.path = r.path := hindex.path_of_typeOf ht
    have hknown := (hk r.path (Context.path_mem_visible hr)).constructorsOf t.name
    rw [← hpath] at hknown
    exact hknown

/-- The analysis asks the module's context only through the contexts of its sites. -/
theorem findingsOf_agrees {rules : List Rule} (hrules : rules ⊆ Rule.all) {m m' : ModuleContext}
    (h : ∀ scope isFree, Context.Agrees ⟨m, scope, isFree⟩ ⟨m', scope, isFree⟩)
    (sites : List Site) : findingsOf rules m sites = findingsOf rules m' sites := by
  unfold findingsOf
  congr 1
  apply List.foldl_ext
  intro p site _
  rw [Progress.visit, Progress.visit, Rule.firstFinding_agrees (h _ _) hrules]

/-! ## Two projects -/

namespace Project

/-- The modules of a project. -/
def sources (p : Project) : List Module := p.modules.map (·.module)

/-- No two modules have the same name, and no two dependencies. -/
def Distinct (p : Project) : Prop :=
  (p.sources.map (·.name.value)).Nodup ∧ (p.dependencies.map Interface.name).Nodup

/-- Two projects have the same modules and dependencies of some names, in any order. -/
def SameNamed (names : List ModuleName) (p p' : Project) : Prop :=
  (∀ m : Module, m.name.value ∈ names → (m ∈ p.sources ↔ m ∈ p'.sources)) ∧
    ∀ i : Interface, i.name ∈ names → (i ∈ p.dependencies ↔ i ∈ p'.dependencies)

end Project

section

variable {α β : Type} [DecidableEq β] (key : α → β)

theorem filter_key_eq_singleton {xs : List α} (hxs : (xs.map key).Nodup) {x : α} (hx : x ∈ xs) :
    xs.filter (key · = key x) = [x] := by
  induction xs with
  | nil => cases hx
  | cons a xs ih =>
    rw [List.map_cons, List.nodup_cons] at hxs
    rcases List.mem_cons.mp hx with rfl | hx
    · rw [List.filter_cons_of_pos (by simp), List.filter_eq_nil_iff.mpr]
      intro y hy hkey
      apply hxs.1
      rw [← of_decide_eq_true hkey]
      exact List.mem_map_of_mem hy
    · have hne : key a ≠ key x := by
        intro heq
        apply hxs.1
        rw [heq]
        exact List.mem_map_of_mem hx
      rw [List.filter_cons_of_neg (by simpa using hne)]
      exact ih hxs.2 hx

/-- Where keys are distinct, the elements with one key are known by membership. -/
theorem filter_key_eq {xs ys : List α} (hxs : (xs.map key).Nodup) (hys : (ys.map key).Nodup) {k : β}
    (h : ∀ x, key x = k → (x ∈ xs ↔ x ∈ ys)) :
    xs.filter (key · = k) = ys.filter (key · = k) := by
  by_cases hsome : ∃ x ∈ xs, key x = k
  · rcases hsome with ⟨x, hx, rfl⟩
    rw [filter_key_eq_singleton key hxs hx, filter_key_eq_singleton key hys ((h x rfl).mp hx)]
  · have hnone : xs.filter (key · = k) = [] := by
      rw [List.filter_eq_nil_iff]
      intro x hx hkey
      exact hsome ⟨x, hx, of_decide_eq_true hkey⟩
    rw [hnone, eq_comm, List.filter_eq_nil_iff]
    intro y hy hkey
    have hkey := of_decide_eq_true hkey
    exact hsome ⟨y, (h y hkey).mpr hy, hkey⟩

end

namespace Project

variable {p p' : Project} {names : List ModuleName}

/-- The interfaces of a name are the same in both projects, in the same order. -/
theorem SameNamed.interfacesNamed_eq (h : SameNamed names p p') (hp : p.Distinct)
    (hp' : p'.Distinct) {path : ModuleName} (hpath : path ∈ names) :
    ProjectIndex.interfacesNamed path p.sources p.dependencies =
      ProjectIndex.interfacesNamed path p'.sources p'.dependencies := by
  have hdependencies : p.dependencies.filter (·.name = path) =
      p'.dependencies.filter (·.name = path) := by
    apply filter_key_eq Interface.name hp.2 hp'.2
    intro i hi
    exact h.2 i (hi ▸ hpath)
  have hmodules : p.sources.filter (·.name.value = path) =
      p'.sources.filter (·.name.value = path) := by
    apply filter_key_eq (fun m : Module => m.name.value) hp.1 hp'.1
    intro m hm
    exact h.1 m (hm ▸ hpath)
  simp only [ProjectIndex.interfacesNamed, List.filter_append, List.filter_map, hdependencies,
    Function.comp_def, Interface.name_ofModule, hmodules]

theorem SameNamed.agreesAbout (h : SameNamed names p p') (hp : p.Distinct) (hp' : p'.Distinct)
    {path : ModuleName} (hpath : path ∈ names) :
    Knowledge.AgreesAbout path p.index.knowledge p'.index.knowledge := by
  apply ProjectIndex.SameAt.agreesAbout
  have hsame := ProjectIndex.ofProject_sameAt path p.sources p.dependencies
  rw [h.interfacesNamed_eq hp hp' hpath] at hsame
  exact hsame.trans (ProjectIndex.ofProject_sameAt path p'.sources p'.dependencies).symm

/-- Where names are distinct, the only report about a module is the one of its analysis. -/
theorem Distinct.findings_eq (hp : p.Distinct) {s : Simplifier} {m : Module} (hm : m ∈ p.sources)
    {reports : List Report} (hreports : s.analyze p = .ok reports) {r : Report} (hr : r ∈ reports)
    (hname : r.module = m.name.value) : r.findings = s.analyzeModule m p.index.knowledge := by
  rcases bind_ok_iff.mp hreports with ⟨_, -, heq⟩
  cases heq
  rcases List.mem_map.mp hr with ⟨file, hfile, rfl⟩
  have hsame : file.module = m :=
    List.inj_on_of_nodup_map hp.1 (List.mem_map_of_mem hfile) hm hname
  rw [← hsame]

end Project

/-! ## What findings depend on -/

/-- The findings in a module are the same for any two indexes that answer alike about the module
and about all that it imports, by itself or by default. So two projects that have the same modules
and dependencies of these names report the same findings in it, whatever else they have, and in
whatever order. -/
theorem findings_depend_on_imports {c : Config} {s : Simplifier}
    (hs : Simplifier.ofConfig c = .ok s) (m : Module) :
    (∀ index index' : ProjectIndex, index.Built → index'.Built →
      (∀ path ∈ m.visible, Knowledge.AgreesAbout path index.knowledge index'.knowledge) →
      s.analyzeModule m index.knowledge = s.analyzeModule m index'.knowledge) ∧
    ∀ p p' : Project, p.Distinct → p'.Distinct → p.SameNamed m.visible p' →
      s.analyzeModule m p.index.knowledge = s.analyzeModule m p'.index.knowledge ∧
      (m ∈ p.sources → ∀ reports reports', s.analyze p = .ok reports →
        s.analyze p' = .ok reports' → ∀ r ∈ reports, ∀ r' ∈ reports', r.module = m.name.value →
          r'.module = m.name.value → r.findings = r'.findings) := by
  have hindexes : ∀ index index' : ProjectIndex, index.Built →
      (∀ path ∈ m.visible, Knowledge.AgreesAbout path index.knowledge index'.knowledge) →
      s.analyzeModule m index.knowledge = s.analyzeModule m index'.knowledge := by
    intro index index' hindex hk
    exact findingsOf_agrees (Simplifier.rules_subset hs)
      (fun scope isFree => ModuleContext.ofModule_agrees hindex hk s.ignoredTypes scope isFree) _
  refine ⟨fun index index' hindex _ hk => hindexes index index' hindex hk, ?_⟩
  intro p p' hp hp' hsame
  have hfindings : s.analyzeModule m p.index.knowledge = s.analyzeModule m p'.index.knowledge := by
    apply hindexes _ _ (ProjectIndex.built_ofProject _ _)
    intro path hpath
    exact hsame.agreesAbout hp hp' hpath
  refine ⟨hfindings, ?_⟩
  intro hm reports reports' hreports hreports' r hr r' hr' hname hname'
  have hm' : m ∈ p'.sources := (hsame.1 m List.mem_cons_self).mp hm
  rw [hp.findings_eq hm hreports hr hname, hp'.findings_eq hm' hreports' hr' hname', hfindings]

/-- The type of its patterns is imported. -/
def importingSource : String :=
  "module A exposing (..)\nimport B exposing (..)\nx t = case t of\n    P -> 1\n    Q -> 1\n"

/-- A type of two constructors. -/
def importedSource : String := "module B exposing (..)\ntype T = P | Q\n"

/-- Another type that has one of the constructors. -/
def unrelatedSource : String := "module C exposing (..)\ntype U = P | R\n"

/-- A case is covered by the constructors of an imported type. A third module that declares one of
the constructors again does not matter, nor does the order of the other two. -/
theorem findings_depend_on_imports_of_case :
    ∃ a b c s, Module.parse importingSource = .ok a ∧ Module.parse importedSource = .ok b ∧
      Module.parse unrelatedSource = .ok c ∧ Simplifier.ofConfig .default = .ok s ∧
      let p : Project := ⟨[⟨"A.elm", a⟩, ⟨"B.elm", b⟩, ⟨"C.elm", c⟩], []⟩
      let p' : Project := ⟨[⟨"B.elm", b⟩, ⟨"A.elm", a⟩], []⟩
      (s.analyzeModule a p.index.knowledge).length = 1 ∧
        s.analyzeModule a p.index.knowledge = s.analyzeModule a p'.index.knowledge ∧
        s.analyzeModule a ((ProjectIndex.core.addModule c).addModule b).knowledge =
          s.analyzeModule a (ProjectIndex.core.addModule b).knowledge := by
  have hfound : (Module.parse importingSource).toOption.any (fun a =>
      (Module.parse importedSource).toOption.any fun b =>
        (Module.parse unrelatedSource).toOption.any fun c =>
          (Simplifier.ofConfig .default).toOption.any fun s =>
            decide (a.name.value = ⟨["A"]⟩ ∧ b.name.value = ⟨["B"]⟩ ∧ c.name.value = ⟨["C"]⟩ ∧
              c.name.value ∉ a.visible ∧
              (s.analyzeModule a (ProjectIndex.ofProject [a, b, c] []).knowledge).length = 1)) =
      true := by
    decide +kernel
  rcases exists_ok_of_any hfound with ⟨a, ha, hfound⟩
  rcases exists_ok_of_any hfound with ⟨b, hb, hfound⟩
  rcases exists_ok_of_any hfound with ⟨c, hc, hfound⟩
  rcases exists_ok_of_any hfound with ⟨s, hs, hfound⟩
  rcases of_decide_eq_true hfound with ⟨hnameA, hnameB, hnameC, hhidden, hlength⟩
  rcases findings_depend_on_imports hs a with ⟨hindexes, hprojects⟩
  refine ⟨a, b, c, s, ha, hb, hc, hs, hlength, (hprojects _ _ ?_ ?_ ?_).1, ?_⟩
  · simp [Project.Distinct, Project.sources, hnameA, hnameB, hnameC]
  · simp [Project.Distinct, Project.sources, hnameA, hnameB]
  · refine ⟨?_, fun _ _ => Iff.rfl⟩
    intro m hm
    have hne : m ≠ c := by
      rintro rfl
      exact hhidden hm
    simp only [Project.sources, List.map_cons, List.map_nil, List.mem_cons, List.not_mem_nil,
      hne, or_false]
    exact or_comm
  · have hcore : ProjectIndex.core.Built := ProjectIndex.Built.empty.foldl_addInterface _
    apply hindexes _ _ ((hcore.addModule c).addModule b) (hcore.addModule b)
    intro path hpath
    have hne : c.name.value ≠ path := by
      rintro rfl
      exact hhidden hpath
    exact ((ProjectIndex.sameAt_addModule hne).addModule b).agreesAbout

end Terse
