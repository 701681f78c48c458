import Terse.Config.Contents
import Terse.Proofs.Config.Code
import Terse.Proofs.Lint.Analysis

/-!
# What a configuration file leads to

A file is checked before its configuration is built, and building passes over texts that are no
codes. The check makes sure that there are none: either the file is refused for the first thing
that is wrong with it, or each of its codes counts in deciding which rules run.
-/

namespace Terse

open RuleCode (IsKnown FirstUnknown)

namespace Config

variable {c : Config}

theorem exists_validate_eq_ok_iff :
    (∃ types, c.validate = .ok types) ↔ ∀ n ∈ c.ignoredTypes, isTypeName n = true := by
  have hnone : (c.ignoredTypes.eraseDups.filter (!isTypeName ·)).isEmpty = true ↔
      ∀ n ∈ c.ignoredTypes, isTypeName n = true := by
    simp [List.isEmpty_iff, List.filter_eq_nil_iff, List.mem_eraseDups]
  rw [← hnone, validate]
  split <;> simp_all

/-- All malformed names are reported at once, each of them once. -/
theorem validate_eq_error_iff {e : ConfigError} :
    c.validate = .error e ↔ (∃ n ∈ c.ignoredTypes, isTypeName n = false) ∧
      e = .invalidTypeNames (c.ignoredTypes.eraseDups.filter (!isTypeName ·)) := by
  have hsome : (c.ignoredTypes.eraseDups.filter (!isTypeName ·)).isEmpty = true ↔
      ¬ ∃ n ∈ c.ignoredTypes, isTypeName n = false := by
    simp [List.isEmpty_iff, List.filter_eq_nil_iff, List.mem_eraseDups]
  rw [validate]
  split
  · rename_i hempty
    simp [hsome.mp hempty]
  · rename_i hempty
    rw [hsome, not_not] at hempty
    simp only [hempty, true_and, Except.error.injEq]
    exact eq_comm

/-- A configuration whose types are well-formed can be used, and runs the rules that it enables. -/
theorem exists_ofConfig (h : ∀ n ∈ c.ignoredTypes, isTypeName n = true) :
    ∃ s, Simplifier.ofConfig c = .ok s ∧ s.config = c := by
  rcases exists_validate_eq_ok_iff.mpr h with ⟨types, htypes⟩
  refine ⟨_, bind_ok_iff.mpr ⟨types, htypes, rfl⟩, rfl⟩

end Config

theorem Simplifier.ruleCodes_eq {c : Config} {s : Simplifier} (h : Simplifier.ofConfig c = .ok s) :
    s.ruleCodes = RuleCode.all.filter c.isEnabled := by
  rw [ruleCodes, rules_eq h, List.map_map]
  exact List.map_id'' Rule.code_ofCode _

/-- The codes are in their order, and differ. -/
theorem RuleCode.all_pairwise : all.Pairwise fun r r' => r.code < r'.code := by
  decide +kernel

namespace ConfigFile

variable {f : ConfigFile}

/-- A rule is enabled when the selection, if there is one, has a text that names it, and the
exclusion has none. -/
theorem isEnabled_described_iff {r : RuleCode} :
    f.described.isEnabled r = true ↔
      (f.select = [] ∨ ∃ t ∈ f.select, r.IsNamedBy t) ∧ ∀ t ∈ f.exclude, ¬ r.IsNamedBy t := by
  have hread : ∀ texts : List String,
      (texts.filterMap RuleCode.ofText?).contains r = true ↔ ∃ t ∈ texts, r.IsNamedBy t := by
    intro texts
    simp only [List.contains_iff_mem, List.mem_filterMap, RuleCode.ofText?_eq_some_iff]
  have hignored : f.described.ignore.contains r = false ↔ ∀ t ∈ f.exclude, ¬ r.IsNamedBy t := by
    rw [← Bool.not_eq_true, described, hread]
    simp
  rw [Config.isEnabled, Bool.and_eq_true, Bool.not_eq_true', hignored, and_comm]
  refine and_congr_left fun _ => ?_
  rw [described]
  cases f.select with
  | nil => simp
  | cons t texts => simpa using hread (t :: texts)

theorem check_eq_ok_iff :
    f.check = .ok () ↔ (∀ t ∈ f.select ++ f.exclude, IsKnown t) ∧
      ∀ n ∈ f.ignoreTypes, Config.isTypeName n = true := by
  have htypes : (∃ types, f.described.validate = .ok types) ↔
      ∀ n ∈ f.ignoreTypes, Config.isTypeName n = true := Config.exists_validate_eq_ok_iff
  rw [List.forall_mem_append, ← Config.exists_codes_eq_ok_iff, ← Config.exists_codes_eq_ok_iff,
    ← htypes]
  simp only [check, bind_ok_iff, pure_ok_iff, and_true]
  constructor
  · rintro ⟨select, hselect, exclude, hexclude, types, htypes⟩
    exact ⟨⟨⟨select, hselect⟩, ⟨exclude, hexclude⟩⟩, types, htypes⟩
  · rintro ⟨⟨⟨select, hselect⟩, ⟨exclude, hexclude⟩⟩, types, htypes⟩
    exact ⟨select, hselect, exclude, hexclude, types, htypes⟩

/-- The first thing that is wrong is reported: an unknown code among the selected ones, then one
among the excluded ones, then the malformed names of types. -/
theorem check_eq_error_iff {e : ConfigError} :
    f.check = .error e ↔
      (∃ text, e = .unknownRuleCode text ∧ FirstUnknown f.select text) ∨
      (∀ t ∈ f.select, IsKnown t) ∧
          (∃ text, e = .unknownRuleCode text ∧ FirstUnknown f.exclude text) ∨
      (∀ t ∈ f.select ++ f.exclude, IsKnown t) ∧
        (∃ n ∈ f.ignoreTypes, Config.isTypeName n = false) ∧
        e = .invalidTypeNames (f.ignoreTypes.eraseDups.filter (!Config.isTypeName ·)) := by
  have htypes : f.described.validate = .error e ↔
      (∃ n ∈ f.ignoreTypes, Config.isTypeName n = false) ∧
        e = .invalidTypeNames (f.ignoreTypes.eraseDups.filter (!Config.isTypeName ·)) :=
    Config.validate_eq_error_iff
  rw [List.forall_mem_append, ← Config.exists_codes_eq_ok_iff, ← Config.exists_codes_eq_ok_iff,
    ← htypes, ← Config.codes_eq_error_iff, ← Config.codes_eq_error_iff]
  have hdone : (pure () : Except ConfigError Unit) ≠ .error e := by
    intro h
    cases h
  simp only [check, bind_error_iff, hdone, and_false, exists_false, or_false, exists_and_right,
    and_or_left, exists_or, and_assoc]

theorem toConfig_eq_ok_iff {c : Config} :
    f.toConfig = .ok c ↔ f.check = .ok () ∧ c = f.described := by
  rw [toConfig, bind_ok_iff]
  constructor
  · rintro ⟨_, hcheck, h⟩
    exact ⟨hcheck, (pure_ok_iff.mp h).symm⟩
  · rintro ⟨hcheck, rfl⟩
    exact ⟨(), hcheck, rfl⟩

theorem toConfig_eq_error_iff {e : ConfigError} :
    f.toConfig = .error e ↔ f.check = .error e := by
  rw [toConfig, bind_error_iff]
  constructor
  · rintro (h | ⟨_, -, h⟩)
    · exact h
    · cases h
  · exact .inl

end ConfigFile

/-- A file is refused for its first selected text that names no rule, else for its first excluded
one, else for its malformed names of types, and for nothing else. Otherwise it has a configuration
that a simplifier can be made of, and of all rules those run, in the order of their codes and each
once, that the selection names, if there is one, and the exclusion does not name. -/
theorem configuration_outcome (f : ConfigFile) :
    (∀ e, f.toConfig = .error e ↔
      (∃ text, e = .unknownRuleCode text ∧ FirstUnknown f.select text) ∨
      (∀ t ∈ f.select, IsKnown t) ∧
          (∃ text, e = .unknownRuleCode text ∧ FirstUnknown f.exclude text) ∨
      (∀ t ∈ f.select ++ f.exclude, IsKnown t) ∧
        (∃ n ∈ f.ignoreTypes, Config.isTypeName n = false) ∧
        e = .invalidTypeNames (f.ignoreTypes.eraseDups.filter (!Config.isTypeName ·))) ∧
    ((∃ c, f.toConfig = .ok c) ↔ (∀ t ∈ f.select ++ f.exclude, IsKnown t) ∧
      ∀ n ∈ f.ignoreTypes, Config.isTypeName n = true) ∧
    ∀ c, f.toConfig = .ok c → ∃ s, Simplifier.ofConfig c = .ok s ∧ s.config = c ∧
      s.rules = s.ruleCodes.map Rule.ofCode ∧
      s.ruleCodes.Pairwise (fun r r' => r.code < r'.code) ∧
      ∀ r, r ∈ s.ruleCodes ↔
        (f.select = [] ∨ ∃ t ∈ f.select, r.IsNamedBy t) ∧ ∀ t ∈ f.exclude, ¬ r.IsNamedBy t := by
  refine ⟨?_, ?_, ?_⟩
  · intro e
    rw [ConfigFile.toConfig_eq_error_iff, ConfigFile.check_eq_error_iff]
  · simp only [ConfigFile.toConfig_eq_ok_iff, ConfigFile.check_eq_ok_iff, exists_and_left,
      exists_eq, and_true]
  · intro c hc
    rcases ConfigFile.toConfig_eq_ok_iff.mp hc with ⟨hcheck, rfl⟩
    have htypes : ∀ n ∈ f.described.ignoredTypes, Config.isTypeName n = true :=
      (ConfigFile.check_eq_ok_iff.mp hcheck).2
    rcases Config.exists_ofConfig htypes with ⟨s, hs, hconfig⟩
    have hcodes := Simplifier.ruleCodes_eq hs
    refine ⟨s, hs, hconfig, ?_, ?_, ?_⟩
    · rw [hcodes, Simplifier.rules_eq hs]
    · rw [hcodes]
      exact RuleCode.all_pairwise.filter _
    · intro r
      rw [hcodes, List.mem_filter, and_iff_right r.mem_all, ConfigFile.isEnabled_described_iff]

/-- Selected codes may be spaced, small and repeated; an exclusion of one of them wins. -/
theorem configuration_outcome_spaced_codes :
    ∃ c s, ConfigFile.toConfig ⟨[" sim001\t", "Sim013", "SIM013"], ["sim013 "], []⟩ = .ok c ∧
      Simplifier.ofConfig c = .ok s ∧
      ∀ r, r ∈ s.ruleCodes ↔
        (∃ t ∈ [" sim001\t", "Sim013", "SIM013"], r.IsNamedBy t) ∧ ¬ r.IsNamedBy "sim013 " := by
  have hread : (ConfigFile.toConfig ⟨[" sim001\t", "Sim013", "SIM013"], ["sim013 "], []⟩).toOption =
      some ⟨some [.booleanOperators, .list, .list], [.list], []⟩ := by
    decide +kernel
  have hc := eq_ok_of_toOption hread
  rcases (configuration_outcome _).2.2 _ hc with ⟨s, hs, -, -, -, hrules⟩
  refine ⟨_, s, hc, hs, ?_⟩
  intro r
  simpa using hrules r

end Terse
