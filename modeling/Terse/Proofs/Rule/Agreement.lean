import Terse.Proofs.Rule.Family
import Terse.Proofs.View.Agreement
import Terse.Rule.Catalog

/-!
# Rules in contexts that agree

A rule finds the same in contexts that answer alike: the same message at the same place, with the
same fix.
-/

namespace Terse

/-- The check of calls finds the same in contexts that agree. -/
def CallCheck.Respects (check : CallCheck) : Prop :=
  ∀ lib ctx ctx', ctx.Agrees ctx' → check lib ctx = check lib ctx'

/-- The rule finds the same in contexts that agree. -/
def Rule.Respects (rule : Rule) : Prop :=
  ∀ ctx ctx', ctx.Agrees ctx' → rule.check ctx = rule.check ctx'

namespace Context.Agrees

variable {ctx ctx' : Context} (h : ctx.Agrees ctx')
include h

/-! ## What families share -/

/-- Texts of expressions are taken from sources that are the same. -/
theorem texts : ctx.texts = ctx'.texts := by
  funext es
  simp only [Context.texts, h.text]

/-- Booleans are written alike, as their names are qualified alike. -/
theorem boolText : ctx.boolText = ctx'.boolText := by
  funext b
  rw [Context.boolText, Context.boolText, h.qualify]

/-- Lists are merged by the same edits. -/
theorem mergeLists : ctx.mergeLists = ctx'.mergeLists := by
  funext lists
  simp only [Context.mergeLists, h.texts]

variable (lib : Library)

/-- Functions of a library are written alike. -/
theorem library_qualify : lib.qualify ctx = lib.qualify ctx' := by
  funext name
  rw [Library.qualify, Library.qualify, h.qualify]

/-- References to a library mean the same in both contexts. -/
theorem library_isReference : lib.isReference ctx = lib.isReference ctx' := by
  funext e name
  rw [Library.isReference, Library.isReference, h.isReference]

/-- A call is replaced by the same text, with the same parentheses around it. -/
theorem replaceCall : lib.replaceCall ctx = lib.replaceCall ctx' := by
  funext call message text atomic
  rw [Library.replaceCall, Library.replaceCall, h.replaceBy]

/-- An argument is kept by the same edits. -/
theorem keepArg : lib.keepArg ctx = lib.keepArg ctx' := by
  funext call message kept
  rw [Library.keepArg, Library.keepArg, h.keepOnly]

/-- Where no argument is left to keep, the identity is written alike. -/
theorem keepArgOrIdentity : lib.keepArgOrIdentity ctx = lib.keepArgOrIdentity ctx' := by
  funext call message index
  simp only [Library.keepArgOrIdentity, Library.replaceByIdentity, h.keepArg, h.replaceCall,
    h.qualify]

/-- Where an argument is still lacking, the constant function is written alike. -/
theorem valueOrAlways : lib.valueOrAlways ctx = lib.valueOrAlways ctx' := by
  funext call message index value atomic
  simp only [Library.valueOrAlways, Library.replaceByAlways, h.replaceCall, h.qualify]

end Context.Agrees

namespace Family

variable {family : Family} (h : ∀ c ∈ family.checks, CallCheck.Respects c.2)
include h

/-- A family finds the same calls, and its checks find the same in them. -/
theorem check_respects {ctx ctx' : Context} (hctx : ctx.Agrees ctx') :
    family.check ctx = family.check ctx' := by
  funext e
  rw [check, check, hctx.ofExpr?]
  congr 1
  funext call
  simp only [checkCall]
  split
  · cases hlookup : family.checks.lookup call.function.name with
    | none => rfl
    | some check => exact congrFun (h _ (mem_of_lookup hlookup) _ _ _ hctx) call
  · rfl

/-- A rule respects agreement when all checks of its family do. -/
theorem rule_respects : family.rule.Respects := by
  intro ctx ctx' hctx
  exact check_respects h hctx

end Family

namespace Rule

/-! ## Operators, conditionals and cases -/

/-- The types of ignoring constructors are those that references lead to. -/
theorem exists_of_ignoringConstructors {ctx : Context} {patterns : List Pattern}
    {named : List (String × TypeName)} (h : patterns.mapM (ignoringConstructor? ctx) = some named)
    {name : String} {owner : TypeName} (hmem : (name, owner) ∈ named) :
    ∃ q r, ctx.resolve q = some r ∧ ctx.module.knowledge.typeOf r.path r.name = some owner := by
  induction patterns generalizing named with
  | nil =>
    rw [List.mapM_nil] at h
    cases h
    cases hmem
  | cons p ps ih =>
    simp only [List.mapM_cons, Option.bind_eq_bind, Option.bind_eq_some_iff, Option.pure_def,
      Option.some.injEq] at h
    rcases h with ⟨first, hfirst, others, hothers, rfl⟩
    rcases List.mem_cons.mp hmem with rfl | hmem
    · unfold ignoringConstructor? at hfirst
      split at hfirst
      · rename_i q args _
        split at hfirst
        · rcases Option.map_eq_some_iff.mp hfirst with ⟨t, ht, heq⟩
          rcases Option.bind_eq_some_iff.mp ht with ⟨r, hr, howner⟩
          cases heq
          exact ⟨q, r, hr, howner⟩
        · cases hfirst
      · cases hfirst
    · exact ih hothers hmem

section

variable {ctx ctx' : Context} (h : ctx.Agrees ctx')
include h

/-- A negation is looked at for a boolean or another negation, which both contexts answer alike. -/
theorem checkNotCall_agrees : checkNotCall ctx = checkNotCall ctx' := by
  funext call argument
  simp only [checkNotCall, h.bool?, h.replaceBy, h.qualify, h.argOfCall?, h.keepOnly]

/-- The same operand is kept of a comparison with a boolean. -/
theorem comparedWithBool?_agrees : comparedWithBool? ctx = comparedWithBool? ctx' := by
  funext isEqual left right
  simp only [comparedWithBool?, h.bool?]

/-- The result of a comparison is known in both contexts or in neither. -/
theorem knownComparison?_agrees : knownComparison? ctx = knownComparison? ctx' := by
  funext isEqual left right
  simp only [knownComparison?, h.areEqual]

/-- The same operands count as negated. -/
theorem negated?_agrees : negated? ctx = negated? ctx' := by
  funext e
  simp only [negated?, h.ofExpr?]

/-- Comparisons are decided by booleans, equality and negations, in this order, in both contexts. -/
theorem checkComparison_agrees : checkComparison ctx = checkComparison ctx' := by
  funext whole isEqual left right
  simp only [checkComparison, comparedWithBool?_agrees h, knownComparison?_agrees h,
    negated?_agrees h, h.keepOnly, h.replaceBy, h.qualify]

/-- The negation of a condition is written alike. -/
theorem negatedText_agrees : negatedText ctx = negatedText ctx' := by
  funext condition
  rw [negatedText, negatedText, h.qualify, h.argText]

/-- The types of constructors are known for references only. -/
theorem constructorType?_agrees : constructorType? ctx = constructorType? ctx' := by
  funext q
  rw [constructorType?, constructorType?, ← h.resolve]
  cases hr : ctx.resolve q with
  | none => rfl
  | some r => exact h.typeOf q r hr

/-- The types that are left alone are the same. -/
theorem touchesIgnoredType_agrees : touchesIgnoredType ctx = touchesIgnoredType ctx' := by
  funext patterns
  simp only [touchesIgnoredType, constructorType?_agrees h, h.ignoredTypes]

/-- A pattern that ignores what its constructor holds belongs to the same type. -/
theorem ignoringConstructor?_agrees : ignoringConstructor? ctx = ignoringConstructor? ctx' := by
  funext p
  simp only [ignoringConstructor?, constructorType?_agrees h]

/-- The constructors of a type are asked for only where a pattern leads to the type. -/
theorem coversType_agrees : coversType ctx = coversType ctx' := by
  funext patterns
  unfold coversType
  rw [← ignoringConstructor?_agrees h]
  cases hnamed : patterns.mapM (ignoringConstructor? ctx) with
  | none => rfl
  | some named =>
    rcases named with _ | ⟨⟨name, owner⟩, others⟩
    · rfl
    · have hknown : ctx.module.knowledge.constructorsOf owner =
          ctx'.module.knowledge.constructorsOf owner := by
        rcases exists_of_ignoringConstructors hnamed List.mem_cons_self with ⟨q, r, hr, howner⟩
        exact h.constructorsOf q r owner hr howner
      simp only [hknown]

/-- The same patterns count as exhaustive. -/
theorem isExhaustive_agrees : isExhaustive ctx = isExhaustive ctx' := by
  funext patterns
  rw [isExhaustive, isExhaustive, coversType_agrees h]

/-- Cases with the same result in all branches are found alike. -/
theorem checkSameBodies_agrees : checkSameBodies ctx = checkSameBodies ctx' := by
  funext whole scrutinee branches
  simp only [checkSameBodies, h.areEqual, touchesIgnoredType_agrees h, isExhaustive_agrees h,
    h.keepOnly]

/-- Patterns for booleans are recognized by what their names mean. -/
theorem boolPattern?_agrees : boolPattern? ctx = boolPattern? ctx' := by
  funext p
  simp only [boolPattern?, h.resolve]

/-- A case over a boolean becomes the same condition. -/
theorem checkBooleanCase_agrees : checkBooleanCase ctx = checkBooleanCase ctx' := by
  funext whole scrutinee branches
  simp only [checkBooleanCase, boolPattern?_agrees h, negatedText_agrees h, caseAsIf, h.text,
    h.isFree]

/-- A constant function is recognized by what its name means. -/
theorem isAlwaysCall_agrees : isAlwaysCall ctx = isAlwaysCall ctx' := by
  funext e
  simp only [isAlwaysCall, h.isReference]

/-- A chain loses the same terms. -/
theorem checkBasicsChain_agrees : checkBasicsChain ctx = checkBasicsChain ctx' := by
  funext chain
  simp only [checkBasicsChain, checkAlwaysChain, isAlwaysCall_agrees h, h.isIdentity, h.keepOnly,
    h.qualify]

theorem checkIdentity_agrees : checkIdentity ctx = checkIdentity ctx' := by
  funext call e
  simp only [checkIdentity, h.keepOnly]

theorem checkAlways_agrees : checkAlways ctx = checkAlways ctx' := by
  funext call e
  simp only [checkAlways, h.keepOnly]

end

theorem booleanOperators_respects : booleanOperators.Respects := by
  intro ctx ctx' h
  funext e
  simp only [booleanOperators, checkBooleanOperator, knownOperand, h.bool?, h.areEqual, h.keepOnly]

theorem notCalls_respects : notCalls.Respects := by
  intro ctx ctx' h
  funext e
  simp only [notCalls, checkNot, checkNotChain, checkNotCall_agrees h, h.isReference, h.qualify,
    h.ofExpr?]

/-- Comparisons use what booleans, negations and equality mean, and the names that fixes write. -/
theorem equality_respects : equality.Respects := by
  intro ctx ctx' h
  funext e
  simp only [equality, checkEquality, checkComparison_agrees h]

theorem ifExpressions_respects : ifExpressions.Respects := by
  intro ctx ctx' h
  funext e
  simp only [ifExpressions, checkIf, negatedText_agrees h, h.bool?, h.areEqual, h.keepOnly,
    h.replaceBy]

/-- Cases also use which constructors a type has; the contexts agree on the types of constructors
that can be named. -/
theorem caseExpressions_respects : caseExpressions.Respects := by
  intro ctx ctx' h
  funext e
  simp only [caseExpressions, checkCase, checkSameBodies_agrees h, checkBooleanCase_agrees h]

theorem recordUpdate_respects : recordUpdate.Respects := by
  intro ctx ctx' _
  rfl

/-- Arithmetic uses nothing but the texts of operands. -/
theorem arithmetic_respects : arithmetic.Respects := by
  intro ctx ctx' h
  funext e
  simp only [arithmetic, checkArithmetic, checkPlus, checkMinus, checkTimes, checkDivide,
    keepOperand, h.keepOnly, h.replaceBy, h.argText]

theorem numberNegation_respects : numberNegation.Respects := by
  intro ctx ctx' h
  funext e
  simp only [numberNegation, checkNegation, h.keepOnly]

theorem comparison_respects : comparison.Respects := by
  intro ctx ctx' h
  funext e
  simp only [comparison, checkOrdering, h.replaceBy, h.qualify]

/-- An operator in prefix form is rewritten from the texts of its operands. -/
theorem operatorFunctions_respects : operatorFunctions.Respects := by
  intro ctx ctx' h
  funext e
  simp only [operatorFunctions, checkOperatorFunction, h.isFree]

/-- So is a lambda that is applied. -/
theorem appliedLambda_respects : appliedLambda.Respects := by
  intro ctx ctx' h
  funext e
  simp only [appliedLambda, checkAppliedLambda, h.keepOnly]

/-- Calls of `identity` and `always`, and chains of them, use what these names mean. -/
theorem basics_respects : basics.Respects := by
  intro ctx ctx' h
  funext e
  simp only [basics, checkBasics, checkBasicsChain_agrees h, checkIdentity_agrees h,
    checkAlways_agrees h, h.ofExpr?]

end Rule

/-! ## Families of calls -/

namespace Rule.Lists

section

variable {ctx ctx' : Context} (h : ctx.Agrees ctx')
include h

/-- An empty list is recognized by its text alone. -/
theorem emptyStaysEmpty_agrees (lib : Library) :
    emptyStaysEmpty lib ctx = emptyStaysEmpty lib ctx' := by
  funext call index
  simp only [emptyStaysEmpty, replaceOnEmpty, h.replaceCall]

/-- A function that makes a list of its parameter is recognized in both contexts. -/
theorem isSingletonFunction_agrees : isSingletonFunction ctx = isSingletonFunction ctx' := by
  funext e
  simp only [isSingletonFunction, h.isReference]

/-- A function that always returns `Nothing` is recognized in both contexts. -/
theorem alwaysNothing_agrees : alwaysNothing ctx = alwaysNothing ctx' := by
  funext function
  simp only [alwaysNothing, h.constant?, h.isReference]

/-- The same elements are merged, by the same edits. -/
theorem concatMany_agrees (lib : Library) : concatMany lib ctx = concatMany lib ctx' := by
  funext call first last elements
  simp only [concatMany, h.mergeLists]

/-- Lists around `++` are joined alike. -/
theorem checkConcatOperator_agrees : checkConcatOperator ctx = checkConcatOperator ctx' := by
  funext whole left right
  simp only [checkConcatOperator, h.keepOnly, h.mergeLists, h.text, h.argText]

end

/-- Each check unfolds to questions on which the contexts agree. -/
theorem family_respects : ∀ c ∈ family.checks, CallCheck.Respects c.2 := by
  simp only [family, List.forall_mem_cons]
  refine ⟨?_, ?_, ?_, ?_, ?_, ?_, ?_, ?_, ?_, ?_, ?_, ?_, ?_, ?_, ?_, ?_, ?_, ?_, ?_, ?_, ?_, ?_,
    ?_, ?_, ?_, ?_, ?_, by simp⟩
  all_goals
    intro lib ctx ctx' h
    funext call
    simp only [map, filter, filterMap, concat, concatMap, indexedMap, isEmpty, all, any,
      quantifier, range, length, replicate, reverse, fold, partition, head, tail, extremum, member,
      aggregate, take, drop, append, singleton, nothingOnEmpty, justText, replaceOnEmpty,
      emptyStaysEmpty_agrees h, isSingletonFunction_agrees h, alwaysNothing_agrees h,
      concatMany_agrees h, h.isIdentity, h.isAlwaysBool, h.isReference, h.areEqual, h.argOfCall?,
      h.keepArg, h.keepArgOrIdentity, h.replaceCall, h.valueOrAlways, h.library_qualify, h.qualify,
      h.boolText, h.text, h.texts, h.argText]

theorem rule_respects : rule.Respects := by
  intro ctx ctx' h
  funext e
  simp only [rule, check, checkConcatOperator_agrees h, checkConsOperator, h.texts,
    Family.check_respects family_respects h]

end Rule.Lists

namespace Rule.Strings

theorem onEmptyString_agrees {ctx ctx' : Context} (h : ctx.Agrees ctx') (lib : Library) :
    onEmptyString lib ctx = onEmptyString lib ctx' := by
  funext call index result
  simp only [onEmptyString, h.replaceCall]

/-- All functions of `String` respect agreement: they use literals, and names that are written. -/
theorem family_respects : ∀ c ∈ family.checks, CallCheck.Respects c.2 := by
  simp only [family, List.forall_mem_cons]
  refine ⟨?_, ?_, ?_, ?_, ?_, ?_, ?_, ?_, ?_, ?_, by simp⟩
  all_goals
    intro lib ctx ctx' h
    funext call
    simp only [isEmpty, concat, join, length, replicate, split, reverse, fromList, append,
      onEmptyString_agrees h, h.argOfCall?, h.keepArg, h.keepArgOrIdentity, h.replaceCall,
      h.valueOrAlways, h.library_qualify, h.boolText, h.argText]

theorem rule_respects : rule.Respects := by
  intro ctx ctx' h
  funext e
  simp only [rule, check, checkAppendOperator, h.keepOnly,
    Family.check_respects family_respects h]

end Rule.Strings

namespace Rule.Wrapped

section

variable {ctx ctx' : Context} (h : ctx.Agrees ctx')
include h

/-- A constructor holds the same expression in both contexts. -/
theorem payload?_agrees (lib : Library) : payload? lib ctx = payload? lib ctx' := by
  funext e constructor
  rw [payload?, payload?, h.argOfCall?]

/-- A value is made with a constructor in both contexts or in neither. -/
theorem isMadeWith_agrees (lib : Library) : isMadeWith lib ctx = isMadeWith lib ctx' := by
  funext e constructor
  rw [isMadeWith, isMadeWith, h.library_isReference, payload?_agrees h]

/-- A function and its argument are written alike. -/
theorem appliedText_agrees : appliedText ctx = appliedText ctx' := by
  funext function payload
  simp only [appliedText, h.text, h.argText]

end

/-- Maps over wrapped values ask for the identity and for a constructor. -/
theorem mapLike_respects (shape : Shape) : (mapLike shape).Respects := by
  intro lib ctx ctx' h
  funext call
  simp only [mapLike, passThrough, isMadeWith_agrees h, payload?_agrees h, appliedText_agrees h,
    h.isIdentity, h.keepArg, h.keepArgOrIdentity, h.replaceCall, h.library_qualify]

/-- Chaining asks which constructor a function adds, and which one made the value. -/
theorem andThenLike_respects (shape : Shape) : (andThenLike shape).Respects := by
  intro lib ctx ctx' h
  funext call
  simp only [andThenLike, passThrough, isMadeWith_agrees h, payload?_agrees h,
    appliedText_agrees h, h.library_isReference, h.keepArg, h.keepArgOrIdentity, h.replaceCall]

/-- A default asks which constructor made the value. -/
theorem withDefaultLike_respects (shape : Shape) : (withDefaultLike shape).Respects := by
  intro lib ctx ctx' h
  funext call
  simp only [withDefaultLike, isMadeWith_agrees h, payload?_agrees h, h.keepArg]

theorem toMaybe_respects : toMaybe.Respects := by
  intro lib ctx ctx' h
  funext call
  simp only [toMaybe, isMadeWith_agrees h, payload?_agrees h, h.replaceCall, h.qualify, h.argText]

theorem maybeFamily_respects : ∀ c ∈ maybeFamily.checks, CallCheck.Respects c.2 := by
  simp only [maybeFamily, List.forall_mem_cons]
  exact ⟨mapLike_respects _, andThenLike_respects _, withDefaultLike_respects _, by simp⟩

theorem resultFamily_respects : ∀ c ∈ resultFamily.checks, CallCheck.Respects c.2 := by
  simp only [resultFamily, List.forall_mem_cons]
  exact ⟨mapLike_respects _, mapLike_respects _, andThenLike_respects _,
    withDefaultLike_respects _, toMaybe_respects, by simp⟩

end Rule.Wrapped

namespace Rule.Collection

/-- The empty collection is recognized by what its name means. -/
theorem isEmptyCollection_agrees {ctx ctx' : Context} (h : ctx.Agrees ctx') (lib : Library) :
    isEmptyCollection lib ctx = isEmptyCollection lib ctx' := by
  funext e
  rw [isEmptyCollection, isEmptyCollection, h.library_isReference]

/-- A call on the empty collection is replaced alike if its result is written alike. -/
theorem onEmpty_respects (index : Nat) {result : Library → Context → String}
    (hresult : ∀ lib ctx ctx', ctx.Agrees ctx' → result lib ctx = result lib ctx')
    (shown : Library → String) : (onEmpty index result shown).Respects := by
  intro lib ctx ctx' h
  funext call
  simp only [onEmpty, isEmptyCollection_agrees h, h.replaceCall, hresult lib ctx ctx' h]

/-- The empty collection is written alike. -/
theorem emptyText_agrees {ctx ctx' : Context} (h : ctx.Agrees ctx') (lib : Library) :
    emptyText lib ctx = emptyText lib ctx' := by
  rw [emptyText, emptyText, h.library_qualify]

theorem emptyStaysEmpty_respects (index : Nat) : (emptyStaysEmpty index).Respects :=
  onEmpty_respects index (fun lib _ _ h => emptyText_agrees h lib) _

theorem onEmptyBool_respects (index : Nat) (value : Bool) : (onEmptyBool index value).Respects :=
  onEmpty_respects index (fun _ _ _ h => congrFun h.boolText value) _

theorem onEmptyText_respects (index : Nat) (text : String) : (onEmptyText index text).Respects :=
  onEmpty_respects index (fun _ _ _ _ => rfl) _

theorem partition_respects : partition.Respects :=
  onEmpty_respects 1 (fun lib _ _ h => congrArg pairText (emptyText_agrees h lib)) _

theorem fromList_respects : fromList.Respects := by
  intro lib ctx ctx' h
  funext call
  simp only [fromList, h.replaceCall, emptyText_agrees h]

theorem setFromList_respects : setFromList.Respects := by
  intro lib ctx ctx' h
  funext call
  simp only [setFromList, fromList_respects lib ctx ctx' h, h.replaceCall, h.library_qualify,
    h.argText]

theorem setMap_respects : setMap.Respects := by
  intro lib ctx ctx' h
  funext call
  simp only [setMap, emptyStaysEmpty_respects _ lib ctx ctx' h, h.isIdentity, h.keepArgOrIdentity]

/-- A call of `Set.filter` asks for a test with a known result, and for the empty set. -/
theorem setFilter_respects : setFilter.Respects := by
  intro lib ctx ctx' h
  funext call
  simp only [setFilter, emptyStaysEmpty_respects _ lib ctx ctx' h, emptyText_agrees h,
    h.isAlwaysBool, h.keepArgOrIdentity, h.valueOrAlways]

theorem union_respects : union.Respects := by
  intro lib ctx ctx' h
  funext call
  simp only [union, isEmptyCollection_agrees h, h.keepArg]

/-- An intersection asks which of the two sets is empty. -/
theorem intersect_respects : intersect.Respects := by
  intro lib ctx ctx' h
  funext call
  simp only [intersect, isEmptyCollection_agrees h, emptyStaysEmpty_respects _ lib ctx ctx' h]

theorem diff_respects : diff.Respects := by
  intro lib ctx ctx' h
  funext call
  simp only [diff, isEmptyCollection_agrees h, emptyStaysEmpty_respects _ lib ctx ctx' h, h.keepArg]

/-- All functions of `Set` respect agreement. -/
theorem setFamily_respects : ∀ c ∈ setFamily.checks, CallCheck.Respects c.2 := by
  simp only [setFamily, List.forall_mem_cons]
  exact ⟨setMap_respects, setFilter_respects, onEmptyBool_respects 0 true,
    onEmptyBool_respects 1 false, setFromList_respects, onEmptyText_respects 0 "[]",
    onEmptyText_respects 0 "0", emptyStaysEmpty_respects 1, union_respects, intersect_respects,
    diff_respects, partition_respects, by simp⟩

/-- All functions of `Dict` respect agreement. -/
theorem dictFamily_respects : ∀ c ∈ dictFamily.checks, CallCheck.Respects c.2 := by
  simp only [dictFamily, List.forall_mem_cons]
  exact ⟨onEmptyBool_respects 0 true, fromList_respects, onEmptyText_respects 0 "[]",
    onEmptyText_respects 0 "[]", onEmptyText_respects 0 "[]", onEmptyText_respects 0 "0",
    onEmptyBool_respects 1 false, emptyStaysEmpty_respects 1, emptyStaysEmpty_respects 1,
    union_respects, emptyStaysEmpty_respects 1, partition_respects, by simp⟩

end Rule.Collection

namespace Rule.Effect

/-- The effect that does nothing is recognized by what its name means. -/
theorem isNone_agrees {ctx ctx' : Context} (h : ctx.Agrees ctx') (lib : Library) :
    isNone lib ctx = isNone lib ctx' := by
  funext e
  rw [isNone, isNone, h.library_isReference]

/-- A batch asks which of its effects do nothing. -/
theorem batch_respects : batch.Respects := by
  intro lib ctx ctx' h
  funext call
  simp only [batch, dropNone, isNone_agrees h, h.keepArg, h.replaceCall, h.library_qualify]

theorem map_respects : map.Respects := by
  intro lib ctx ctx' h
  funext call
  simp only [map, isNone_agrees h, h.isIdentity, h.keepArgOrIdentity, h.replaceCall,
    h.library_qualify]

theorem cmdFamily_respects : ∀ c ∈ cmdFamily.checks, CallCheck.Respects c.2 := by
  simp only [cmdFamily, List.forall_mem_cons]
  exact ⟨batch_respects, map_respects, by simp⟩

theorem subFamily_respects : ∀ c ∈ subFamily.checks, CallCheck.Respects c.2 := by
  simp only [subFamily, List.forall_mem_cons]
  exact ⟨batch_respects, map_respects, by simp⟩

end Rule.Effect

/-! ## All rules -/

namespace Rule

/-- Every rule finds the same in contexts that agree. -/
theorem ofCode_respects (code : RuleCode) : (ofCode code).Respects := by
  cases code with
  | booleanOperators => exact booleanOperators_respects
  | notCalls => exact notCalls_respects
  | equality => exact equality_respects
  | ifExpressions => exact ifExpressions_respects
  | caseExpressions => exact caseExpressions_respects
  | recordUpdate => exact recordUpdate_respects
  | arithmetic => exact arithmetic_respects
  | numberNegation => exact numberNegation_respects
  | comparison => exact comparison_respects
  | operatorFunctions => exact operatorFunctions_respects
  | appliedLambda => exact appliedLambda_respects
  | basics => exact basics_respects
  | list => exact Lists.rule_respects
  | string => exact Strings.rule_respects
  | maybe => exact Family.rule_respects Wrapped.maybeFamily_respects
  | result => exact Family.rule_respects Wrapped.resultFamily_respects
  | set => exact Family.rule_respects Collection.setFamily_respects
  | dict => exact Family.rule_respects Collection.dictFamily_respects
  | cmd => exact Family.rule_respects Effect.cmdFamily_respects
  | sub => exact Family.rule_respects Effect.subFamily_respects

/-- The first rule that reports finds the same in contexts that agree. -/
theorem firstFinding_agrees {ctx ctx' : Context} (h : ctx.Agrees ctx') {rules : List Rule}
    (hrules : rules ⊆ all) (e : Expr) : firstFinding rules ctx e = firstFinding rules ctx' e := by
  unfold firstFinding
  induction rules with
  | nil => rfl
  | cons rule rules ih =>
    rcases List.mem_map.mp (hrules List.mem_cons_self) with ⟨code, -, rfl⟩
    rw [List.findSome?_cons, List.findSome?_cons, ofCode_respects code ctx ctx' h,
      ih fun r hr => hrules (List.mem_cons_of_mem _ hr)]

end Rule

end Terse
