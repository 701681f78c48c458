import Terse.Proofs.Lint.Analysis
import Terse.Proofs.Lint.Node
import Terse.Proofs.Rule.Arguments
import Terse.Proofs.View.ListEvaluation

/-!
# Fixes of list calls keep the value

A call of a function of `List` with all its arguments is fixed by what it is worth: by a part of it
or by a text that is written for its value. The calls that are rewritten inside stay calls, and are
left out here.
-/

namespace Terse

/-! ## What a fix leaves -/

namespace ListMeaning

variable {ctx : Context} {Value : Type} (M : ListMeaning ctx Value) (e : Expr)

/-- The names that fixes of list calls write. -/
def writtenNames : List ResolvedName :=
  [⟨Core.basics, "True"⟩, ⟨Core.basics, "False"⟩, ⟨Core.maybe, "Nothing"⟩, ⟨Core.maybe, "Just"⟩]

/-- A text is made of texts in `e` and of some names; it has a value when it is read in the place of
`e`, where the names may mean other things than they are written for. If the flag is set, the text
can stand as an argument. -/
inductive Written : Bool → String → List ResolvedName → Value → Prop where
  | part {x : Expr} (h : x ∈ e.nodes) : Written false (ctx.text x.range) [] (M.value x)
  | argument {x : Expr} (h : x ∈ e.nodes) : Written true (ctx.argText x) [] (M.value x)
  | elements {xs : List Expr} (h : ∀ x ∈ xs, x ∈ e.nodes) :
    Written true (Context.listText (ctx.texts xs)) [] (M.list (xs.map M.value))
  | number (n : Nat) : Written true (toString n) [] (M.int n)
  | boolean (b : Bool) :
    Written true (ctx.boolText b) [⟨Core.basics, boolName b⟩]
      (M.value (.var e.range (ctx.reference ⟨Core.basics, boolName b⟩)))
  | nothing :
    Written true (ctx.qualify Core.maybe "Nothing") [⟨Core.maybe, "Nothing"⟩]
      (M.value (.var e.range (ctx.reference ⟨Core.maybe, "Nothing"⟩)))
  | just {text : String} {names : List ResolvedName} {v : Value} (h : Written true text names v) :
    Written false (Rule.Lists.justText ctx text) (⟨Core.maybe, "Just"⟩ :: names)
      (M.apply (M.value (.var e.range (ctx.reference ⟨Core.maybe, "Just"⟩))) v)
  | pair {flag flag' : Bool} {text text' : String} {names names' : List ResolvedName} {v v' : Value}
    (h : Written flag text names v) (h' : Written flag' text' names' v') :
    Written true ("( " ++ text ++ ", " ++ text' ++ " )") (names ++ names') (M.pair v v')

/-- The edits leave something in the place of `e`: names that are written, and a value. -/
inductive Leaves : List Edit → List ResolvedName → Value → Prop where
  /-- A part is kept. -/
  | part {kept : Expr} (h : kept ∈ e.nodes) :
    Leaves (ctx.keepOnly e.range kept) [] (M.value kept)
  /-- A text is written. -/
  | text {atomic : Bool} {text : String} {names : List ResolvedName} {v : Value}
    (h : Written M e atomic text names v) : Leaves [ctx.replaceBy e.range text atomic] names v
  /-- Lists are joined to one list, and what is around them goes. -/
  | joined {first last : Expr} {lists : List Expr} (h : ∀ l ∈ lists, l ∈ e.nodes)
    (hfirst : lists.head? = some first) (hlast : lists.getLast? = some last) :
    Leaves (.remove ⟨e.range.start, first.range.start⟩ ::
      .remove ⟨last.range.stop, e.range.stop⟩ :: ctx.mergeLists lists) []
      (M.list (lists.flatMap fun l => (l.list?.getD []).map M.value))

/-- A text is written that has the value if its names mean what they are written for. -/
def Writes (flag : Bool) (text : String) (v : Value) : Prop :=
  ∃ names v', M.Written e flag text names v' ∧ ((∀ n ∈ names, ctx.WritesName n) → v' = v)

/-- The finding has a fix, and the fix leaves the value of `e` if the names that it writes mean what
they are written for. -/
def Keeps (f : Finding) : Prop :=
  ∃ edits names v, f.fix = some edits ∧ M.Leaves e edits names v ∧
    ((∀ n ∈ names, ctx.WritesName n) → v = M.value e)

/-- The expression is a call of a function of `List` with these arguments. The call and the
arguments are well typed, and equal parts have equal values. -/
structure Calls (call : Call) (name : String) (args : List Expr) : Prop where
  args_eq : call.args = args
  applied : e.applied? ctx = some (⟨Core.list, name⟩, args)
  range : call.range = e.range
  inside : ∀ a ∈ args, a ∈ e.nodes
  typed : M.Typed e
  typed_args : ∀ a ∈ args, M.Typed a
  respects : M.RespectsEquality e

variable {M e}

/-! ### Texts that are written -/

/-- The names in a text that is written are names that fixes write. -/
theorem Written.mem_writtenNames {flag : Bool} {text : String} {names : List ResolvedName}
    {v : Value} (h : M.Written e flag text names v) : ∀ n ∈ names, n ∈ writtenNames := by
  induction h with
  | part | argument | elements | number => exact List.forall_mem_nil _
  | boolean b => cases b <;> simp [writtenNames, boolName]
  | nothing => simp [writtenNames]
  | just _ ih => exact List.forall_mem_cons.mpr ⟨by simp [writtenNames], ih⟩
  | pair _ _ ih ih' => exact List.forall_mem_append.mpr ⟨ih, ih'⟩

/-- A fix of a list call writes no names but those of booleans and of optional values. -/
theorem Leaves.mem_writtenNames {edits : List Edit} {names : List ResolvedName} {v : Value}
    (h : M.Leaves e edits names v) : ∀ n ∈ names, n ∈ writtenNames := by
  cases h with
  | part | joined => exact List.forall_mem_nil _
  | text h => exact h.mem_writtenNames

/-- A text without names has its value wherever it stands. -/
theorem Written.writes {flag : Bool} {text : String} {v : Value} (h : M.Written e flag text [] v) :
    M.Writes e flag text v :=
  ⟨[], v, h, fun _ => rfl⟩

namespace Writes

/-- The text of a part has the value of the part. -/
theorem part {x : Expr} (h : x ∈ e.nodes) : M.Writes e false (ctx.text x.range) (M.value x) :=
  (Written.part h).writes

/-- The text of a part as an argument has the value of the part. -/
theorem argument {x : Expr} (h : x ∈ e.nodes) : M.Writes e true (ctx.argText x) (M.value x) :=
  (Written.argument h).writes

/-- Texts of parts in brackets have the list of their values. -/
theorem elements {xs : List Expr} (h : ∀ x ∈ xs, x ∈ e.nodes) :
    M.Writes e true (Context.listText (ctx.texts xs)) (M.list (xs.map M.value)) :=
  (Written.elements h).writes

theorem number (n : Nat) : M.Writes e true (toString n) (M.int n) :=
  (Written.number n).writes

/-- The text of a boolean has its value when its name means it. -/
theorem boolean (b : Bool) : M.Writes e true (ctx.boolText b) (M.bool b) := by
  refine ⟨_, _, .boolean b, fun hnames => ?_⟩
  exact M.boolean _ _ b (hnames _ List.mem_cons_self)

/-- The text of `Nothing` has its value when the name means it. -/
theorem nothing : M.Writes e true (ctx.qualify Core.maybe "Nothing") (M.maybe none) := by
  refine ⟨_, _, .nothing, fun hnames => ?_⟩
  exact M.nothing _ _ (hnames _ List.mem_cons_self)

/-- The text of `Just` before an argument has its value when the name means it. -/
theorem just {text : String} {v : Value} (h : M.Writes e true text v) :
    M.Writes e false (Rule.Lists.justText ctx text) (M.maybe (some v)) := by
  rcases h with ⟨names, v', hwritten, hmeans⟩
  refine ⟨_, _, .just hwritten, fun hnames => ?_⟩
  obtain ⟨hjust, hrest⟩ := List.forall_mem_cons.mp hnames
  rw [hmeans hrest]
  exact M.just _ _ v hjust

/-- Two texts in parentheses have the pair of their values. -/
theorem pair {flag flag' : Bool} {text text' : String} {v v' : Value} (h : M.Writes e flag text v)
    (h' : M.Writes e flag' text' v') :
    M.Writes e true ("( " ++ text ++ ", " ++ text' ++ " )") (M.pair v v') := by
  rcases h with ⟨names, w, hwritten, hmeans⟩
  rcases h' with ⟨names', w', hwritten', hmeans'⟩
  refine ⟨_, _, .pair hwritten hwritten', fun hnames => ?_⟩
  obtain ⟨hleft, hright⟩ := List.forall_mem_append.mp hnames
  rw [hmeans hleft, hmeans' hright]

theorem empty : M.Writes e true "[]" (M.list []) := by
  have hnone : ∀ x ∈ ([] : List Expr), x ∈ e.nodes := List.forall_mem_nil _
  exact .elements hnone

end Writes

namespace Calls

variable {call : Call} {name message : String} {args : List Expr} (s : M.Calls e call name args)
include s

theorem arg? (index : Nat) : call.arg? index = args[index]? := by
  rw [Call.arg?, s.args_eq]

theorem inside_of_getElem? {index : Nat} {a : Expr} (ha : args[index]? = some a) : a ∈ e.nodes :=
  s.inside a (List.mem_of_getElem? ha)

/-- The value of the call is what the function gives. -/
theorem value_eq {vs : List Value} {v : Value} (h : M.Gives name vs v)
    (hvs : args.map M.value = vs) : M.value e = v := by
  subst hvs
  exact M.call e name args v s.applied h

/-- An argument has the type that the function asks for. -/
theorem has (index : Nat) {types : List ListValues.ArgumentType} {type : ListValues.ArgumentType}
    {a : Expr} (htypes : ListValues.signatures.lookup name = some types)
    (hlength : args.length = types.length) (ha : args[index]? = some a)
    (htype : types[index]? = some type) : M.Has type (M.value a) :=
  s.typed name args types s.applied htypes hlength index a type ha htype

/-- A fix that keeps a part keeps the value when the part has it. -/
theorem keepArg (lib : Library) {kept : Expr} (h : kept ∈ e.nodes)
    (hvalue : M.value kept = M.value e) : M.Keeps e (lib.keepArg ctx call message kept) := by
  have hstripped : kept.stripParens ∈ e.nodes :=
    Expr.mem_nodes_trans (Expr.mem_nodes_of_stripParens kept.stripParens.mem_nodes_self) h
  refine ⟨ctx.keepOnly call.range kept.stripParens, [], M.value kept.stripParens, rfl, ?_, ?_⟩
  · rw [s.range]
    exact .part hstripped
  · rw [value_stripParens, hvalue]
    exact fun _ => rfl

/-- A fix that keeps an argument keeps the value when the argument has it. -/
theorem keepArgOrIdentity (lib : Library) {index : Nat} {kept : Expr}
    (hkept : args[index]? = some kept) (hvalue : M.value kept = M.value e) :
    M.Keeps e (lib.keepArgOrIdentity ctx call message index) := by
  unfold Library.keepArgOrIdentity
  rw [s.arg?, hkept]
  exact s.keepArg lib (s.inside_of_getElem? hkept) hvalue

/-- A fix that writes a text for the call keeps the value when the text has it. -/
theorem replaceCall (lib : Library) {atomic : Bool} {text : String} {v : Value}
    (hvalue : M.value e = v) (h : M.Writes e atomic text v) :
    M.Keeps e (lib.replaceCall ctx call message text atomic) := by
  rcases h with ⟨names, v', hwritten, hmeans⟩
  refine ⟨[ctx.replaceBy call.range text atomic], names, v', rfl, ?_, fun hnames => ?_⟩
  · rw [s.range]
    exact .text hwritten
  · rw [hvalue, hmeans hnames]

/-- A fix that writes a value for the whole call keeps the value when the text has it. -/
theorem valueOrAlways (lib : Library) {index : Nat} {atomic : Bool} {text : String} {v : Value}
    (hlt : index < args.length) (hvalue : M.value e = v) (h : M.Writes e atomic text v) :
    M.Keeps e (lib.valueOrAlways ctx call message index text atomic) := by
  unfold Library.valueOrAlways
  rw [s.args_eq, if_pos hlt]
  exact s.replaceCall lib hvalue h

end Calls

end ListMeaning

/-! ## The checks of the functions of `List` -/

namespace Rule.Lists

open ListMeaning

variable {ctx : Context} {Value : Type} {M : ListMeaning ctx Value} {e : Expr} {call : Call}
  {name : String} (lib : Library)

/-- A fix that writes a constant for the call keeps the value when the call has that of the
constant. -/
theorem replaceOnEmpty_keeps {args : List Expr} (s : M.Calls e call name args) {text : String}
    {v : Value} (hvalue : M.value e = v) (h : M.Writes e true text v) :
    M.Keeps e (replaceOnEmpty lib ctx call text) :=
  s.replaceCall lib hvalue h

/-- A fix that keeps an empty list keeps the value when the call gives the empty list on it. -/
theorem emptyStaysEmpty_keeps {args : List Expr} (s : M.Calls e call name args) {index : Nat}
    {l : Expr} (hl : args[index]? = some l)
    (hvalue : M.value l = M.list [] → M.value e = M.list []) :
    Found (M.Keeps e) (emptyStaysEmpty lib ctx call index) := by
  unfold emptyStaysEmpty
  rw [s.arg?, hl]
  refine found_ite (fun hempty => ?_) fun _ => found_none
  exact found_some.mpr
    (replaceOnEmpty_keeps lib s (hvalue (value_of_isEmptyList hempty)) .empty)

/-! ### Mapping and filtering -/

/-- Fixes of calls of `List.map` keep the value. -/
theorem map_keeps {function l : Expr} (s : M.Calls e call "map" [function, l]) :
    Found (M.Keeps e) (map lib ctx call) := by
  obtain ⟨xs, hxs⟩ := s.has 1 rfl rfl rfl rfl
  unfold map
  rw [s.arg?]
  refine found_ite (fun hidentity => ?_) fun _ => emptyStaysEmpty_keeps lib s rfl fun hl => ?_
  · -- the identity changes no element
    have hvalue := s.value_eq (.map (M.value function) xs) (by simp [hxs])
    have hsame : xs.map (M.apply (M.value function)) = xs :=
      List.map_id'' (apply_of_isIdentity hidentity) xs
    rw [hsame] at hvalue
    exact found_some.mpr (s.keepArgOrIdentity lib rfl (hxs.trans hvalue.symm))
  · exact s.value_eq (.map (M.value function) []) (by simp [hl])

theorem indexedMap_keeps {function l : Expr} (s : M.Calls e call "indexedMap" [function, l]) :
    Found (M.Keeps e) (indexedMap lib ctx call) := by
  refine emptyStaysEmpty_keeps lib s rfl fun hl => ?_
  exact s.value_eq (.indexedMap (M.value function) []) (by simp [hl])

theorem filter_keeps {predicate l : Expr} (s : M.Calls e call "filter" [predicate, l]) :
    Found (M.Keeps e) (filter lib ctx call) := by
  obtain ⟨xs, hxs⟩ := s.has 1 rfl rfl rfl rfl
  have hargs : [predicate, l].map M.value = [M.value predicate, M.list xs] := by simp [hxs]
  -- a test that always has one result keeps all the elements or none
  have hconstant : ∀ b, ctx.isAlwaysBool predicate b = true →
      M.value e = M.list (xs.filter fun _ => b) := by
    intro b hb
    exact s.value_eq (.filter (fun _ => b) fun x _ => apply_of_isAlwaysBool hb x) hargs
  unfold filter
  rw [s.arg?]
  refine found_ite (fun htrue => ?_) fun _ => found_ite (fun hfalse => ?_) fun _ =>
    emptyStaysEmpty_keeps lib s rfl fun hl => ?_
  · have hvalue := hconstant true htrue
    rw [List.filter_true] at hvalue
    exact found_some.mpr (s.keepArgOrIdentity lib rfl (hxs.trans hvalue.symm))
  · have hvalue := hconstant false hfalse
    rw [List.filter_false] at hvalue
    exact found_some.mpr (s.valueOrAlways lib Nat.one_lt_two hvalue .empty)
  · have hgives : M.Gives "filter" [M.value predicate, M.list []] (M.list []) :=
      .filter (fun _ => true) (List.forall_mem_nil _)
    exact s.value_eq hgives (by simp [hl])

/-- A function known to give `Nothing` returns it. -/
theorem apply_of_alwaysNothing {function : Expr} (h : alwaysNothing ctx function = true)
    (v : Value) : M.apply (M.value function) v = M.maybe none := by
  unfold alwaysNothing at h
  split at h
  · rename_i c hc
    obtain ⟨r, q, hq, hvalue⟩ := exists_of_isReference (M := M) h
    rw [apply_of_constant? hc, hvalue]
    exact M.nothing r q hq
  · cases h

/-- Fixes of calls of `List.filterMap` keep the value. -/
theorem filterMap_keeps {function l : Expr} (s : M.Calls e call "filterMap" [function, l]) :
    Found (M.Keeps e) (filterMap lib ctx call) := by
  obtain ⟨xs, hxs⟩ := s.has 1 rfl rfl rfl rfl
  have hargs : [function, l].map M.value = [M.value function, M.list xs] := by simp [hxs]
  unfold filterMap
  rw [s.arg?]
  refine found_ite (fun hjust => ?_) fun _ => found_ite (fun hnothing => ?_) fun _ =>
    emptyStaysEmpty_keeps lib s rfl fun hl => ?_
  · obtain ⟨r, q, hq, hfunction⟩ := exists_of_isReference (M := M) hjust
    have happly : ∀ x ∈ xs, M.apply (M.value function) x = M.maybe (some x) := by
      intro x _
      rw [hfunction]
      exact M.just r q x hq
    have hvalue := s.value_eq (.filterMap some happly) hargs
    rw [List.filterMap_some] at hvalue
    exact found_some.mpr (s.keepArgOrIdentity lib rfl (hxs.trans hvalue.symm))
  · have happly : ∀ x ∈ xs, M.apply (M.value function) x = M.maybe none :=
      fun x _ => apply_of_alwaysNothing hnothing x
    have hvalue := s.value_eq (.filterMap (fun _ => none) happly) hargs
    rw [List.filterMap_none] at hvalue
    exact found_some.mpr (s.valueOrAlways lib Nat.one_lt_two hvalue .empty)
  · have hgives : M.Gives "filterMap" [M.value function, M.list []] (M.list []) :=
      .filterMap some (List.forall_mem_nil _)
    exact s.value_eq hgives (by simp [hl])

/-! ### Concatenation -/

/-- The value of elements that are all lists. -/
theorem map_value_of_lists {elements : List Expr}
    (h : elements.all (·.list?.isSome) = true) :
    elements.map M.value =
      (elements.map fun l => (l.list?.getD []).map M.value).map M.list := by
  rw [List.map_map, List.map_inj_left]
  intro l hl
  rw [List.all_eq_true] at h
  obtain ⟨items, hitems⟩ := Option.isSome_iff_exists.mp (h l hl)
  rw [value_of_list? hitems, Function.comp_apply, hitems]
  rfl

/-- Fixes of calls of `List.concat` keep the value, if all elements that are joined are lists. -/
theorem concat_keeps {l : Expr} (s : M.Calls e call "concat" [l]) (hwhole : ¬ JoinsSome call) :
    Found (M.Keeps e) (concat lib ctx call) := by
  have harg : call.arg? 0 = some l := s.arg? 0
  unfold concat
  rw [harg, Option.bind_some]
  cases hlist : l.list? with
  | none => exact found_none
  | some elements =>
    have hvalues := value_of_list? (M := M) hlist
    have hinside : ∀ x ∈ elements, x ∈ e.nodes := fun x hx =>
      Expr.mem_nodes_trans (Expr.mem_nodes_of_list? hlist hx) (s.inside l List.mem_cons_self)
    rcases elements with _ | ⟨first, _ | ⟨second, rest⟩⟩
    · have hvalue : M.value e = M.list [] := s.value_eq (.concat []) (by simp [hvalues])
      exact found_some.mpr (replaceOnEmpty_keeps lib s hvalue .empty)
    · -- the only element is a list, since the argument is a list of lists
      obtain ⟨xss, hxss⟩ := s.has 0 rfl rfl rfl rfl
      have hsame : [M.value first] = xss.map M.list := M.list_injective (hvalues.symm.trans hxss)
      obtain ⟨xs, rfl, hxs⟩ := List.map_eq_singleton_iff.mp hsame.symm
      have hvalue : M.value e = M.list [xs].flatten :=
        s.value_eq (.concat [xs]) (by simp [hxss])
      rw [List.flatten_singleton, hxs] at hvalue
      exact found_some.mpr (s.keepArg lib (hinside first List.mem_cons_self) hvalue.symm)
    · dsimp only
      unfold concatMany
      cases hall : (first :: second :: rest).all (·.list?.isSome) with
      | false =>
        -- some neighbours are joined, and the call stays
        have hsome := all_lists_eq_false_iff.mp hall
        refine absurd ⟨first :: second :: rest, ?_, by simp, hsome⟩ hwhole
        rw [harg, Option.bind_some, hlist]
      | true =>
        have hvalue := s.value_eq
          (.concat ((first :: second :: rest).map fun l => (l.list?.getD []).map M.value))
          (by rw [List.map_singleton, hvalues, map_value_of_lists hall])
        rw [← List.flatMap_def] at hvalue
        refine found_some.mpr ⟨_, [], _, rfl, ?_, fun _ => hvalue.symm⟩
        rw [s.range]
        exact .joined hinside rfl (by simp [List.getLast?_cons])

/-- A function known to wrap its argument returns it as a list of one element. -/
theorem apply_of_isSingletonFunction {function : Expr}
    (h : isSingletonFunction ctx function = true) (v : Value) :
    M.apply (M.value function) v = M.list [v] := by
  unfold isSingletonFunction at h
  rw [Bool.or_eq_true] at h
  rcases h with href | hlambda
  · obtain ⟨r, q, hq, hvalue⟩ := exists_of_isReference (M := M) href
    rw [hvalue]
    exact M.singleton r q v hq
  · rw [← value_stripParens]
    split at hlambda
    · rename_i r param body heq
      split at hlambda
      · rename_i element hbody
        rw [heq]
        exact M.wraps r param body element v hbody hlambda
      · cases hlambda
    · cases hlambda

/-- Fixes of calls of `List.concatMap` keep the value, if they do not make them calls of
`List.concat`. -/
theorem concatMap_keeps {function l : Expr} (s : M.Calls e call "concatMap" [function, l])
    (hwhole : ¬ JoinsWithIdentity ctx call) : Found (M.Keeps e) (concatMap lib ctx call) := by
  obtain ⟨xs, hxs⟩ := s.has 1 rfl rfl rfl rfl
  have hargs : [function, l].map M.value = [M.value function, M.list xs] := by simp [hxs]
  have harg : call.arg? 0 = some function := s.arg? 0
  unfold concatMap
  rw [harg]
  refine found_ite (fun hidentity => ?_) fun _ => found_ite (fun hsingleton => ?_) fun _ =>
    emptyStaysEmpty_keeps lib s rfl fun hl => ?_
  · -- with the identity behind its name the call becomes one of `List.concat`
    rw [Bool.and_eq_true] at hidentity
    exact absurd ⟨function, harg, hidentity⟩ hwhole
  · have happly : ∀ x ∈ xs, M.apply (M.value function) x = M.list [x] :=
      fun x _ => apply_of_isSingletonFunction hsingleton x
    have hvalue := s.value_eq (.concatMap (fun x => [x]) happly) hargs
    rw [List.flatMap_singleton'] at hvalue
    exact found_some.mpr (s.keepArgOrIdentity lib rfl (hxs.trans hvalue.symm))
  · have hgives : M.Gives "concatMap" [M.value function, M.list []] (M.list []) :=
      .concatMap (fun x => [x]) (List.forall_mem_nil _)
    exact s.value_eq hgives (by simp [hl])

/-- Fixes of calls of `List.append` keep the value. -/
theorem append_keeps {first second : Expr} (s : M.Calls e call "append" [first, second]) :
    Found (M.Keeps e) (append lib ctx call) := by
  obtain ⟨xs, hxs⟩ := s.has 0 rfl rfl rfl rfl
  obtain ⟨ys, hys⟩ := s.has 1 rfl rfl rfl rfl
  have hvalue := s.value_eq (.append xs ys) (by simp [hxs, hys])
  have hfirst : first ∈ e.nodes := s.inside first List.mem_cons_self
  have hsecond : second ∈ e.nodes := s.inside second (by simp)
  unfold append
  rw [s.arg?, s.arg?]
  refine found_ite (fun hempty => ?_) fun _ => found_ite (fun hempty => ?_) fun _ => ?_
  · obtain rfl : xs = [] := M.list_injective (hxs.symm.trans (value_of_isEmptyList hempty))
    exact found_some.mpr (s.keepArg lib hsecond (hys.trans hvalue.symm))
  · obtain rfl : ys = [] := M.list_injective (hys.symm.trans (value_of_isEmptyList hempty))
    rw [List.append_nil] at hvalue
    exact found_some.mpr (s.keepArg lib hfirst (hxs.trans hvalue.symm))
  · cases hleft : first.list? with
    | none => exact found_none
    | some left =>
      cases hright : second.list? with
      | none => exact found_none
      | some right =>
        -- both lists are written out, and their elements are written as one list
        have hjoined := s.value_eq (.append (left.map M.value) (right.map M.value))
          (by simp [value_of_list? hleft, value_of_list? hright])
        rw [← List.map_append] at hjoined
        refine found_some.mpr (s.replaceCall lib hjoined (.elements ?_))
        intro x hx
        rcases List.mem_append.mp hx with hx | hx
        · exact Expr.mem_nodes_trans (Expr.mem_nodes_of_list? hleft hx) hfirst
        · exact Expr.mem_nodes_trans (Expr.mem_nodes_of_list? hright hx) hsecond

theorem singleton_keeps {value : Expr} (s : M.Calls e call "singleton" [value]) :
    Found (M.Keeps e) (singleton lib ctx call) := by
  have hstripped : value.stripParens ∈ e.nodes :=
    Expr.mem_nodes_trans (Expr.mem_nodes_of_stripParens value.stripParens.mem_nodes_self)
      (s.inside value List.mem_cons_self)
  have hvalue := s.value_eq (.singleton (M.value value)) rfl
  rw [← value_stripParens value] at hvalue
  have hwritten : M.Writes e true (Context.listText (ctx.texts [value.stripParens]))
      (M.list ([value.stripParens].map M.value)) :=
    .elements (List.forall_mem_singleton.mpr hstripped)
  unfold singleton
  rw [s.arg?]
  exact found_some.mpr (s.replaceCall lib hvalue hwritten)

/-! ### Questions about a list -/

theorem isEmpty_keeps {l : Expr} (s : M.Calls e call "isEmpty" [l]) :
    Found (M.Keeps e) (isEmpty lib ctx call) := by
  have harg : call.arg? 0 = some l := s.arg? 0
  unfold isEmpty
  rw [harg, Option.bind_some]
  cases hlist : l.list? with
  | none => exact found_none
  | some elements =>
    have hvalue := s.value_eq (.isEmpty (elements.map M.value)) (by simp [value_of_list? hlist])
    rw [List.isEmpty_map] at hvalue
    exact found_some.mpr (s.replaceCall lib hvalue (.boolean _))

/-- A test of all elements that gives a boolean when no element says otherwise. -/
theorem quantifier_keeps {onEmpty : Bool} {predicate l : Expr}
    (s : M.Calls e call name [predicate, l])
    (hlist : ListValues.signatures.lookup name = some [.any, .list])
    (hgives : ∀ p xs, (∀ x ∈ xs, M.apply p x = M.bool onEmpty) →
      M.Gives name [p, M.list xs] (M.bool onEmpty)) :
    Found (M.Keeps e) (quantifier onEmpty lib ctx call) := by
  obtain ⟨xs, hxs⟩ := s.has 1 hlist rfl rfl rfl
  unfold quantifier
  rw [s.arg?, s.arg?]
  refine found_ite (fun hconstant => ?_) fun _ => found_ite (fun hempty => ?_) fun _ => found_none
  · have hvalue := s.value_eq (hgives (M.value predicate) xs fun x _ =>
      apply_of_isAlwaysBool hconstant x) (by simp [hxs])
    exact found_some.mpr (s.valueOrAlways lib Nat.one_lt_two hvalue (.boolean onEmpty))
  · have hvalue := s.value_eq (hgives (M.value predicate) [] (List.forall_mem_nil _))
      (by simp [value_of_isEmptyList hempty])
    exact found_some.mpr (s.replaceCall lib hvalue (.boolean onEmpty))

theorem all_keeps {predicate l : Expr} (s : M.Calls e call "all" [predicate, l]) :
    Found (M.Keeps e) (all lib ctx call) := by
  refine quantifier_keeps lib s rfl fun p xs h => ?_
  have hgives := ListValues.Gives.all (V := M.toListValues) (fun _ => true) h
  rwa [List.all_eq_true.mpr fun _ _ => rfl] at hgives

theorem any_keeps {predicate l : Expr} (s : M.Calls e call "any" [predicate, l]) :
    Found (M.Keeps e) (any lib ctx call) := by
  refine quantifier_keeps lib s rfl fun p xs h => ?_
  have hgives := ListValues.Gives.any (V := M.toListValues) (fun _ => false) h
  rwa [List.any_eq_false.mpr fun _ _ => Bool.false_ne_true] at hgives

/-- Fixes of calls of `List.member` keep the value. -/
theorem member_keeps {needle l : Expr} (s : M.Calls e call "member" [needle, l]) :
    Found (M.Keeps e) (member lib ctx call) := by
  have harg : call.arg? 1 = some l := s.arg? 1
  unfold member
  rw [s.arg?, harg, Option.bind_some]
  cases hlist : l.list? with
  | none => exact found_none
  | some elements =>
    have hvalues := value_of_list? (M := M) hlist
    have hl : l ∈ e.nodes := s.inside l (by simp)
    cases elements with
    | nil =>
      have hgives : M.Gives "member" [M.value needle, M.list []] (M.bool false) :=
        .member (by simp)
      have hvalue := s.value_eq hgives (by simp [hvalues])
      exact found_some.mpr (replaceOnEmpty_keeps lib s hvalue (.boolean false))
    | cons first rest =>
      refine found_ite (fun hany => ?_) fun _ => found_none
      obtain ⟨x, hx, hequal⟩ := List.any_eq_true.mp hany
      -- an element that counts as equal has the value that is looked for
      have hsame : M.value x = M.value needle :=
        s.respects x (Expr.mem_nodes_trans (Expr.mem_nodes_of_list? hlist hx) hl) needle
          (s.inside needle List.mem_cons_self) hequal
      have hmem : M.value needle ∈ (first :: rest).map M.value := by
        rw [← hsame]
        exact List.mem_map_of_mem hx
      have hvalue : M.value e = M.bool true :=
        s.value_eq (.member (iff_of_true hmem rfl)) (by simp [hvalues])
      exact found_some.mpr (s.replaceCall lib hvalue (.boolean true))

theorem length_keeps {l : Expr} (s : M.Calls e call "length" [l]) :
    Found (M.Keeps e) (length lib ctx call) := by
  have harg : call.arg? 0 = some l := s.arg? 0
  unfold length
  rw [harg, Option.bind_some]
  cases hlist : l.list? with
  | none => exact found_none
  | some elements =>
    have hvalue := s.value_eq (.length (elements.map M.value)) (by simp [value_of_list? hlist])
    rw [List.length_map] at hvalue
    exact found_some.mpr (s.replaceCall lib hvalue (.number elements.length))

/-! ### Numbers of elements -/

/-- An argument that is an integer and not positive. -/
theorem exists_of_isNotPositive {args : List Expr} (s : M.Calls e call name args) {index : Nat}
    {a : Expr} (ha : args[index]? = some a) (h : isNotPositive call index = true) :
    ∃ n : Int, M.value a = M.int n ∧ n.toNat = 0 := by
  unfold isNotPositive at h
  rw [s.arg?, ha, Option.bind_some] at h
  split at h
  · rename_i n hn
    exact ⟨n, value_of_int? hn, Int.toNat_of_nonpos (of_decide_eq_true h)⟩
  · cases h

/-- Fixes of calls of `List.range` keep the value: a range that is turned around is empty. -/
theorem range_keeps {first last : Expr} (s : M.Calls e call "range" [first, last]) :
    Found (M.Keeps e) (range lib ctx call) := by
  have hfirst : call.arg? 0 = some first := s.arg? 0
  have hlast : call.arg? 1 = some last := s.arg? 1
  unfold range
  rw [hfirst, hlast, Option.bind_some, Option.bind_some]
  cases hlow : first.int? with
  | none => exact found_none
  | some low =>
    cases hhigh : last.int? with
    | none => exact found_none
    | some high =>
      -- a range is only reported when it ends before it starts
      refine found_ite (fun _ => found_none) fun hlt => ?_
      have hvalue := s.value_eq (.range low high)
        (by simp [value_of_int? hlow, value_of_int? hhigh])
      have hnone : (high + 1 - low).toNat = 0 := Int.toNat_of_nonpos (by omega)
      rw [hnone] at hvalue
      exact found_some.mpr (s.replaceCall lib hvalue .empty)

/-- Fixes of calls of `List.repeat` keep the value: a count below one gives the empty list. -/
theorem replicate_keeps {times value : Expr} (s : M.Calls e call "repeat" [times, value]) :
    Found (M.Keeps e) (replicate lib ctx call) := by
  unfold replicate
  refine found_ite (fun hnone => ?_) fun _ => found_none
  obtain ⟨n, hn, hzero⟩ := exists_of_isNotPositive s rfl hnone
  have hvalue := s.value_eq (.replicate n (M.value value)) (by simp [hn])
  rw [hzero, List.replicate_zero] at hvalue
  exact found_some.mpr (s.valueOrAlways lib Nat.one_lt_two hvalue .empty)

/-- Fixes of calls of `List.take` keep the value. -/
theorem take_keeps {count l : Expr} (s : M.Calls e call "take" [count, l]) :
    Found (M.Keeps e) (take lib ctx call) := by
  unfold take
  refine found_ite (fun hnone => ?_) fun _ => emptyStaysEmpty_keeps lib s rfl fun hl => ?_
  · obtain ⟨n, hn, hzero⟩ := exists_of_isNotPositive s rfl hnone
    obtain ⟨xs, hxs⟩ := s.has 1 rfl rfl rfl rfl
    have hvalue := s.value_eq (.take n xs) (by simp [hn, hxs])
    rw [hzero, List.take_zero] at hvalue
    exact found_some.mpr (s.valueOrAlways lib Nat.one_lt_two hvalue .empty)
  · obtain ⟨n, hn⟩ := s.has 0 rfl rfl rfl rfl
    have hvalue := s.value_eq (.take n []) (by simp [hn, hl])
    rwa [List.take_nil] at hvalue

/-- Fixes of calls of `List.drop` keep the value. -/
theorem drop_keeps {count l : Expr} (s : M.Calls e call "drop" [count, l]) :
    Found (M.Keeps e) (drop lib ctx call) := by
  unfold drop
  refine found_ite (fun hnone => ?_) fun _ => emptyStaysEmpty_keeps lib s rfl fun hl => ?_
  · obtain ⟨n, hn, hzero⟩ := exists_of_isNotPositive s rfl hnone
    obtain ⟨xs, hxs⟩ := s.has 1 rfl rfl rfl rfl
    have hvalue := s.value_eq (.drop n xs) (by simp [hn, hxs])
    rw [hzero, List.drop_zero] at hvalue
    exact found_some.mpr (s.keepArgOrIdentity lib rfl (hxs.trans hvalue.symm))
  · obtain ⟨n, hn⟩ := s.has 0 rfl rfl rfl rfl
    have hvalue := s.value_eq (.drop n []) (by simp [hn, hl])
    rwa [List.drop_nil] at hvalue

/-! ### Other results -/

theorem reverse_keeps {l : Expr} (s : M.Calls e call "reverse" [l]) :
    Found (M.Keeps e) (reverse lib ctx call) := by
  have hl : l ∈ e.nodes := s.inside l List.mem_cons_self
  unfold reverse
  rw [s.arg?]
  dsimp only [List.getElem?_cons_zero]
  cases hlist : l.list? with
  | some elements =>
    have hvalues := value_of_list? (M := M) hlist
    have hvalue := s.value_eq (.reverse (elements.map M.value)) (by simp [hvalues])
    rcases elements with _ | ⟨only, _ | _⟩
    · exact found_some.mpr (replaceOnEmpty_keeps lib s hvalue .empty)
    · exact found_some.mpr (s.keepArg lib hl (hvalues.trans hvalue.symm))
    · exact found_none
  | none =>
    refine found_map fun inner hinner => ?_
    have happlied := Context.applied?_of_argOfCall? hinner
    -- the inner call is an argument, and well typed
    have htyped : M.Typed l := s.typed_args l List.mem_cons_self
    obtain ⟨xs, hxs⟩ := htyped "reverse" [inner] [.list] happlied rfl rfl 0 inner .list rfl rfl
    have hgives : M.Gives "reverse" ([inner].map M.value) (M.list xs.reverse) := by
      rw [List.map_singleton, hxs]
      exact .reverse xs
    have hreversed : M.value l = M.list xs.reverse :=
      M.call l "reverse" [inner] _ happlied hgives
    have hvalue := s.value_eq (.reverse xs.reverse) (by simp [hreversed])
    rw [List.reverse_reverse] at hvalue
    exact s.keepArg lib (Expr.mem_nodes_trans (Context.mem_nodes_of_argOfCall? hinner) hl)
      (hxs.trans hvalue.symm)

/-- A fold over no elements gives the start value. -/
theorem fold_keeps {function initial l : Expr}
    (s : M.Calls e call name [function, initial, l])
    (hgives : ∀ f z, M.Gives name [f, z, M.list []] z) :
    Found (M.Keeps e) (fold lib ctx call) := by
  unfold fold
  rw [s.arg?, s.arg?]
  refine found_ite (fun hempty => ?_) fun _ => found_none
  have hvalue := s.value_eq (hgives (M.value function) (M.value initial))
    (by simp [value_of_isEmptyList hempty])
  exact found_some.mpr (s.keepArg lib (s.inside initial (by simp)) hvalue.symm)

/-- Fixes of calls of `List.partition` keep the value. -/
theorem partition_keeps {predicate l : Expr} (s : M.Calls e call "partition" [predicate, l]) :
    Found (M.Keeps e) (partition lib ctx call) := by
  obtain ⟨xs, hxs⟩ := s.has 1 rfl rfl rfl rfl
  have hargs : [predicate, l].map M.value = [M.value predicate, M.list xs] := by simp [hxs]
  have hconstant : ∀ b, ctx.isAlwaysBool predicate b = true →
      M.value e = M.pair (M.list (xs.filter fun _ => b)) (M.list (xs.filter fun _ => !b)) := by
    intro b hb
    exact s.value_eq (.partition (fun _ => b) fun x _ => apply_of_isAlwaysBool hb x) hargs
  have hl : M.Writes e false (ctx.text l.stripParens.range) (M.list xs) := by
    rw [← hxs, ← value_stripParens l]
    exact .part (Expr.mem_nodes_trans (Expr.mem_nodes_of_stripParens l.stripParens.mem_nodes_self)
      (s.inside l (by simp)))
  unfold partition
  rw [s.arg?, s.arg?]
  refine found_ite (fun hempty => ?_) fun _ => found_ite (fun htrue => ?_) fun _ =>
    found_ite (fun hfalse => ?_) fun _ => found_none
  · have hgives : M.Gives "partition" [M.value predicate, M.list []]
        (M.pair (M.list []) (M.list [])) := .partition (fun _ => true) (List.forall_mem_nil _)
    have hvalue := s.value_eq hgives (by simp [value_of_isEmptyList hempty])
    exact found_some.mpr
      (replaceOnEmpty_keeps lib s hvalue (.pair .empty .empty))
  · have hvalue := hconstant true htrue
    rw [List.filter_true, Bool.not_true, List.filter_false] at hvalue
    have hwritten := Writes.pair hl (Writes.empty (M := M))
    rw [String.append_assoc, String.append_assoc] at hwritten
    exact found_some.mpr (s.replaceCall lib hvalue hwritten)
  · have hvalue := hconstant false hfalse
    rw [List.filter_false, Bool.not_false, List.filter_true] at hvalue
    exact found_some.mpr (s.replaceCall lib hvalue (.pair .empty hl))

/-- The text of an element that is taken out of a list is written as an argument. -/
theorem written_element {l first : Expr} {elements : List Expr} (hl : l ∈ e.nodes)
    (hlist : l.list? = some elements) (hfirst : first ∈ elements) :
    M.Writes e true (ctx.argText first.stripParens) (M.value first) := by
  rw [← value_stripParens first]
  have hstripped := Expr.mem_nodes_of_stripParens first.stripParens.mem_nodes_self
  exact .argument (Expr.mem_nodes_trans hstripped
    (Expr.mem_nodes_trans (Expr.mem_nodes_of_list? hlist hfirst) hl))

/-- Fixes of calls of `List.head` keep the value. -/
theorem head_keeps {l : Expr} (s : M.Calls e call "head" [l]) :
    Found (M.Keeps e) (head lib ctx call) := by
  have harg : call.arg? 0 = some l := s.arg? 0
  unfold head
  rw [harg, Option.bind_some]
  cases hlist : l.list? with
  | none => exact found_none
  | some elements =>
    have hvalue := s.value_eq (.head (elements.map M.value)) (by simp [value_of_list? hlist])
    cases elements with
    | nil => exact found_some.mpr (replaceOnEmpty_keeps lib s hvalue .nothing)
    | cons first rest =>
      have hwritten :=
        written_element (M := M) (s.inside l List.mem_cons_self) hlist List.mem_cons_self
      exact found_some.mpr (s.replaceCall lib hvalue (.just hwritten))

/-- Fixes of calls of `List.tail` keep the value. -/
theorem tail_keeps {l : Expr} (s : M.Calls e call "tail" [l]) :
    Found (M.Keeps e) (tail lib ctx call) := by
  have harg : call.arg? 0 = some l := s.arg? 0
  unfold tail
  rw [harg, Option.bind_some]
  cases hlist : l.list? with
  | none => exact found_none
  | some elements =>
    have hvalue := s.value_eq (.tail (elements.map M.value)) (by simp [value_of_list? hlist])
    cases elements with
    | nil => exact found_some.mpr (replaceOnEmpty_keeps lib s hvalue .nothing)
    | cons first rest =>
      have hrest : ∀ x ∈ rest, x ∈ e.nodes := fun x hx =>
        Expr.mem_nodes_trans (Expr.mem_nodes_of_list? hlist (List.mem_cons_of_mem first hx))
          (s.inside l List.mem_cons_self)
      exact found_some.mpr (s.replaceCall lib hvalue (.just (.elements hrest)))

/-- The least and the greatest of no elements is nothing, and of a single one this. -/
theorem extremum_keeps {l : Expr} (s : M.Calls e call name [l])
    (hnone : M.Gives name [M.list []] (M.maybe none))
    (hone : ∀ x, M.Gives name [M.list [x]] (M.maybe (some x))) :
    Found (M.Keeps e) (extremum lib ctx call) := by
  have harg : call.arg? 0 = some l := s.arg? 0
  unfold extremum
  rw [harg, Option.bind_some]
  cases hlist : l.list? with
  | none => exact found_none
  | some elements =>
    have hvalues := value_of_list? (M := M) hlist
    rcases elements with _ | ⟨only, _ | _⟩
    · have hvalue := s.value_eq hnone (by simp [hvalues])
      exact found_some.mpr (replaceOnEmpty_keeps lib s hvalue .nothing)
    · have hvalue := s.value_eq (hone (M.value only)) (by simp [hvalues])
      have hwritten :=
        written_element (M := M) (s.inside l List.mem_cons_self) hlist List.mem_cons_self
      exact found_some.mpr (s.replaceCall lib hvalue (.just hwritten))
    · exact found_none

/-- The sum or the product of no elements is the neutral number, and of a single one this. -/
theorem aggregate_keeps (neutral : Nat) {l : Expr} (s : M.Calls e call name [l])
    (htypes : ListValues.signatures.lookup name = some [.numbers])
    (hnone : M.Gives name [M.list []] (M.int neutral))
    (hone : ∀ x, M.IsNumber x → M.Gives name [M.list [x]] x) :
    Found (M.Keeps e) (aggregate (toString neutral) lib ctx call) := by
  have harg : call.arg? 0 = some l := s.arg? 0
  unfold aggregate
  rw [harg, Option.bind_some]
  cases hlist : l.list? with
  | none => exact found_none
  | some elements =>
    have hvalues := value_of_list? (M := M) hlist
    rcases elements with _ | ⟨only, _ | _⟩
    · have hvalue := s.value_eq hnone (by simp [hvalues])
      exact found_some.mpr (replaceOnEmpty_keeps lib s hvalue (.number neutral))
    · obtain ⟨xs, hxs, hnumbers⟩ := s.has 0 htypes rfl rfl rfl
      obtain rfl : [M.value only] = xs := M.list_injective (hvalues.symm.trans hxs)
      have hvalue := s.value_eq (hone (M.value only) (hnumbers _ List.mem_cons_self))
        (by simp [hvalues])
      have honly : only ∈ e.nodes :=
        Expr.mem_nodes_trans (Expr.mem_nodes_of_list? hlist List.mem_cons_self)
          (s.inside l List.mem_cons_self)
      exact found_some.mpr (s.keepArg lib honly hvalue.symm)
    · exact found_none

/-! ### All functions -/

/-- What the check finds in a call of the function with all its arguments keeps the value. -/
def KeepsCalls (M : ListMeaning ctx Value) (e : Expr) (call : Call) (name : String)
    (check : CallCheck) : Prop :=
  ∃ n, Core.arity? ⟨Core.list, name⟩ = some n ∧ ∀ args, args.length = n →
    M.Calls e call name args → Found (M.Keeps e) (check family.library ctx call)

section

variable {check : CallCheck}

theorem keepsCalls_one (harity : Core.arity? ⟨Core.list, name⟩ = some 1)
    (h : ∀ a, M.Calls e call name [a] → Found (M.Keeps e) (check family.library ctx call)) :
    KeepsCalls M e call name check := by
  refine ⟨1, harity, fun args hargs s => ?_⟩
  obtain ⟨a, rfl⟩ := List.length_eq_one_iff.mp hargs
  exact h a s

theorem keepsCalls_two (harity : Core.arity? ⟨Core.list, name⟩ = some 2)
    (h : ∀ a b, M.Calls e call name [a, b] → Found (M.Keeps e) (check family.library ctx call)) :
    KeepsCalls M e call name check := by
  refine ⟨2, harity, fun args hargs s => ?_⟩
  obtain ⟨a, b, rfl⟩ := List.length_eq_two.mp hargs
  exact h a b s

theorem keepsCalls_three (harity : Core.arity? ⟨Core.list, name⟩ = some 3)
    (h : ∀ a b c, M.Calls e call name [a, b, c] →
      Found (M.Keeps e) (check family.library ctx call)) : KeepsCalls M e call name check := by
  refine ⟨3, harity, fun args hargs s => ?_⟩
  obtain ⟨a, b, c, rfl⟩ := List.length_eq_three.mp hargs
  exact h a b c s

end

theorem folds_keep : KeepsCalls M e call "foldl" fold ∧ KeepsCalls M e call "foldr" fold := by
  constructor
  · exact keepsCalls_three rfl fun _ _ _ s => fold_keeps _ s fun f z => .foldl f z []
  · exact keepsCalls_three rfl fun _ _ _ s => fold_keeps _ s fun f z => .foldr f z []

theorem extrema_keep :
    KeepsCalls M e call "minimum" extremum ∧ KeepsCalls M e call "maximum" extremum := by
  constructor
  · exact keepsCalls_one rfl fun _ s => extremum_keeps _ s (.minimum []) fun x => .minimum [x]
  · exact keepsCalls_one rfl fun _ s => extremum_keeps _ s (.maximum []) fun x => .maximum [x]

theorem sum_keeps : KeepsCalls M e call "sum" (aggregate "0") := by
  refine keepsCalls_one rfl fun l s => ?_
  refine aggregate_keeps _ 0 s rfl (.sum (List.forall_mem_nil _)) fun x hx => ?_
  have hgives := ListValues.Gives.sum (V := M.toListValues) (List.forall_mem_singleton.mpr hx)
  rwa [List.foldl_cons, List.foldl_nil, M.add_zero x hx] at hgives

theorem product_keeps : KeepsCalls M e call "product" (aggregate "1") := by
  refine keepsCalls_one rfl fun l s => ?_
  refine aggregate_keeps _ 1 s rfl (.product (List.forall_mem_nil _)) fun x hx => ?_
  have hgives := ListValues.Gives.product (V := M.toListValues) (List.forall_mem_singleton.mpr hx)
  rwa [List.foldl_cons, List.foldl_nil, M.multiply_one x hx] at hgives

/-- All functions but two are only rewritten as a whole. -/
theorem family_keeps : ∀ c ∈ family.checks, c.1 ∉ ["concat", "concatMap"] →
    KeepsCalls M e call c.1 c.2 := by
  simp only [family, List.forall_mem_cons]
  exact ⟨fun _ => keepsCalls_two rfl fun _ _ s => map_keeps _ s,
    fun _ => keepsCalls_two rfl fun _ _ s => filter_keeps _ s,
    fun _ => keepsCalls_two rfl fun _ _ s => filterMap_keeps _ s, by simp, by simp,
    fun _ => keepsCalls_two rfl fun _ _ s => indexedMap_keeps _ s,
    fun _ => keepsCalls_one rfl fun _ s => isEmpty_keeps _ s,
    fun _ => keepsCalls_two rfl fun _ _ s => all_keeps _ s,
    fun _ => keepsCalls_two rfl fun _ _ s => any_keeps _ s,
    fun _ => keepsCalls_two rfl fun _ _ s => range_keeps _ s,
    fun _ => keepsCalls_one rfl fun _ s => length_keeps _ s,
    fun _ => keepsCalls_two rfl fun _ _ s => replicate_keeps _ s,
    fun _ => keepsCalls_one rfl fun _ s => reverse_keeps _ s,
    fun _ => folds_keep.1, fun _ => folds_keep.2,
    fun _ => keepsCalls_two rfl fun _ _ s => partition_keeps _ s,
    fun _ => keepsCalls_one rfl fun _ s => head_keeps _ s,
    fun _ => keepsCalls_one rfl fun _ s => tail_keeps _ s,
    fun _ => extrema_keep.1, fun _ => extrema_keep.2,
    fun _ => keepsCalls_two rfl fun _ _ s => member_keeps _ s,
    fun _ => sum_keeps, fun _ => product_keeps,
    fun _ => keepsCalls_two rfl fun _ _ s => take_keeps _ s,
    fun _ => keepsCalls_two rfl fun _ _ s => drop_keeps _ s,
    fun _ => keepsCalls_two rfl fun _ _ s => append_keeps _ s,
    fun _ => keepsCalls_one rfl fun _ s => singleton_keeps _ s, by simp⟩

/-- The check that a name is looked up to keeps the value of calls of that name. -/
theorem keepsCalls_of_lookup {check : CallCheck} (hwhole : ¬ call.RewrittenInside ctx)
    (hfunction : call.function = ⟨Core.list, name⟩)
    (hlookup : family.checks.lookup name = some check) : KeepsCalls M e call name check := by
  by_cases hname : name ∈ ["concat", "concatMap"]
  · -- these two are rewritten inside as well, but not this call
    simp only [List.mem_cons, List.not_mem_nil, or_false] at hname
    rw [Call.RewrittenInside, hfunction] at hwhole
    rcases hname with rfl | rfl <;> obtain rfl := Option.some.inj hlookup
    · exact keepsCalls_one rfl fun _ s => concat_keeps _ s hwhole
    · exact keepsCalls_two rfl fun _ _ s => concatMap_keeps _ s hwhole
  · exact family_keeps _ (Family.mem_of_lookup hlookup) hname

end Rule.Lists

/-! ## Fixes of whole calls -/

/-- A call of a function of `List` has exactly the arguments that the function takes. What is
reported at the call has a fix, and unless the fix rewrites the call inside, it leaves the value of
the call: a part with this value is kept, or a text is written that has it, if the names in the text
mean what they are written for. The call and its arguments have to be well typed, and equal parts
have to have equal values. -/
theorem Rule.list_fix_keeps_value {ctx : Context} {Value : Type} (M : ListMeaning ctx Value)
    {e : Expr} {call : Call} {f : Finding} (hcall : Call.ofExpr? ctx e = some call)
    (harity : Core.arity? call.function = some call.args.length)
    (hwhole : ¬ call.RewrittenInside ctx) (htyped : M.Typed e)
    (hargs : ∀ a ∈ call.args, M.Typed a) (hequal : M.RespectsEquality e)
    (hf : (ofCode .list).check ctx e = some f) :
    ∃ edits names v, f.fix = some edits ∧ M.Leaves e edits names v ∧
      ((∀ n ∈ names, ctx.WritesName n) → v = M.value e) := by
  have hfamily : Lists.family ∈ Family.all := by simp [Family.all]
  have hcheck : (ofCode .list).check ctx e = Lists.family.checkCall ctx call :=
    Family.check_ofCode hfamily hcall
  rw [hcheck] at hf
  obtain ⟨hpath, check, hlookup, hfound⟩ := Family.checkCall_eq_some_iff.mp hf
  have hfunction : call.function = ⟨Core.list, call.function.name⟩ :=
    congrArg (fun path : ModuleName => ResolvedName.mk path call.function.name) hpath
  obtain ⟨n, hn, hkeeps⟩ := Lists.keepsCalls_of_lookup (M := M) (e := e) hwhole hfunction hlookup
  have happlied := Expr.applied?_of_within hcall
  rw [hfunction] at harity happlied
  have hcalls : M.Calls e call call.function.name call.args :=
    { args_eq := rfl
      applied := happlied
      range := Call.range_of_within hcall
      inside := fun a ha => Call.mem_nodes_of_within hcall ha
      typed := htyped
      typed_args := hargs
      respects := hequal }
  exact hkeeps call.args (Option.some.inj (harity.symm.trans hn)) hcalls f hfound

/-- The node is a whole call of a function of `List` that is well typed, with variables that are all
five, is reported, and is true; and the names that fixes write mean what they are written for. -/
def Rule.isTrueListCall (ctx : Context) (e : Expr) : Bool :=
  (Call.ofExpr? ctx e).any fun call =>
    Core.arity? call.function = some call.args.length && call.function ∉ Call.insideFunctions &&
      (e :: call.args).all (·.argumentsHaveTypes ctx fun _ => .int 5) &&
      e.equalPartsAgree ctx (fun _ => .int 5) && ((ofCode .list).check ctx e).isSome &&
      e.datum ctx (fun _ => .int 5) = .bool true && ListMeaning.writtenNames.all (ctx.WritesName ·)

/-- A variable is looked for in a list with itself, through a pipe. The fix leaves what is true. -/
theorem Rule.list_fix_keeps_value_piped_member :
    ∃ m v e ctx f, Module.parse "x y =\n    [ 3, y ] |> List.member y\n" = .ok m ∧ v ∈ m.values ∧
      e ∈ v.body.nodes ∧ (ofCode .list).check ctx e = some f ∧
      ∃ edits names, f.fix = some edits ∧
        (ListMeaning.ofEnvironment ctx fun _ => .int 5).Leaves e edits names (.bool true) := by
  have hfound : someNode "x y =\n    [ 3, y ] |> List.member y\n" isTrueListCall = true := by
    decide +kernel
  obtain ⟨m, v, e, ctx, hm, hv, he, htest⟩ := exists_of_someNode hfound
  obtain ⟨call, hcall, htest⟩ := (Option.any_eq_true _ _).mp htest
  simp only [Bool.and_eq_true, decide_eq_true_eq, Option.isSome_iff_exists] at htest
  obtain ⟨⟨⟨⟨⟨⟨harity, hinside⟩, htypes⟩, hagree⟩, f, hf⟩, htrue⟩, hnames⟩ := htest
  refine ⟨m, v, e, ctx, f, hm, hv, he, hf, ?_⟩
  have htyped : ∀ n ∈ e :: call.args, (ListMeaning.ofEnvironment ctx fun _ => .int 5).Typed n := by
    intro n hn
    exact ListMeaning.typed_ofEnvironment (List.all_eq_true.mp htypes n hn)
  obtain ⟨hself, hargs⟩ := List.forall_mem_cons.mp htyped
  obtain ⟨edits, names, value, hfix, hleaves, hmeans⟩ :=
    list_fix_keeps_value (.ofEnvironment ctx fun _ => .int 5) hcall harity
      (Call.not_rewrittenInside hinside) hself hargs
      (ListMeaning.respectsEquality_ofEnvironment hagree) hf
  have hvalue : value = .bool true := by
    refine (hmeans fun n hn => ?_).trans htrue
    exact of_decide_eq_true (List.all_eq_true.mp hnames n (hleaves.mem_writtenNames n hn))
  rw [hvalue] at hleaves
  exact ⟨edits, names, hfix, hleaves⟩

/-- What is known of a module in a project where another module has a `Nothing` of its own. -/
def Module.knowledgeWithOpt (m : Module) : Knowledge :=
  (ProjectIndex.ofProject [m]
    [(Interface.empty ⟨["Opt"]⟩).withType "Opt" ["Nothing", "Some"]]).knowledge

/-- Where this module shares the qualifier of `Maybe`, the first element of no elements is replaced
by its `Nothing`, which is another value. -/
theorem Rule.list_fix_writes_other_nothing :
    ∃ m s site f, Module.parse
        "import Opt as M\nimport Maybe as M\ntype T = Nothing | Other\nx = List.head []\n" = .ok m ∧
      Simplifier.ofConfig .default = .ok s ∧ site ∈ m.sites ∧
      let ctx : Context :=
        ⟨ModuleContext.ofModule m m.knowledgeWithOpt s.ignoredTypes, site.scope, site.isFree⟩
      let M := ListMeaning.ofEnvironment ctx fun _ => .other
      firstFinding s.rules ctx site.expr = some f ∧ f ∈ s.analyzeModule m m.knowledgeWithOpt ∧
        f.fix = some [.replace site.expr.range "M.Nothing"] ∧
        ctx.resolve ⟨⟨["M"]⟩, "Nothing"⟩ = some ⟨⟨["Opt"]⟩, "Nothing"⟩ ∧
        M.value site.expr = M.maybe none ∧
        ∀ r, M.value (.var r ⟨⟨["M"]⟩, "Nothing"⟩) ≠ M.value site.expr := by
  have hpass : passesByDefault
      "import Opt as M\nimport Maybe as M\ntype T = Nothing | Other\nx = List.head []\n" (fun m s =>
        let ctx (site : Site) : Context :=
          ⟨ModuleContext.ofModule m m.knowledgeWithOpt s.ignoredTypes, site.scope, site.isFree⟩
        let found (site : Site) := firstFinding s.rules (ctx site) site.expr
        (m.sites.findSome? found).isSome && m.sites.all fun site => (found site).all fun f =>
          f.fix = some [.replace site.expr.range "M.Nothing"] &&
            (ctx site).resolve ⟨⟨["M"]⟩, "Nothing"⟩ = some ⟨⟨["Opt"]⟩, "Nothing"⟩ &&
            site.expr.datum (ctx site) (fun _ => .other) = .nothing) = true := by
    decide +kernel
  obtain ⟨m, s, hm, hs, htest⟩ := exists_of_passesByDefault hpass
  dsimp only at htest
  rw [Bool.and_eq_true, Option.isSome_iff_exists, List.all_eq_true] at htest
  obtain ⟨⟨f, hf⟩, hall⟩ := htest
  obtain ⟨site, hsite, hfound⟩ := List.exists_of_findSome?_eq_some hf
  have hfacts := hall site hsite
  rw [hfound, Option.all_some] at hfacts
  simp only [Bool.and_eq_true, decide_eq_true_eq] at hfacts
  obtain ⟨⟨hfix, hresolve⟩, hvalue⟩ := hfacts
  -- the first thing that is found is the first finding of the module
  rw [← Simplifier.head?_analyzeModule hm hs] at hf
  refine ⟨m, s, site, f, hm, hs, hsite, hfound, List.mem_of_mem_head? hf, hfix, hresolve, hvalue,
    fun r hsame => ?_⟩
  have hother := Expr.datum_of_resolve _ (fun _ => .other) hresolve r
  exact absurd (hother.symm.trans (hsame.trans hvalue)) (by decide)

end Terse
