import Terse.Proofs.Rule.Family

/-!
# How many arguments functions take

The check of a function looks at single arguments of a call and never counts them. The number of
arguments that the function takes still shows: further arguments change nothing in what the check
finds, and a fix that leaves a value needs a call that has them all.
-/

namespace Terse

/-! ## Arities -/

namespace Core

/-- How many arguments the functions take whose calls are checked, by module. -/
def arities : List (ModuleName × List (String × Nat)) :=
  [ (list,
      [("map", 2), ("filter", 2), ("filterMap", 2), ("concat", 1), ("concatMap", 2),
       ("indexedMap", 2), ("isEmpty", 1), ("all", 2), ("any", 2), ("range", 2), ("length", 1),
       ("repeat", 2), ("reverse", 1), ("foldl", 3), ("foldr", 3), ("partition", 2), ("head", 1),
       ("tail", 1), ("minimum", 1), ("maximum", 1), ("member", 2), ("sum", 1), ("product", 1),
       ("take", 2), ("drop", 2), ("append", 2), ("singleton", 1)]),
    (string,
      [("isEmpty", 1), ("concat", 1), ("join", 2), ("length", 1), ("repeat", 2), ("words", 1),
       ("lines", 1), ("reverse", 1), ("fromList", 1), ("append", 2)]),
    (maybe, [("map", 2), ("andThen", 2), ("withDefault", 2)]),
    (result,
      [("map", 2), ("mapError", 2), ("andThen", 2), ("withDefault", 2), ("toMaybe", 1)]),
    (set,
      [("map", 2), ("filter", 2), ("isEmpty", 1), ("member", 2), ("fromList", 1), ("toList", 1),
       ("size", 1), ("remove", 2), ("union", 2), ("intersect", 2), ("diff", 2),
       ("partition", 2)]),
    (dict,
      [("isEmpty", 1), ("fromList", 1), ("toList", 1), ("keys", 1), ("values", 1), ("size", 1),
       ("member", 2), ("filter", 2), ("map", 2), ("union", 2), ("remove", 2),
       ("partition", 2)]),
    (cmd, [("batch", 1), ("map", 2)]),
    (sub, [("batch", 1), ("map", 2)]) ]

/-- How many arguments a function takes. -/
def arity? (function : ResolvedName) : Option Nat :=
  (arities.lookup function.path).bind (·.lookup function.name)

end Core

/-! ## Calls without further arguments -/

namespace Call

/-- The call with no more than its first arguments. -/
def cut (call : Call) (n : Nat) : Call := { call with args := call.args.take n }

variable {call : Call} {n index : Nat}

@[simp] theorem cut_function : (call.cut n).function = call.function := rfl

@[simp] theorem cut_fnRange : (call.cut n).fnRange = call.fnRange := rfl

@[simp] theorem cut_range : (call.cut n).range = call.range := rfl

/-- The arguments that are left are the same ones. -/
@[simp] theorem cut_arg? (h : index < n) : (call.cut n).arg? index = call.arg? index :=
  List.getElem?_take_of_lt h

/-- An argument is there after cutting if it was there before and is not cut off. -/
theorem lt_length_cut_iff (h : index < n) (hn : n ≤ call.args.length) :
    index < (call.cut n).args.length ↔ index < call.args.length := by
  rw [cut, List.length_take]
  omega

/-- An argument with a further one after it is behind the function, however the call is written. -/
@[simp] theorem cut_argIsAdjacent (h : index + 1 < n) (hn : n ≤ call.args.length) :
    (call.cut n).argIsAdjacent index = call.argIsAdjacent index := by
  have hlength := List.length_take_of_le hn
  unfold argIsAdjacent
  rw [cut, hlength]
  cases call.form <;> simp <;> omega

/-- An argument that is found is one of the arguments. -/
theorem lt_of_arg? {a : Expr} (h : call.arg? index = some a) : index < call.args.length :=
  (List.getElem?_eq_some_iff.mp h).1

/-- An argument is among the first ones by its index. -/
theorem mem_take_of_arg? {a : Expr} (h : call.arg? index = some a) (hn : index < n) :
    a ∈ call.args.take n := by
  apply List.mem_of_getElem?
  rw [List.getElem?_take_of_lt hn]
  exact h

theorem le_of_arg? (h : call.arg? index = none) : call.args.length ≤ index :=
  List.getElem?_eq_none_iff.mp h

/-- An argument that is a list is one of the arguments. -/
theorem lt_of_list? {elements : List Expr}
    (h : (call.arg? index).bind Expr.list? = some elements) : index < call.args.length := by
  rcases Option.bind_eq_some_iff.mp h with ⟨a, ha, -⟩
  exact lt_of_arg? ha

end Call

namespace Library

variable (lib : Library) (ctx : Context) {call : Call} {n : Nat} (message : String)

@[simp] theorem displayCall_cut : lib.displayCall (call.cut n) = lib.displayCall call := rfl

@[simp] theorem finding_cut (edits : List Edit) :
    lib.finding (call.cut n) message edits = lib.finding call message edits := rfl

/-- A call is replaced alike without its further arguments: its range stays the same. -/
@[simp] theorem replaceCall_cut (text : String) (atomic : Bool) :
    lib.replaceCall ctx (call.cut n) message text atomic =
      lib.replaceCall ctx call message text atomic := rfl

@[simp] theorem keepArg_cut (kept : Expr) :
    lib.keepArg ctx (call.cut n) message kept = lib.keepArg ctx call message kept := rfl

/-- The argument that is kept is none of those that are cut off. -/
@[simp] theorem keepArgOrIdentity_cut {index : Nat} (h : index < n) :
    lib.keepArgOrIdentity ctx (call.cut n) message index =
      lib.keepArgOrIdentity ctx call message index := by
  unfold keepArgOrIdentity
  rw [Call.cut_arg? h]
  rfl

/-- Whether an argument is lacking does not depend on those behind it. -/
@[simp] theorem valueOrAlways_cut {index : Nat} (h : index < n) (hn : n ≤ call.args.length)
    (value : String) (atomic : Bool) :
    lib.valueOrAlways ctx (call.cut n) message index value atomic =
      lib.valueOrAlways ctx call message index value atomic := by
  unfold valueOrAlways
  rw [if_congr (Call.lt_length_cut_iff h hn) rfl rfl]
  rfl

end Library

/-! ## Rewritten calls -/

namespace Call

/-- A call of a function that takes `n` arguments is rewritten as a whole: with all of them to a
value or a part of an argument, and with fewer to a function. -/
inductive FixedWhole (ctx : Context) (n : Nat) (call : Call) : List Edit → Prop where
  | value (h : n ≤ call.args.length) (text : String) (atomic : Bool) :
    FixedWhole ctx n call [ctx.replaceBy call.range text atomic]
  | part (h : n ≤ call.args.length) {a kept : Expr} (ha : a ∈ call.args.take n)
    (hkept : kept ∈ a.nodes) : FixedWhole ctx n call (ctx.keepOnly call.range kept.stripParens)
  /-- The elements of an argument are lists that become one, without the call. -/
  | joined (h : n ≤ call.args.length) {a first last : Expr} {elements : List Expr}
    (ha : a ∈ call.args.take n) (helements : a.list? = some elements)
    (hfirst : first ∈ elements) (hlast : last ∈ elements) :
    FixedWhole ctx n call (.remove ⟨call.range.start, first.range.start⟩ ::
      .remove ⟨last.range.stop, call.range.stop⟩ :: ctx.mergeLists elements)
  | identity (h : call.args.length < n) :
    FixedWhole ctx n call [ctx.replaceBy call.range (ctx.qualify Core.basics "identity") true]
  | always (h : call.args.length < n) (value : String) :
    FixedWhole ctx n call
      [ctx.replaceBy call.range (ctx.qualify Core.basics "always" ++ " " ++ value) false]

/-- Something in a call of a function that takes `n` arguments is rewritten: elements of a list that
is the first argument, or the function of two arguments with the first of them, which become
`concat`. -/
inductive FixedInside (lib : Library) (ctx : Context) (n : Nat) (call : Call) :
    List Edit → Prop where
  | elements (h : 0 < n) (hle : n ≤ call.args.length) {a : Expr} {elements : List Expr}
    {edits : List Edit} (ha : call.arg? 0 = some a) (helements : a.list? = some elements)
    (hedits : ∀ place start stop,
      Between Expr.range (Expr.Nested place) start elements stop →
        Between Edit.range (fun e => e.range.Proper place) start edits stop) :
    FixedInside lib ctx n call edits
  | renamed (h : n = 2) {a : Expr} (ha : call.arg? 0 = some a) :
    FixedInside lib ctx n call
      [.replace ⟨call.fnRange.start, a.range.stop⟩ (lib.qualify ctx "concat")]

end Call

open Call (FixedWhole FixedInside)

/-- The check does not look at arguments beyond the first `n`. -/
def CallCheck.IgnoresSurplus (n : Nat) (check : CallCheck) : Prop :=
  ∀ lib ctx call, n ≤ call.args.length → check lib ctx (call.cut n) = check lib ctx call

/-- The check is one of a function that takes `n` arguments, and rewrites its calls as a whole. -/
structure CallCheck.Takes (n : Nat) (check : CallCheck) : Prop where
  surplus : check.IgnoresSurplus n
  whole : ∀ lib ctx call, Found (fun f => FixedWhole ctx n call f.edits) (check lib ctx call)

/-- The check is one of a function that takes `n` arguments, and rewrites some of its calls inside
and the others as a whole. -/
structure CallCheck.TakesOr (n : Nat) (cond : Library → Context → Call → Prop)
    (check : CallCheck) : Prop where
  surplus : check.IgnoresSurplus n
  inside : ∀ lib ctx call, cond lib ctx call →
    Found (fun f => FixedInside lib ctx n call f.edits) (check lib ctx call)
  whole : ∀ lib ctx call, ¬ cond lib ctx call →
    Found (fun f => FixedWhole ctx n call f.edits) (check lib ctx call)

namespace Library

variable {call : Call} {n index : Nat} (lib : Library) (ctx : Context) {message : String}

/-- A call with all its arguments is replaced as a whole. -/
theorem replaceCall_whole (h : n ≤ call.args.length) (text : String) (atomic : Bool) :
    FixedWhole ctx n call (lib.replaceCall ctx call message text atomic).edits :=
  .value h text atomic

/-- A part of one of the arguments takes the place of the call. -/
theorem keepArg_whole (h : n ≤ call.args.length) {a kept : Expr} (ha : a ∈ call.args.take n)
    (hkept : kept ∈ a.nodes) : FixedWhole ctx n call (lib.keepArg ctx call message kept).edits :=
  .part h ha hkept

/-- An element of a list that is the last argument is kept. -/
theorem keepElement_whole {elements : List Expr} {e : Expr}
    (helements : (call.arg? index).bind Expr.list? = some elements) (he : e ∈ elements) :
    FixedWhole ctx (index + 1) call (lib.keepArg ctx call message e).edits := by
  rcases Option.bind_eq_some_iff.mp helements with ⟨a, ha, hlist⟩
  exact keepArg_whole lib ctx (Call.lt_of_arg? ha) (Call.mem_take_of_arg? ha index.lt_succ_self)
    (Expr.mem_nodes_of_list? hlist he)

/-- The last argument is kept if the call has it. -/
theorem keepArgOrIdentity_whole :
    FixedWhole ctx (index + 1) call (lib.keepArgOrIdentity ctx call message index).edits := by
  unfold keepArgOrIdentity
  split
  · rename_i kept harg
    exact keepArg_whole lib ctx (Call.lt_of_arg? harg)
      (Call.mem_take_of_arg? harg index.lt_succ_self) kept.mem_nodes_self
  · rename_i harg
    exact .identity (Nat.lt_succ_of_le (Call.le_of_arg? harg))

/-- The value is the result if the call has the last argument. -/
theorem valueOrAlways_whole (value : String) (atomic : Bool) :
    FixedWhole ctx (index + 1) call
      (lib.valueOrAlways ctx call message index value atomic).edits := by
  unfold valueOrAlways
  split
  · rename_i h
    exact .value h value atomic
  · rename_i h
    exact .always (by omega) value

end Library

end Terse
