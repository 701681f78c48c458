import Mathlib.Data.Option.Basic
import Mathlib.Tactic.Order
import Terse.Proofs.Rule.Family
import Terse.Proofs.Rule.Verdict
import Terse.Proofs.View.Twin

/-!
# Findings at twins

A finding mirrors another one when both say the same and their fixes change the same nodes, each in
its own tree. A fix that shrinks a node to a part of it changes all nodes below but those of that
part; so whatever is kept on both sides, if it faces each other, the findings mirror each other.
-/

namespace Terse

/-! ## What edits hit -/

/-- The edits of a shrunk node stand beside what is kept. -/
theorem Context.mem_keepOnly (ctx : Context) {whole : Range} {kept : Expr} {edit : Edit}
    (h : edit ∈ ctx.keepOnly whole kept) :
    edit.range.stop ≤ kept.range.start ∨ kept.range.stop ≤ edit.range.start := by
  have hbeside : ∀ {beside : Range} {edge : Location} {parenthesis : String},
      edit ∈ besideWrapped beside edge parenthesis →
        edit.range = Range.point edge ∨ edit.range = beside := by
    intro beside edge parenthesis h
    unfold besideWrapped at h
    split at h <;> rcases List.mem_singleton.mp h with rfl
    · exact .inl rfl
    · exact .inr rfl
  have hbare : ∀ {beside : Range}, edit ∈ besideBare beside → edit.range = beside := by
    intro beside h
    unfold besideBare at h
    split at h
    · cases h
    · rcases List.mem_singleton.mp h with rfl
      rfl
  unfold keepOnly at h
  dsimp only at h
  split at h <;> rcases List.mem_append.mp h with h | h
  · rcases hbeside h with heq | heq <;> rw [heq]
    · exact .inl le_rfl
    · exact .inl le_rfl
  · rcases hbeside h with heq | heq <;> rw [heq]
    · exact .inr le_rfl
    · exact .inr le_rfl
  · rw [hbare h]
    exact .inl le_rfl
  · rw [hbare h]
    exact .inr le_rfl

/-- Some edit changes something between the ends of the range, or inserts there. -/
def Hit (edits : List Edit) (r : Range) : Prop :=
  ∃ edit ∈ edits, edit.range.start < r.stop ∧ r.start < edit.range.stop

section

variable {edit : Edit} {edits more : List Edit} {r : Range}

@[simp] theorem not_hit_nil : ¬ Hit [] r := by
  simp [Hit]

@[simp] theorem hit_cons : Hit (edit :: edits) r ↔
    (edit.range.start < r.stop ∧ r.start < edit.range.stop) ∨ Hit edits r := by
  simp [Hit]

@[simp] theorem hit_append : Hit (edits ++ more) r ↔ Hit edits r ∨ Hit more r := by
  simp [Hit, or_and_right, exists_or]

/-- What is hit in a range is hit in every range around it. -/
theorem Hit.mono {r' : Range} (h : Hit edits r) (hstart : r'.start ≤ r.start)
    (hstop : r.stop ≤ r'.stop) : Hit edits r' := by
  rcases h with ⟨edit, hedit, hlt, hlt'⟩
  exact ⟨edit, hedit, hlt.trans_le hstop, hstart.trans_lt hlt'⟩

/-- An edit hits what it covers. -/
theorem hit_of_covers (hedit : edit ∈ edits) (hr : r.start < r.stop)
    (hstart : edit.range.start ≤ r.start) (hstop : r.stop ≤ edit.range.stop) : Hit edits r :=
  ⟨edit, hedit, hstart.trans_lt hr, hr.trans_le hstop⟩

/-- Edits that stand before a range or behind it do not hit it. -/
theorem not_hit_of_apart
    (h : ∀ edit ∈ edits, edit.range.stop ≤ r.start ∨ r.stop ≤ edit.range.start) :
    ¬ Hit edits r := by
  rintro ⟨edit, hedit, hstart, hstop⟩
  rcases h edit hedit with hle | hle
  · exact absurd hstop (not_lt.mpr hle)
  · exact absurd hstart (not_lt.mpr hle)

end

/-! ## Findings that mirror each other -/

/-- Two findings say the same, and on a condition their fixes hit the same nodes below the roots. -/
structure Finding.Mirrors (P : Prop) (e e' : Expr) (f f' : Finding) : Prop where
  verdict : f.verdict = f'.verdict
  hits : P → ∀ n n', (n, n') ∈ Expr.pairs e e' → (Hit f.edits n.range ↔ Hit f'.edits n'.range)

/-- Either nothing is found on both sides, or findings that mirror each other. -/
abbrev Mirrored (P : Prop) (e e' : Expr) : Option Finding → Option Finding → Prop :=
  Option.Rel (Finding.Mirrors P e e')

/-- Findings that mirror each other say the same. -/
theorem Mirrored.verdict {P : Prop} {e e' : Expr} {a a' : Option Finding}
    (h : Mirrored P e e' a a') : a.map Finding.verdict = a'.map Finding.verdict := by
  cases h with
  | none => rfl
  | some hmirrors => exact congrArg some hmirrors.verdict

/-- The edits hit every node below an expression but those of some of its parts. -/
def Spares (e : Expr) (parts : List Expr) (edits : List Edit) : Prop :=
  ∀ n ∈ e.children.flatMap Expr.bareNodes, Hit edits n.range ↔ ∀ k ∈ parts, n ∉ k.bareNodes

/-- Checks that ask the same question first mirror each other when both answers do. -/
theorem Mirrored.ite {P : Prop} {e e' : Expr} {c : Prop} [Decidable c]
    {a a' b b' : Option Finding} (ha : Mirrored P e e' a a') (hb : Mirrored P e e' b b') :
    Mirrored P e e' (if c then a else b) (if c then a' else b') := by
  split
  · exact ha
  · exact hb

/-- What mirrors on a condition mirrors on every stronger one. -/
theorem Mirrored.mono {P Q : Prop} {e e' : Expr} {a a' : Option Finding}
    (h : Mirrored P e e' a a') (hPQ : Q → P) : Mirrored Q e e' a a' := by
  cases h with
  | none => exact .none
  | some h => exact .some ⟨h.verdict, h.hits ∘ hPQ⟩

/-- Findings made of parts that face each other mirror each other when each pair does. -/
theorem Mirrored.map {P : Prop} {e e' : Expr} {α : Type} {R : α → α → Prop} {a a' : Option α}
    {g g' : α → Finding} (h : Option.Rel R a a')
    (hg : ∀ x x', R x x' → (g x).Mirrors P e e' (g' x')) :
    Mirrored P e e' (a.map g) (a'.map g') := by
  cases h with
  | none => exact .none
  | some h => exact .some (hg _ _ h)

/-- The first of two findings mirrors the first of the others. -/
theorem Mirrored.or {P : Prop} {e e' : Expr} {a a' b b' : Option Finding}
    (ha : Mirrored P e e' a a') (hb : Mirrored P e e' b b') :
    Mirrored P e e' (a.or b) (a'.or b') := by
  cases ha with
  | none => exact hb
  | some h => exact .some h

/-- Two nested expressions that are no parentheses and twins of each other, in two texts. -/
structure Expr.Twins (place place' : Location → Prop) (e e' : Expr) : Prop where
  twin : e.Twin e'
  nested : e.Nested place
  nested' : e'.Nested place'
  bare : e.isBare = true
  bare' : e'.isBare = true

variable {place place' : Location → Prop} {e e' : Expr}

theorem forall_mem_iff_of_forall₂ {α β : Type} {R : α → β → Prop} {as : List α}
    {bs : List β} (h : List.Forall₂ R as bs) {p : α → Prop} {q : β → Prop}
    (hpq : ∀ a b, R a b → (p a ↔ q b)) : (∀ a ∈ as, p a) ↔ ∀ b ∈ bs, q b := by
  induction h with
  | nil => simp
  | cons hab _ ih => rw [List.forall_mem_cons, List.forall_mem_cons, hpq _ _ hab, ih]

/-! ## Fixes that spare a part -/

section

variable (he : e.Nested place)
include he

/-- Nodes below a nested root are parts of it. -/
theorem Expr.Nested.lies_of_mem_parts {n : Expr} (hn : n ∈ e.children.flatMap bareNodes) :
    n ∈ e.nodes ∧ n.PartOf place e.range := by
  rcases List.mem_flatMap.mp hn with ⟨c, hc, hn⟩
  have hn := mem_nodes_of_mem_bareNodes hn
  exact ⟨mem_nodes_of_child hc hn, (he.children_part hc).of_lies ((he.children hc).1.nodes hn)⟩

/-- Edits that leave some parts alone, and hit every node outside them, spare the parts. -/
theorem spares_of_apart {parts : List Expr} {edits : List Edit}
    (hparts : ∀ k ∈ parts, k.Nested place ∧
      ∀ edit ∈ edits, edit.range.stop ≤ k.range.start ∨ k.range.stop ≤ edit.range.start)
    (hrest : ∀ n ∈ e.children.flatMap Expr.bareNodes, n.range.start < n.range.stop →
      (∀ k ∈ parts, n ∉ k.bareNodes) → Hit edits n.range) : Spares e parts edits := by
  intro n hn
  refine ⟨fun hhit k hk hin => ?_, hrest n hn (he.lies_of_mem_parts hn).2.1.1.proper.lt⟩
  rcases hparts k hk with ⟨hnested, hapart⟩
  rcases hnested.nodes (Expr.mem_nodes_of_mem_bareNodes hin) with ⟨-, hstart, hstop⟩
  exact not_hit_of_apart hapart (hhit.mono hstart hstop)

/-- A fix that replaces an expression spares nothing of it. -/
theorem spares_whole {edit : Edit} (h : edit.range = e.range) : Spares e [] [edit] := by
  intro n hn
  rcases (he.lies_of_mem_parts hn).2 with ⟨⟨hnested, hstart, hstop⟩, -⟩
  have hlt := hnested.proper.lt
  simp only [hit_cons, not_hit_nil, or_false, h, List.not_mem_nil, false_implies, implies_true,
    iff_true]
  exact ⟨by order, by order⟩

/-- What shrinks an expression to a part spares that part. -/
theorem spares_keepOnly (ctx : Context) {k : Expr} (hkept : k.stripParens ∈ e.nodes) :
    Spares e [k] (ctx.keepOnly e.range k.stripParens) := by
  intro n hn
  rcases he.lies_of_mem_parts hn with ⟨hmem, ⟨hnested, hstart, hstop⟩, -⟩
  have hlt := hnested.proper.lt
  have hbare : n.isBare = true := by
    rcases List.mem_flatMap.mp hn with ⟨c, -, hn⟩
    exact (List.mem_filter.mp hn).2
  have hmemIff : n ∈ k.bareNodes ↔ n ∈ k.stripParens.nodes := by
    rw [← Expr.bareNodes_stripParens, Expr.bareNodes, List.mem_filter]
    exact and_iff_left hbare
  rw [List.forall_mem_singleton, hmemIff]
  constructor
  · -- the edits stand beside the part
    intro hhit hin
    have hlies := (he.nodes hkept).1.nodes hin
    refine not_hit_of_apart (fun edit hedit => ?_) hhit
    rcases ctx.mem_keepOnly hedit with hle | hle
    · exact .inl (hle.trans hlies.2.1)
    · exact .inr (hlies.2.2.trans hle)
  · intro hout
    have hbefore : n.range.start < k.stripParens.range.start →
        Hit (ctx.keepOnly e.range k.stripParens) n.range := by
      intro hlt'
      rcases ctx.exists_keepOnly_before (hstart.trans_lt hlt') with ⟨edit, hedit, hrange⟩
      exact ⟨edit, hedit, by rw [hrange]; exact ⟨show e.range.start < _ by order, hlt'⟩⟩
    have hafter : k.stripParens.range.stop < n.range.stop →
        Hit (ctx.keepOnly e.range k.stripParens) n.range := by
      intro hlt'
      rcases ctx.exists_keepOnly_after (hlt'.trans_le hstop) with ⟨edit, hedit, hrange⟩
      exact ⟨edit, hedit, by rw [hrange]; exact ⟨hlt', show _ < e.range.stop by order⟩⟩
    have hkeptLt := (he.nodes hkept).1.proper.lt
    rcases he.mem_or_apart hmem hkept with hin | hin | hle | hle
    · exact absurd hin hout
    · -- the node holds the part and more
      have hne : k.stripParens ≠ n := by
        intro heq
        rw [heq] at hout
        exact hout n.mem_nodes_self
      rcases (hnested.part_of_mem hin hne).2 with hlt' | hlt'
      · exact hbefore hlt'
      · exact hafter hlt'
    · exact hbefore (by order)
    · exact hafter (by order)

end

/-! ## Fixes that mirror each other -/

namespace Expr.Twins

variable (h : e.Twins place place' e')
include h

/-- Findings whose fixes spare parts that face each other mirror each other. -/
theorem mirrors_of_spares {P : Prop} {f f' : Finding} (hverdict : f.verdict = f'.verdict)
    {parts parts' : List Expr} (hparts : P → List.Forall₂ (Facing e e') parts parts')
    (hf : Spares e parts f.edits) (hf' : Spares e' parts' f'.edits) : f.Mirrors P e e' f' := by
  refine ⟨hverdict, ?_⟩
  intro hP n n' hn
  rcases List.of_mem_zip hn with ⟨hmem, hmem'⟩
  have hzip := mem_zip_of_mem_pairs h.bare h.bare' hn
  rw [hf n hmem, hf' n' hmem']
  exact forall_mem_iff_of_forall₂ (hparts hP) fun k k' hk =>
    not_congr (hk.mem_iff h.nested h.nested' hzip)

/-- Fixes that replace the expressions mirror each other. -/
theorem mirrors_whole {P : Prop} {f f' : Finding} (hverdict : f.verdict = f'.verdict)
    {edit edit' : Edit} (hf : f.edits = [edit]) (hf' : f'.edits = [edit'])
    (hrange : edit.range = e.range) (hrange' : edit'.range = e'.range) : f.Mirrors P e e' f' := by
  apply h.mirrors_of_spares hverdict (fun _ => .nil)
  · rw [hf]
    exact spares_whole h.nested hrange
  · rw [hf']
    exact spares_whole h.nested' hrange'

/-- Fixes that shrink the expressions to parts that face each other mirror each other. -/
theorem mirrors_keepOnly {P : Prop} {f f' : Finding} (hverdict : f.verdict = f'.verdict)
    {k k' : Expr} (hk : Facing e e' k k') {ctx ctx' : Context}
    (hf : f.edits = ctx.keepOnly e.range k.stripParens)
    (hf' : f'.edits = ctx'.keepOnly e'.range k'.stripParens) : f.Mirrors P e e' f' := by
  apply h.mirrors_of_spares hverdict (fun _ => .cons hk .nil)
  · rw [hf]
    exact spares_keepOnly h.nested ctx hk.mem_nodes
  · rw [hf']
    exact spares_keepOnly h.nested' ctx' hk.mem_nodes'

section

variable {P : Prop} {ctx ctx' : Context} {rule : RuleCode} {message : String}
  {details details' : List String} {range range' : Range}

/-- Findings that replace twins by texts mirror each other. -/
theorem replaced {text text' : String} {atomic atomic' : Bool} :
    (Finding.fixing rule message details range [ctx.replaceBy e.range text atomic]).Mirrors P e e'
      (.fixing rule message details' range' [ctx'.replaceBy e'.range text' atomic']) :=
  h.mirrors_whole rfl rfl rfl rfl rfl

/-- Findings that keep parts of twins that face each other mirror each other. -/
theorem kept {k k' : Expr} (hk : Facing e e' k k') :
    (Finding.fixing rule message details range (ctx.keepOnly e.range k.stripParens)).Mirrors P e e'
      (.fixing rule message details' range' (ctx'.keepOnly e'.range k'.stripParens)) :=
  h.mirrors_keepOnly rfl hk rfl rfl

end

end Expr.Twins

/-! ## Calls -/

/-- Twins that are both calls. -/
structure Call.Twins (place place' : Location → Prop) (ctx : Context) (e e' : Expr)
    (c c' : Call) : Prop where
  twins : e.Twins place place' e'
  call : ofExpr? ctx e = some c
  call' : ofExpr? ctx e' = some c'
  facing : Call.Facing e e' c c'

/-- Twins are both calls, and these are twins, or neither of them is a call. -/
theorem Expr.Twins.ofExpr? (h : e.Twins place place' e') (ctx : Context) :
    Option.Rel (Call.Twins place place' ctx e e') (Call.ofExpr? ctx e) (Call.ofExpr? ctx e') := by
  have hfacing := Call.facing_within ctx h.twin.facing e.range e'.range
  change Option.Rel _ (Call.ofExpr? ctx e) (Call.ofExpr? ctx e') at hfacing
  generalize hc : Call.ofExpr? ctx e = c, hc' : Call.ofExpr? ctx e' = c' at hfacing ⊢
  cases hfacing with
  | none => exact .none
  | some hfacing => exact .some ⟨h, hc, hc', hfacing⟩

/-- Edits that hit the function of a call, and every argument but some, spare these. -/
theorem Call.spares_args {ctx : Context} {c : Call} (he : e.Nested place)
    (hcall : ofExpr? ctx e = some c) {kept : List Expr} {edits : List Edit}
    (hfn : Hit edits c.fnRange)
    (hkept : ∀ k ∈ kept, k ∈ c.args ∧
      ∀ edit ∈ edits, edit.range.stop ≤ k.range.start ∨ k.range.stop ≤ edit.range.start)
    (hgone : ∀ a ∈ c.args, a ∈ kept ∨
      ∃ edit ∈ edits, edit.range.start ≤ a.range.start ∧ a.range.stop ≤ edit.range.stop) :
    Spares e kept edits := by
  have hargs : ∀ a ∈ c.args, a.Nested place := fun a ha =>
    ((ofExpr?_fills he hcall).1.arg_lies ha).1
  apply spares_of_apart he
  · exact fun k hk => ⟨hargs k (hkept k hk).1, (hkept k hk).2⟩
  · intro n hn hlt hout
    rcases mem_args_or_holds he hcall (he.lies_of_mem_parts hn).1 with
      ⟨a, ha, hin⟩ | ⟨hstart, hstop⟩
    · rcases hgone a ha with hkeep | ⟨edit, hedit, hstart, hstop⟩
      · have hbare : n.isBare = true := by
          rcases List.mem_flatMap.mp hn with ⟨child, -, hn⟩
          exact (List.mem_filter.mp hn).2
        exact absurd (List.mem_filter.mpr ⟨hin, hbare⟩) (hout a hkeep)
      · have hlies := (hargs a ha).nodes hin
        exact hit_of_covers hedit hlt (hstart.trans hlies.2.1) (hlies.2.2.trans hstop)
    · exact hfn.mono hstart hstop

/-- A fix from the function of a call to the end of the first argument spares the other ones. -/
theorem Call.spares_behind_first {ctx : Context} {c : Call} (he : e.Nested place)
    (hcall : ofExpr? ctx e = some c) {first : Expr} {more : List Expr}
    (hargs : c.args = first :: more) (hbehind : first ∈ c.behind) (text : String) :
    Spares e more [.replace ⟨c.fnRange.start, first.range.stop⟩ text] := by
  have hfills := (ofExpr?_fills he hcall).1
  have hfn := hfills.stands.fn.lt
  rcases hfills.behind_lies hbehind with ⟨hnested, hstart, -⟩
  have hlt := hnested.proper.lt
  have hpairs := within_args_pairwise he hcall
  rw [hargs, List.pairwise_cons] at hpairs
  apply spares_args he hcall
  · exact ⟨_, List.mem_singleton_self _, hfn, show c.fnRange.start < first.range.stop by order⟩
  · intro k hk
    refine ⟨by rw [hargs]; exact List.mem_cons_of_mem _ hk, ?_⟩
    rw [List.forall_mem_singleton]
    exact hpairs.1 k hk
  · intro a ha
    rw [hargs] at ha
    rcases List.mem_cons.mp ha with rfl | ha
    · exact .inr ⟨_, List.mem_singleton_self _, show c.fnRange.start ≤ a.range.start by order,
        le_rfl⟩
    · exact .inl ha

/-- What the check finds in calls that are twins mirrors each other. -/
def CallCheck.Mirrors (check : CallCheck) : Prop :=
  ∀ {place place' : Location → Prop} (lib : Library) {ctx : Context} (source : SourceText)
    (isFree : Bool) {e e' : Expr} {c c' : Call}, Call.Twins place place' ctx e e' c c' →
      Mirrored True e e' (check lib ctx c) (check lib (ctx.moved source isFree) c')

theorem rel_getElem? {α β : Type} {R : α → β → Prop} {as : List α} {bs : List β}
    (h : List.Forall₂ R as bs) (i : Nat) : Option.Rel R as[i]? bs[i]? := by
  induction h generalizing i with
  | nil => exact .none
  | cons hab _ ih =>
    cases i with
    | zero => exact .some hab
    | succ i => exact ih i

section

variable {α β : Type} {R : α → β → Prop} {as : List α} {bs : List β} {p : α → Bool}
  {q : β → Bool} (h : List.Forall₂ R as bs) (hpq : ∀ a b, R a b → q b = p a)
include h hpq

theorem rel_find? : Option.Rel R (as.find? p) (bs.find? q) := by
  induction h with
  | nil => exact .none
  | cons hab _ ih =>
    rw [List.find?_cons, List.find?_cons, hpq _ _ hab]
    split
    · exact .some hab
    · exact ih

theorem all_eq_all : bs.all q = as.all p := by
  induction h with
  | nil => rfl
  | cons hab _ ih => rw [List.all_cons, List.all_cons, hpq _ _ hab, ih]

end

namespace Call.Twins

variable {ctx : Context} {c c' : Call} (h : Call.Twins place place' ctx e e' c c')
include h

theorem range : c.range = e.range := (ofExpr?_fills h.twins.nested h.call).2

theorem range' : c'.range = e'.range := (ofExpr?_fills h.twins.nested' h.call').2

/-- An argument of a call faces that of its twin. -/
theorem arg? (i : Nat) : Option.Rel (Expr.Facing e e') (c.arg? i) (c'.arg? i) :=
  rel_getElem? h.facing.args i

theorem list? (i : Nat) : Option.Rel (List.Forall₂ (Expr.Facing e e'))
    ((c.arg? i).bind Expr.list?) ((c'.arg? i).bind Expr.list?) := by
  have harg := h.arg? i
  generalize c.arg? i = a, c'.arg? i = a' at harg ⊢
  cases harg with
  | none => exact .none
  | some ha => exact ha.list?

theorem int? (i : Nat) : (c'.arg? i).bind Expr.int? = (c.arg? i).bind Expr.int? := by
  have harg := h.arg? i
  generalize c.arg? i = a, c'.arg? i = a' at harg ⊢
  cases harg with
  | none => rfl
  | some ha => exact ha.twin.int?

theorem string? (i : Nat) : (c'.arg? i).bind Expr.string? = (c.arg? i).bind Expr.string? := by
  have harg := h.arg? i
  generalize c.arg? i = a, c'.arg? i = a' at harg ⊢
  cases harg with
  | none => rfl
  | some ha => exact ha.twin.string?

theorem length_args : c'.args.length = c.args.length := h.facing.args.length_eq.symm

/-- Twin calls are displayed alike. -/
theorem displayCall (lib : Library) : lib.displayCall c' = lib.displayCall c := by
  rw [Library.displayCall, Library.displayCall, h.facing.function]

theorem argIsAdjacent (i : Nat) : c'.argIsAdjacent i = c.argIsAdjacent i := by
  rw [Call.argIsAdjacent, Call.argIsAdjacent, h.facing.form, h.length_args]

variable {P : Prop} (lib : Library) {ctx' : Context} {message message' : String}
  (hmessage : message = message')
include hmessage

/-- Fixes that rewrite twin calls as a whole mirror each other. -/
theorem replaceCall (text text' : String) (atomic atomic' : Bool) :
    (lib.replaceCall ctx c message text atomic).Mirrors P e e'
      (lib.replaceCall ctx' c' message' text' atomic') :=
  h.twins.mirrors_whole (by rw [hmessage]; rfl) rfl rfl h.range h.range'

/-- Fixes that keep arguments that face each other mirror each other. -/
theorem keepArg {k k' : Expr} (hk : Expr.Facing e e' k k') :
    (lib.keepArg ctx c message k).Mirrors P e e' (lib.keepArg ctx' c' message' k') := by
  apply h.twins.mirrors_keepOnly (by rw [hmessage]; rfl) hk
  · rw [← h.range]
    rfl
  · rw [← h.range']
    rfl

/-- Fixes that keep one argument of twin calls mirror each other. -/
theorem keepArgOrIdentity (i : Nat) :
    (lib.keepArgOrIdentity ctx c message i).Mirrors P e e'
      (lib.keepArgOrIdentity ctx' c' message' i) := by
  have harg := h.arg? i
  unfold Library.keepArgOrIdentity
  generalize c.arg? i = a, c'.arg? i = a' at harg ⊢
  cases harg with
  | none => exact h.replaceCall lib hmessage _ _ _ _
  | some hk => exact h.keepArg lib hmessage hk

/-- Fixes that write a value for twin calls mirror each other. -/
theorem valueOrAlways (i : Nat) (value value' : String) (atomic atomic' : Bool) :
    (lib.valueOrAlways ctx c message i value atomic).Mirrors P e e'
      (lib.valueOrAlways ctx' c' message' i value' atomic') := by
  unfold Library.valueOrAlways
  rw [h.length_args]
  split
  · exact h.replaceCall lib hmessage _ _ _ _
  · exact h.replaceCall lib hmessage _ _ _ _

omit h hmessage in
/-- A fix from the function to the end of the first argument mirrors that of the twin. -/
theorem through_first (h : Call.Twins place place' ctx e e' c c') {f f' : Finding}
    (hverdict : f.verdict = f'.verdict) {a a' : Expr} (ha : c.arg? 0 = some a)
    (ha' : c'.arg? 0 = some a') (hadjacent : c.argIsAdjacent 0 = true) {text text' : String}
    (hf : f.edits = [.replace ⟨c.fnRange.start, a.range.stop⟩ text])
    (hf' : f'.edits = [.replace ⟨c'.fnRange.start, a'.range.stop⟩ text']) :
    f.Mirrors P e e' f' := by
  have hbehind := mem_behind_of_adjacent ha hadjacent
  have hbehind' := mem_behind_of_adjacent ha' (h.argIsAdjacent 0 ▸ hadjacent)
  have hargs := h.facing.args
  rw [Call.arg?, ← List.head?_eq_getElem?, List.head?_eq_some_iff] at ha ha'
  rcases ha with ⟨more, heq⟩
  rcases ha' with ⟨more', heq'⟩
  rw [heq, heq'] at hargs
  apply h.twins.mirrors_of_spares hverdict fun _ => (List.forall₂_cons.mp hargs).2
  · rw [hf]
    exact spares_behind_first h.twins.nested h.call heq hbehind text
  · rw [hf']
    exact spares_behind_first h.twins.nested' h.call' heq' hbehind' text'

end Call.Twins

end Terse
