import Mathlib.Data.List.Forall2
import Terse.Proofs.Tree.Order
import Terse.Proofs.View.Erasure
import Terse.View.Chain

/-!
# Trees that differ in parentheses

Two expressions are twins when they are the same apart from places and from parentheses that group
nothing. Their nodes, parentheses left out, correspond one by one; what stands in one of them faces
what stands at the same node of the other.
-/

namespace Terse

namespace Expr

/-! ## Nodes without parentheses -/

/-- The expression is no pair of parentheses. -/
def isBare : Expr → Bool
  | paren _ _ => false
  | _ => true

/-- The nodes that are no parentheses, each before its own parts. -/
def bareNodes (e : Expr) : List Expr := e.nodes.filter isBare

theorem bareNodes_paren (r : Range) (inner : Expr) :
    (paren r inner).bareNodes = inner.bareNodes := by
  rw [bareNodes, nodes_eq, children, List.flatMap_singleton]
  rfl

/-- The nodes outside parentheses are the node itself and those below its children. -/
theorem bareNodes_eq {e : Expr} (h : e.isBare = true) :
    e.bareNodes = e :: e.children.flatMap bareNodes := by
  rw [bareNodes, nodes_eq, List.filter_cons_of_pos h, List.filter_flatMap]
  rfl

/-- What is left without parentheses is not in parentheses. -/
theorem isBare_stripParens (e : Expr) : e.stripParens.isBare = true := by
  cases h : e.stripParens with
  | paren r inner => exact absurd h (e.stripParens_ne_paren r inner)
  | _ => rfl

theorem stripParens_of_isBare {e : Expr} (h : e.isBare = true) : e.stripParens = e := by
  cases e with
  | paren => cases h
  | _ => rfl

@[simp] theorem bareNodes_stripParens (e : Expr) : e.stripParens.bareNodes = e.bareNodes :=
  apply_stripParens bareNodes_paren e

theorem mem_nodes_of_mem_bareNodes {e x : Expr} (h : x ∈ e.bareNodes) : x ∈ e.nodes :=
  (List.mem_filter.mp h).1

/-- What stands in the parentheses of an expression is its first node without them. -/
theorem stripParens_mem_bareNodes (e : Expr) : e.stripParens ∈ e.bareNodes := by
  rw [← bareNodes_stripParens, bareNodes_eq e.isBare_stripParens]
  exact List.mem_cons_self

/-! ## Erasure -/

/-- An expression without its places and parentheses is not in parentheses. -/
theorem isBare_erase (e : Expr) : e.erase.isBare = true := by
  rw [← e.stripParens_erase]
  exact isBare_stripParens _

theorem eraseSetters_values (ss : List Setter) :
    (eraseSetters ss).map Setter.value = (ss.map Setter.value).map erase := by
  induction ss with
  | nil => rfl
  | cons s ss ih =>
    rcases s with ⟨field, value⟩
    rw [eraseSetters, List.map_cons, ih]
    rfl

theorem eraseBranches_bodies (bs : List Branch) :
    (eraseBranches bs).map Branch.body = (bs.map Branch.body).map erase := by
  induction bs with
  | nil => rfl
  | cons b bs ih =>
    rcases b with ⟨pattern, body⟩
    rw [eraseBranches, List.map_cons, ih]
    rfl

/-- Erasing places and parentheses erases those of the children. -/
theorem children_erase {e : Expr} (h : e.isBare = true) :
    e.erase.children = e.children.map erase := by
  cases e with
  | paren => cases h
  | record | update => exact eraseSetters_values _
  | case _ scrutinee branches =>
    rw [erase, children, children, List.map_cons, eraseBranches_bodies]
  | _ => simp [erase, children, eraseAll_eq_map]

/-- Erasing leaves the nodes that are no parentheses, and erases each of them. -/
theorem bareNodes_erase (e : Expr) : e.erase.bareNodes = e.bareNodes.map erase := by
  induction e using induction_on_children with
  | step e ih =>
    by_cases h : e.isBare = true
    · rw [bareNodes_eq h, bareNodes_eq e.isBare_erase, children_erase h, List.map_cons,
        List.flatMap_map, List.map_flatMap]
      congr 1
      exact List.flatMap_congr ih
    · cases e with
      | paren r inner =>
        rw [erase, bareNodes_paren]
        exact ih inner (List.mem_singleton.mpr rfl)
      | _ => cases h rfl

/-- Expressions that differ in places and parentheses only have as many nodes without
parentheses. -/
theorem length_bareNodes_eq {e e' : Expr} (h : e.erase = e'.erase) :
    e.bareNodes.length = e'.bareNodes.length := by
  rw [← List.length_map erase, ← bareNodes_erase, h, bareNodes_erase, List.length_map]

/-! ## Parentheses that group -/

/-- The expression is an operation of this operator. -/
def isOperation (symbol : String) : Expr → Bool
  | binary _ s _ _ => s == symbol
  | _ => false

/-- The expression is an operator in its own parentheses. -/
def isOperatorFn : Expr → Bool
  | operatorFn _ _ => true
  | _ => false

/-- Which direct parts stand without parentheses where parentheses would tell something: operations
of one composition operator in each other, and an operator that is given two arguments. -/
def grouping : Expr → List Bool
  | app _ fn [_, _] => [fn.isOperatorFn]
  | binary _ symbol left right =>
    if Chain.symbols.contains symbol then [left.isOperation symbol, right.isOperation symbol]
    else []
  | _ => []

/-- How parentheses group the parts of all nodes. -/
def groups (e : Expr) : List Bool := e.bareNodes.flatMap grouping

/-- Two expressions are the same apart from places and from parentheses that group nothing. -/
structure Twin (e e' : Expr) : Prop where
  erase : e.erase = e'.erase
  groups : e.groups = e'.groups

theorem length_grouping_eq {e e' : Expr} (he : e.isBare = true) (he' : e'.isBare = true)
    (h : e.erase = e'.erase) : e.grouping.length = e'.grouping.length := by
  cases e with
  | paren => cases he
  | app r fn args =>
    cases e' with
    | app r' fn' args' =>
      simp only [Expr.erase, app.injEq, eraseAll_eq_map] at h
      have hlength : args.length = args'.length := by simpa using congrArg List.length h.2.2
      -- an application is grouped where it has two arguments, so their number decides
      rcases args with _ | ⟨a, _ | ⟨b, _ | ⟨c, args⟩⟩⟩ <;>
        rcases args' with _ | ⟨a', _ | ⟨b', _ | ⟨c', args'⟩⟩⟩ <;> simp_all [grouping]
    | paren => cases he'
    | _ => simp [Expr.erase] at h
  | binary r symbol left right =>
    cases e' with
    | binary r' symbol' left' right' =>
      simp only [Expr.erase, binary.injEq] at h
      rw [grouping, grouping, ← h.2.1]
      split <;> rfl
    | paren => cases he'
    | _ => simp [Expr.erase] at h
  | _ =>
    cases e' with
    | paren => cases he'
    | app | binary => simp [Expr.erase] at h
    | _ => rfl

namespace Twin

variable {e e' : Expr} (h : e.Twin e')
include h

theorem stripParens : e.stripParens.Twin e'.stripParens := by
  constructor
  · rw [erase_stripParens, erase_stripParens, h.erase]
  · rw [Expr.groups, Expr.groups, bareNodes_stripParens, bareNodes_stripParens]
    exact h.groups

theorem length_bareNodes : e.bareNodes.length = e'.bareNodes.length :=
  length_bareNodes_eq h.erase

omit h in
/-- What is a twin of an expression in parentheses is one of the expression. -/
theorem of_paren {r : Range} {inner : Expr} (h : (paren r inner).Twin e') : inner.Twin e' := by
  refine ⟨h.erase, ?_⟩
  rw [← h.groups, Expr.groups, Expr.groups, bareNodes_paren]

end Twin

/-- The parentheses that group are those around the children and those below. -/
theorem groups_eq {e : Expr} (h : e.isBare = true) :
    e.groups = e.grouping ++ e.children.flatMap groups := by
  rw [groups, bareNodes_eq h, List.flatMap_cons, List.flatMap_assoc]
  rfl

theorem length_groups_eq {e e' : Expr} (h : e.erase = e'.erase) :
    e.groups.length = e'.groups.length := by
  have hall : List.Forall₂ (fun n n' : Expr => n.grouping.length = n'.grouping.length)
      e.bareNodes e'.bareNodes := by
    have hnodes : e.bareNodes.map Expr.erase = e'.bareNodes.map Expr.erase := by
      rw [← bareNodes_erase, ← bareNodes_erase, h]
    rw [← List.forall₂_eq_eq_eq, List.forall₂_map_left_iff, List.forall₂_map_right_iff] at hnodes
    rw [List.forall₂_iff_get] at hnodes ⊢
    refine ⟨hnodes.1, fun i hi hi' => length_grouping_eq ?_ ?_ (hnodes.2 i hi hi')⟩
    · exact (List.mem_filter.mp (List.get_mem e.bareNodes ⟨i, hi⟩)).2
    · exact (List.mem_filter.mp (List.get_mem e'.bareNodes ⟨i, hi'⟩)).2
  rw [groups, groups, List.length_flatMap, List.length_flatMap]
  congr 1
  generalize e.bareNodes = ns, e'.bareNodes = ns' at hall
  induction hall with
  | nil => rfl
  | cons hhead _ ih => rw [List.map_cons, List.map_cons, hhead, ih]

/-- Expressions that erase alike and are grouped alike in a row are twins one by one. -/
theorem forall₂_twin {cs cs' : List Expr} (h : cs.map Expr.erase = cs'.map Expr.erase)
    (hgroups : cs.flatMap groups = cs'.flatMap groups) : List.Forall₂ Twin cs cs' := by
  induction cs generalizing cs' with
  | nil =>
    rw [List.map_nil, eq_comm, List.map_eq_nil_iff] at h
    rw [h]
    exact .nil
  | cons c cs ih =>
    cases cs' with
    | nil => cases h
    | cons c' cs' =>
      rw [List.map_cons, List.map_cons, List.cons.injEq] at h
      rw [List.flatMap_cons, List.flatMap_cons] at hgroups
      rcases List.append_inj hgroups (length_groups_eq h.1) with ⟨hhead, htail⟩
      exact .cons ⟨h.1, hhead⟩ (ih h.2 htail)

/-- Twins that are no parentheses are grouped alike, and their direct parts are twins. -/
theorem Twin.parts {e e' : Expr} (h : e.Twin e') (he : e.isBare = true) (he' : e'.isBare = true) :
    e.grouping = e'.grouping ∧ List.Forall₂ Twin e.children e'.children := by
  have hgroups := h.groups
  rw [groups_eq he, groups_eq he'] at hgroups
  rcases List.append_inj hgroups (length_grouping_eq he he' h.erase) with ⟨hself, hparts⟩
  refine ⟨hself, forall₂_twin ?_ hparts⟩
  rw [← children_erase he, ← children_erase he', h.erase]

/-! ## The same node of twins -/

/-- What stands in the first expression is a twin of what stands at the same node of the second
one. -/
structure Facing (e e' x x' : Expr) : Prop where
  twin : x.Twin x'
  place : ∃ before before' after after', e.bareNodes = before ++ (x.bareNodes ++ after) ∧
    e'.bareNodes = before' ++ (x'.bareNodes ++ after') ∧ before.length = before'.length

/-- The nodes of two expressions below their roots, side by side. -/
def pairs (e e' : Expr) : List (Expr × Expr) :=
  (e.children.flatMap bareNodes).zip (e'.children.flatMap bareNodes)

/-- What is paired below two roots is a node of either root. -/
theorem mem_nodes_of_mem_pairs {e e' n n' : Expr} (h : (n, n') ∈ pairs e e') :
    n ∈ e.nodes ∧ n' ∈ e'.nodes := by
  have hbelow : ∀ {root x : Expr}, x ∈ root.children.flatMap bareNodes → x ∈ root.nodes := by
    intro root x hx
    rcases List.mem_flatMap.mp hx with ⟨c, hc, hx⟩
    exact mem_nodes_of_child hc (mem_nodes_of_mem_bareNodes hx)
  rcases List.of_mem_zip h with ⟨hn, hn'⟩
  exact ⟨hbelow hn, hbelow hn'⟩

/-- Twins face each other. -/
theorem Twin.facing {e e' : Expr} (h : e.Twin e') : Facing e e' e e' :=
  ⟨h, [], [], [], [], by simp, by simp, rfl⟩

namespace Facing

variable {e e' x x' y y' : Expr}

/-- Facing goes on into parts that face each other. -/
theorem trans (h : Facing e e' x x') (h' : Facing x x' y y') : Facing e e' y y' := by
  rcases h.place with ⟨before, before', after, after', heq, heq', hlength⟩
  rcases h'.place with ⟨front, front', rear, rear', hx, hx', hfront⟩
  refine ⟨h'.twin, before ++ front, before' ++ front', rear ++ after, rear' ++ after', ?_, ?_, ?_⟩
  · simp [heq, hx]
  · simp [heq', hx']
  · simp [hlength, hfront]

theorem stripParens (h : Facing e e' x x') : Facing e e' x.stripParens x'.stripParens := by
  rcases h.place with ⟨before, before', after, after', heq, heq', hlength⟩
  refine ⟨h.twin.stripParens, before, before', after, after', ?_, ?_, hlength⟩
  · rw [bareNodes_stripParens, heq]
  · rw [bareNodes_stripParens, heq']

theorem mem_bareNodes (h : Facing e e' x x') :
    x.stripParens ∈ e.bareNodes ∧ x'.stripParens ∈ e'.bareNodes := by
  rcases h.place with ⟨before, before', after, after', heq, heq', -⟩
  rw [heq, heq']
  constructor
  · exact List.mem_append_right _ (List.mem_append_left _ x.stripParens_mem_bareNodes)
  · exact List.mem_append_right _ (List.mem_append_left _ x'.stripParens_mem_bareNodes)

theorem mem_nodes (h : Facing e e' x x') : x.stripParens ∈ e.nodes :=
  mem_nodes_of_mem_bareNodes h.mem_bareNodes.1

theorem mem_nodes' (h : Facing e e' x x') : x'.stripParens ∈ e'.nodes :=
  mem_nodes_of_mem_bareNodes h.mem_bareNodes.2

/-- Twins in a row that take the same stretch of nodes face each other one by one. -/
theorem of_row {before before' after after' cs cs' : List Expr} (hcs : List.Forall₂ Twin cs cs')
    (heq : e.bareNodes = before ++ (cs.flatMap bareNodes ++ after))
    (heq' : e'.bareNodes = before' ++ (cs'.flatMap bareNodes ++ after'))
    (hlength : before.length = before'.length) : List.Forall₂ (Facing e e') cs cs' := by
  induction hcs generalizing before before' with
  | nil => exact .nil
  | @cons c c' cs cs' hc hcs ih =>
    rw [List.flatMap_cons, List.append_assoc] at heq heq'
    refine .cons ⟨hc, before, before', _, _, heq, heq', hlength⟩ ?_
    refine @ih (before ++ c.bareNodes) (before' ++ c'.bareNodes) ?_ ?_ ?_
    · rw [List.append_assoc, heq]
    · rw [List.append_assoc, heq']
    · rw [List.length_append, List.length_append, hlength, hc.length_bareNodes]

end Facing

/-- What faces each other, parentheses left out, is paired. -/
theorem Facing.mem_zip {e e' x x' : Expr} (h : Facing e e' x x') :
    (x.stripParens, x'.stripParens) ∈ e.bareNodes.zip e'.bareNodes := by
  have hlengths := h.twin.length_bareNodes
  rcases h.place with ⟨before, before', after, after', heq, heq', hlength⟩
  rw [heq, heq', List.zip_append hlength, List.zip_append hlengths, ← x.bareNodes_stripParens,
    ← x'.bareNodes_stripParens, bareNodes_eq x.isBare_stripParens,
    bareNodes_eq x'.isBare_stripParens, List.zip_cons_cons]
  exact List.mem_append_right _ (List.mem_append_left _ List.mem_cons_self)

/-- The direct parts of twins that are no parentheses face each other. -/
theorem Twin.facing_children {e e' : Expr} (h : e.Twin e') (he : e.isBare = true)
    (he' : e'.isBare = true) : List.Forall₂ (Facing e e') e.children e'.children := by
  have heq : e.bareNodes = [e] ++ (e.children.flatMap bareNodes ++ []) := by
    simp [bareNodes_eq he]
  have heq' : e'.bareNodes = [e'] ++ (e'.children.flatMap bareNodes ++ []) := by
    simp [bareNodes_eq he']
  exact Facing.of_row (h.parts he he').2 heq heq' rfl

/-! ## Pairs of nodes -/

/-- The nodes of twins in rows are paired within one pair of twins. -/
theorem mem_zip_flatMap {cs cs' : List Expr} (h : List.Forall₂ Twin cs cs') {n n' : Expr} :
    (n, n') ∈ (cs.flatMap bareNodes).zip (cs'.flatMap bareNodes) ↔
      ∃ c c', (c, c') ∈ cs.zip cs' ∧ (n, n') ∈ c.bareNodes.zip c'.bareNodes := by
  induction h with
  | nil => simp
  | @cons c c' cs cs' hc _ ih =>
    rw [List.flatMap_cons, List.flatMap_cons, List.zip_append hc.length_bareNodes, List.mem_append,
      ih, List.zip_cons_cons]
    constructor
    · rintro (hn | ⟨d, d', hd, hn⟩)
      · exact ⟨c, c', List.mem_cons_self, hn⟩
      · exact ⟨d, d', List.mem_cons_of_mem _ hd, hn⟩
    · rintro ⟨d, d', hd, hn⟩
      rcases List.mem_cons.mp hd with heq | hd
      · cases heq
        exact .inl hn
      · exact .inr ⟨d, d', hd, hn⟩

/-- The first pair of nodes is that of the roots, and the others are below. -/
theorem zip_bareNodes {e e' : Expr} (he : e.isBare = true) (he' : e'.isBare = true) :
    e.bareNodes.zip e'.bareNodes = (e, e') :: pairs e e' := by
  rw [bareNodes_eq he, bareNodes_eq he', List.zip_cons_cons, pairs]

theorem mem_zip_of_mem_pairs {e e' n n' : Expr} (he : e.isBare = true) (he' : e'.isBare = true)
    (h : (n, n') ∈ pairs e e') : (n, n') ∈ e.bareNodes.zip e'.bareNodes := by
  rw [zip_bareNodes he he']
  exact List.mem_cons_of_mem _ h

/-- Nodes that are paired face each other. -/
theorem Twin.facing_of_mem_zip {e e' n n' : Expr} (h : e.Twin e')
    (hn : (n, n') ∈ e.bareNodes.zip e'.bareNodes) : Facing e e' n n' := by
  induction e using induction_on_children generalizing e' with
  | step e ih =>
    by_cases he : e.isBare = true
    · -- the root, or a node of one of the direct parts
      have hroot := h.facing.stripParens
      rw [stripParens_of_isBare he] at hroot
      have hbare := e'.isBare_stripParens
      rw [← bareNodes_stripParens e', zip_bareNodes he hbare] at hn
      rcases List.mem_cons.mp hn with heq | hn
      · cases heq
        exact hroot
      · have hchildren := hroot.twin.facing_children he hbare
        rcases (mem_zip_flatMap (hchildren.imp fun _ _ h => h.twin)).mp hn with ⟨c, c', hc, hn⟩
        have hcc := (List.forall₂_iff_zip.mp hchildren).2 hc
        exact hroot.trans (hcc.trans (ih c (List.of_mem_zip hc).1 hcc.twin hn))
    · cases e with
      | paren r inner =>
        have hfacing : Facing (paren r inner) e' inner e' :=
          ⟨h.of_paren, [], [], [], [], by simp [bareNodes_paren], by simp, rfl⟩
        rw [bareNodes_paren] at hn
        exact hfacing.trans (ih inner (List.mem_singleton.mpr rfl) hfacing.twin hn)
      | _ => exact absurd rfl he

section

variable {place place' : Location → Prop} {e e' : Expr} (he : e.Nested place)
  (he' : e'.Nested place')
include he he'

omit he' in
/-- No node of a part stands behind the part. -/
theorem Nested.not_behind_of_mem {k n : Expr} (hk : k.stripParens ∈ e.nodes)
    (hn : n ∈ k.bareNodes) : ¬ k.stripParens.range.stop ≤ n.range.start := by
  rw [← bareNodes_stripParens] at hn
  have hlies := (he.nodes hk).1.nodes (mem_nodes_of_mem_bareNodes hn)
  have hlt := hlies.1.proper.lt
  have hstop := hlies.2.2
  order

section

omit he'

variable {k n : Expr} {before after : List Expr}
  (heq : e.bareNodes = before ++ (k.bareNodes ++ after))
include heq

theorem Nested.not_behind_of_mem_before (hn : n ∈ before) :
    ¬ k.stripParens.range.stop ≤ n.range.start := by
  have hpairs : e.bareNodes.Pairwise fun x y => y ∈ x.nodes ∨ x.range.stop ≤ y.range.start :=
    he.nodes_pairwise.filter isBare
  rw [heq, List.pairwise_append] at hpairs
  have hk : k.stripParens ∈ k.bareNodes ++ after :=
    List.mem_append_left after k.stripParens_mem_bareNodes
  have hnested : n.Nested place :=
    (he.nodes (mem_nodes_of_mem_bareNodes (heq ▸ List.mem_append_left _ hn))).1
  have hknested : k.stripParens.Nested place :=
    (he.nodes (mem_nodes_of_mem_bareNodes (heq ▸ List.mem_append_right _ hk))).1
  have hlt := hnested.proper.lt
  have hklt := hknested.proper.lt
  rcases hpairs.2.2 n hn _ hk with hin | hle
  · have hstart := (hnested.nodes hin).2.1
    order
  · order

/-- The nodes listed after those of a part stand behind the part. -/
theorem Nested.behind_of_mem_after (hn : n ∈ after) :
    k.stripParens.range.stop ≤ n.range.start := by
  have hnodup : e.bareNodes.Nodup := he.nodup_nodes.filter _
  have hpairs : e.bareNodes.Pairwise fun x y => y ∈ x.nodes ∨ x.range.stop ≤ y.range.start :=
    he.nodes_pairwise.filter isBare
  have hbare : n.isBare = true := by
    have hmem : n ∈ e.bareNodes := by
      rw [heq]
      exact List.mem_append_right _ (List.mem_append_right _ hn)
    exact (List.mem_filter.mp hmem).2
  rw [heq, List.pairwise_append, List.pairwise_append] at hpairs
  rw [heq, List.nodup_append, List.nodup_append] at hnodup
  rcases hpairs.2.1.2.2 _ k.stripParens_mem_bareNodes n hn with hin | hle
  · -- a node behind the stretch is none of it
    have hk : n ∈ k.bareNodes := by
      rw [← bareNodes_stripParens]
      exact List.mem_filter.mpr ⟨hin, hbare⟩
    exact absurd rfl (hnodup.2.1.2.2 n hk n hn)
  · exact hle

end

/-- Of two nodes that are paired, both stand in the sides of what faces each other, or neither. -/
theorem Facing.mem_iff {k k' n n' : Expr} (h : Facing e e' k k')
    (hn : (n, n') ∈ e.bareNodes.zip e'.bareNodes) : n ∈ k.bareNodes ↔ n' ∈ k'.bareNodes := by
  rcases h.place with ⟨before, before', after, after', heq, heq', hlength⟩
  have hnodup : e.bareNodes.Nodup := he.nodup_nodes.filter _
  have hnodup' : e'.bareNodes.Nodup := he'.nodup_nodes.filter _
  rw [heq, List.nodup_append] at hnodup
  rw [heq', List.nodup_append] at hnodup'
  rcases hnodup with ⟨-, hrest, hbefore⟩
  rcases hnodup' with ⟨-, hrest', hbefore'⟩
  rw [List.nodup_append] at hrest hrest'
  rw [heq, heq', List.zip_append hlength, List.zip_append h.twin.length_bareNodes,
    List.mem_append, List.mem_append] at hn
  rcases hn with hn | hn | hn
  · -- both nodes stand before the sides
    rcases List.of_mem_zip hn with ⟨hn, hn'⟩
    refine iff_of_false (fun hk => ?_) fun hk => ?_
    · exact hbefore n hn n (List.mem_append_left _ hk) rfl
    · exact hbefore' n' hn' n' (List.mem_append_left _ hk) rfl
  · exact iff_of_true (List.of_mem_zip hn).1 (List.of_mem_zip hn).2
  · rcases List.of_mem_zip hn with ⟨hn, hn'⟩
    refine iff_of_false (fun hk => ?_) fun hk => ?_
    · exact hrest.2.2 n hk n hn rfl
    · exact hrest'.2.2 n' hk n' hn' rfl

/-- A node stands behind what faces another expression exactly when its pair does there. -/
theorem Facing.behind_iff {k k' n n' : Expr} (h : Facing e e' k k')
    (hn : (n, n') ∈ e.bareNodes.zip e'.bareNodes) :
    k.stripParens.range.stop ≤ n.range.start ↔ k'.stripParens.range.stop ≤ n'.range.start := by
  rcases h.place with ⟨before, before', after, after', heq, heq', hlength⟩
  rw [heq, heq', List.zip_append hlength, List.zip_append h.twin.length_bareNodes,
    List.mem_append, List.mem_append] at hn
  rcases hn with hn | hn | hn
  · rcases List.of_mem_zip hn with ⟨hn, hn'⟩
    exact iff_of_false (he.not_behind_of_mem_before heq hn)
      (he'.not_behind_of_mem_before heq' hn')
  · rcases List.of_mem_zip hn with ⟨hn, hn'⟩
    exact iff_of_false (he.not_behind_of_mem h.mem_nodes hn)
      (he'.not_behind_of_mem h.mem_nodes' hn')
  · rcases List.of_mem_zip hn with ⟨hn, hn'⟩
    exact iff_of_true (he.behind_of_mem_after heq hn) (he'.behind_of_mem_after heq' hn')

/-- A node ends before what faces another expression exactly when its pair does there. -/
theorem Facing.before_iff {k k' n n' : Expr} (htwin : e.Twin e') (h : Facing e e' k k')
    (hn : (n, n') ∈ e.bareNodes.zip e'.bareNodes) :
    n.range.stop ≤ k.stripParens.range.start ↔ n'.range.stop ≤ k'.stripParens.range.start := by
  have hbare := (List.mem_filter.mp (List.of_mem_zip hn).1).2
  have hbare' := (List.mem_filter.mp (List.of_mem_zip hn).2).2
  have hbehind := (htwin.facing_of_mem_zip hn).behind_iff he he' h.mem_zip
  rwa [stripParens_of_isBare hbare, stripParens_of_isBare hbare'] at hbehind

end

/-! ## The order of pairs -/

/-- The second pair of nodes stands below the first one, or behind it on both sides. -/
def PairPrecedes (p q : Expr × Expr) : Prop :=
  q ∈ pairs p.1 p.2 ∨ p.1.range.stop ≤ q.1.range.start ∧ p.2.range.stop ≤ q.2.range.start

/-- Two expressions that are twins in two texts, with the pairs of their nodes in order. -/
structure PairedInOrder (place place' : Location → Prop) (e e' : Expr) : Prop where
  twin : e.Twin e'
  nested : e.Nested place
  nested' : e'.Nested place'
  precedes : (e.bareNodes.zip e'.bareNodes).Pairwise PairPrecedes

section

variable {place place' : Location → Prop}

/-- The pairs of rows of twins are in order, if those of each two twins are. -/
theorem zip_flatMap_precedes {cs cs' : List Expr}
    (h : List.Forall₂ (PairedInOrder place place') cs cs')
    (hcs : cs.Pairwise fun a b => a.range.stop ≤ b.range.start)
    (hcs' : cs'.Pairwise fun a b => a.range.stop ≤ b.range.start) :
    ((cs.flatMap bareNodes).zip (cs'.flatMap bareNodes)).Pairwise PairPrecedes := by
  induction h with
  | nil => exact .nil
  | @cons c c' cs cs' hc hrest ih =>
    rw [List.pairwise_cons] at hcs hcs'
    rw [List.flatMap_cons, List.flatMap_cons, List.zip_append hc.twin.length_bareNodes,
      List.pairwise_append]
    refine ⟨hc.precedes, ih hcs.2 hcs'.2, fun p hp q hq => .inr ?_⟩
    -- each side of a pair lies in its own root, and the roots stand in order
    rcases List.of_mem_zip hp with ⟨hp, hp'⟩
    rcases (mem_zip_flatMap (hrest.imp fun _ _ h => h.twin)).mp hq with ⟨d, d', hd, hq⟩
    rcases List.of_mem_zip hq with ⟨hq, hq'⟩
    have hdd := (List.forall₂_iff_zip.mp hrest).2 hd
    rcases List.of_mem_zip hd with ⟨hd, hd'⟩
    have hplies := hc.nested.nodes (mem_nodes_of_mem_bareNodes hp)
    have hplies' := hc.nested'.nodes (mem_nodes_of_mem_bareNodes hp')
    have hqlies := hdd.nested.nodes (mem_nodes_of_mem_bareNodes hq)
    have hqlies' := hdd.nested'.nodes (mem_nodes_of_mem_bareNodes hq')
    exact ⟨hplies.2.2.trans ((hcs.1 d hd).trans hqlies.2.1),
      hplies'.2.2.trans ((hcs'.1 d' hd').trans hqlies'.2.1)⟩

/-- The pairs of nodes of twins are in order. -/
theorem Twin.pairedInOrder {e e' : Expr} (h : e.Twin e') (he : e.Nested place)
    (he' : e'.Nested place') : PairedInOrder place place' e e' := by
  refine ⟨h, he, he', ?_⟩
  induction e using induction_on_children generalizing e' with
  | step e ih =>
    by_cases hbare : e.isBare = true
    · have hstripped : e'.stripParens.Nested place' :=
        (Lies.stripParens ⟨he', le_rfl, le_rfl⟩).1
      have htwin : e.Twin e'.stripParens := by
        rw [← stripParens_of_isBare hbare]
        exact h.stripParens
      have hbare' := e'.isBare_stripParens
      have hparts := (htwin.parts hbare hbare').2
      have hrows : List.Forall₂ (PairedInOrder place place') e.children e'.stripParens.children := by
        rw [List.forall₂_iff_zip] at hparts ⊢
        refine ⟨hparts.1, fun {c c'} hc => ?_⟩
        have hmem := (List.of_mem_zip hc).1
        have hcTwin := hparts.2 hc
        have hnested := (he.children hmem).1
        have hnested' := (hstripped.children (List.of_mem_zip hc).2).1
        exact ⟨hcTwin, hnested, hnested', ih c hmem hcTwin hnested hnested'⟩
      rw [← bareNodes_stripParens e', zip_bareNodes hbare hbare', List.pairwise_cons]
      exact ⟨fun q hq => .inl hq,
        zip_flatMap_precedes hrows he.children_pairwise hstripped.children_pairwise⟩
    · cases e with
      | paren r inner =>
        rw [bareNodes_paren]
        have hinner : inner ∈ (paren r inner).children := List.mem_singleton.mpr rfl
        exact ih inner hinner h.of_paren (he.children hinner).1 he'
      | _ => exact absurd rfl hbare

end

end Expr

end Terse
