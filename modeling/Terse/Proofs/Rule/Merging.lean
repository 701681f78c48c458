import Mathlib.Data.List.Chain
import Terse.Proofs.Edit.Rewriting
import Terse.Proofs.Grammar.Separators
import Terse.Proofs.Rule.Family
import Terse.Proofs.Rule.RuleMirrors
import Terse.Proofs.Tree.Twin
import Terse.Rule.List

/-!
# Merged lists

Lists that follow one another in a text become one list of all their elements. Where every list
stands without parentheses and has an element, the elements keep what stands between them in their
own list, and only what stands between the lists is replaced. Otherwise the lists are written anew
from the texts of their elements.
-/

namespace Terse

open Token (Kind)
open SourceText

/-! ## Runs of lists -/

/-- The elements of a list, which may stand in parentheses. -/
def Expr.elements (l : Expr) : List Expr := l.list?.getD []

theorem Expr.head?_elements (l : Expr) : l.elements.head? = l.list?.bind List.head? := by
  unfold elements
  cases l.list? <;> rfl

theorem Expr.getLast?_elements (l : Expr) : l.elements.getLast? = l.list?.bind List.getLast? := by
  unfold elements
  cases l.list? <;> rfl

/-- Lists of a text that follow one another in it. -/
structure ListRun (text : String) (lists : List Expr) : Prop where
  ne_nil : lists ≠ []
  read : ∀ l ∈ lists, ∃ root, ReadFrom text (.expr root) ∧ l ∈ root.nodes
  isList : ∀ l ∈ lists, l.list?.isSome
  order : lists.Pairwise fun a b => a.range.stop ≤ b.range.start

namespace ListRun

variable {text : String} {root : Expr}

/-- Two operands that are lists. -/
theorem of_operands {r : Range} {symbol : String} {left right : Expr}
    (h : ReadFrom text (.expr root)) (he : .binary r symbol left right ∈ root.nodes)
    (hleft : left.list?.isSome) (hright : right.list?.isSome) : ListRun text [left, right] where
  ne_nil := by simp
  read := by
    have hchild : ∀ c ∈ (Expr.binary r symbol left right).children, c ∈ root.nodes :=
      fun c hc => Expr.mem_nodes_trans (Expr.mem_nodes_of_child hc c.mem_nodes_self) he
    simp only [List.forall_mem_cons, List.not_mem_nil, false_implies, implies_true, and_true]
    exact ⟨⟨root, h, hchild left (by simp [Expr.children])⟩,
      ⟨root, h, hchild right (by simp [Expr.children])⟩⟩
  isList := by simp [hleft, hright]
  order := by
    have hnested := (h.nested.nodes he).1
    rw [Expr.Nested] at hnested
    exact List.pairwise_pair.mpr hnested.2.2.2.1.le

/-- Neighbouring elements of a list, which are lists themselves. -/
theorem of_elements {e : Expr} {elements run : List Expr} (h : ReadFrom text (.expr root))
    (he : e ∈ root.nodes) (helements : e.list? = some elements) (hrun : run <:+: elements)
    (hne : run ≠ []) (hlists : ∀ l ∈ run, l.list?.isSome) : ListRun text run where
  ne_nil := hne
  read := by
    intro l hl
    have hmem := Expr.mem_nodes_of_list? helements (hrun.subset hl)
    exact ⟨root, h, Expr.mem_nodes_trans hmem he⟩
  isList := hlists
  order := by
    obtain ⟨first, last, -, hline, -⟩ := Expr.list?_between (h.nested.nodes he).1 helements
    exact (hline.pairwise fun _ => Expr.Nested.le).sublist hrun.sublist

variable {lists : List Expr} {first last : Expr}

theorem nested (h : ListRun text lists) {l : Expr} (hl : l ∈ lists) :
    l.Nested (ofString text).HasPlace := by
  obtain ⟨root, hread, hmem⟩ := h.read l hl
  exact (hread.nested.nodes hmem).1

theorem between (h : ListRun text lists) (hfirst : lists.head? = some first)
    (hlast : lists.getLast? = some last) :
    Between Expr.range (Expr.Nested (ofString text).HasPlace) first.range.start lists
      last.range.stop := by
  have hline := inLine_of_pairwise (fun _ hl => h.nested hl) h.order hfirst hlast
  exact hline.between

end ListRun

/-- The runs that are merged among the elements of a list are neighbouring lists. -/
theorem infix_of_mem_listRuns {run es lists : List Expr} (hrun : ∀ l ∈ run, l.list?.isSome)
    (h : lists ∈ Rule.Lists.listRuns run es) :
    lists <:+: run.reverse ++ es ∧ lists ≠ [] ∧ ∀ l ∈ lists, l.list?.isSome := by
  have hended : ∀ {run : List Expr}, (∀ l ∈ run, l.list?.isSome) →
      lists ∈ (if 2 ≤ run.length then [run.reverse] else []) →
      lists = run.reverse ∧ lists ≠ [] ∧ ∀ l ∈ lists, l.list?.isSome := by
    intro run hrun hmem
    split at hmem
    · rename_i htwo
      obtain rfl := List.mem_singleton.mp hmem
      refine ⟨rfl, ?_, fun l hl => hrun l (List.mem_reverse.mp hl)⟩
      rintro hnil
      simp [List.reverse_eq_nil_iff.mp hnil] at htwo
    · cases hmem
  induction es generalizing run with
  | nil =>
    obtain ⟨rfl, hlists⟩ := hended hrun h
    exact ⟨by simp, hlists⟩
  | cons e es ih =>
    unfold Rule.Lists.listRuns at h
    split at h
    · rename_i hlist
      have hmore := ih (List.forall_mem_cons.mpr ⟨hlist, hrun⟩) h
      simpa using hmore
    · rcases List.mem_append.mp h with h | h
      · obtain ⟨rfl, hlists⟩ := hended hrun h
        exact ⟨(List.prefix_append _ _).isInfix, hlists⟩
      · -- the elements before this one do not matter to the runs behind it
        obtain ⟨hamong, hlists⟩ := ih (by simp) h
        have hsuffix : es <:+ run.reverse ++ e :: es := ⟨run.reverse ++ [e], by simp⟩
        exact ⟨hamong.trans hsuffix.isInfix, hlists⟩

/-- The rule merges runs of lists. -/
theorem ListRun.of_mem_listRuns {text : String} {root e : Expr} {elements run : List Expr}
    (h : ReadFrom text (.expr root)) (he : e ∈ root.nodes) (helements : e.list? = some elements)
    (hrun : run ∈ Rule.Lists.listRuns [] elements) : ListRun text run := by
  obtain ⟨hamong, hne, hlists⟩ := infix_of_mem_listRuns (by simp) hrun
  exact .of_elements h he helements hamong hne hlists

/-- What the rule merges at a node of a text are runs of lists of the text: the operands of `++`, or
neighbours among the elements that `List.concat` is given. -/
theorem Rule.Lists.listRun_of_mem_runsMerged {text : String} {root e : Expr} {ctx : Context}
    {lists : List Expr} (h : ReadFrom text (.expr root)) (he : e ∈ root.nodes)
    (hlists : lists ∈ runsMerged ctx e) : ListRun text lists := by
  have hcall : lists ∈ runsMergedByCall ctx e → ListRun text lists := by
    intro hgiven
    unfold runsMergedByCall at hgiven
    split at hgiven
    · rename_i c hc
      split at hgiven
      · rw [runsGiven] at hgiven
        cases harg : (c.arg? 0).bind Expr.list? with
        | none => simp [harg, listRuns] at hgiven
        | some elements =>
          obtain ⟨l, hl, hlist⟩ := Option.bind_eq_some_iff.mp harg
          have hmem := Call.mem_nodes_of_within hc (Call.mem_args_of_arg? hl)
          rw [harg] at hgiven
          exact .of_mem_listRuns h (Expr.mem_nodes_trans hmem he) hlist hgiven
      · cases hgiven
    · cases hgiven
  unfold runsMerged at hlists
  split at hlists
  · rename_i r symbol left right
    split at hlists
    · split at hlists
      · cases hlists
      · -- a run has two lists at least, so it is made of both operands
        have htwo := two_le_of_mem_listRuns hlists
        obtain ⟨hamong, -, hall⟩ := infix_of_mem_listRuns (List.forall_mem_nil _) hlists
        obtain rfl : lists = [left, right] := hamong.sublist.eq_of_length_le htwo
        obtain ⟨hleft, hright⟩ := List.forall_mem_cons.mp hall
        exact .of_operands h he hleft (hright right List.mem_cons_self)
    · exact hcall hlists
  · exact hcall hlists

/-! ## Texts of elements -/

namespace SourceText

/-- The texts of the elements of lists. What follows an element is what stands between it and the
next one of its list, and a comma for the last one of a list. -/
def elementPieces (s : SourceText) (lists : List Expr) : List (String × String) :=
  lists.flatMap fun l => s.withGaps ", " (l.elements.map Expr.range)

theorem elementPieces_cons (s : SourceText) (l : Expr) (lists : List Expr) :
    s.elementPieces (l :: lists) =
      s.withGaps ", " (l.elements.map Expr.range) ++ s.elementPieces lists := rfl

/-- No element is lost, and none is there twice. -/
theorem map_fst_elementPieces (s : SourceText) (lists : List Expr) :
    (s.elementPieces lists).map Prod.fst =
      (lists.flatMap Expr.elements).map fun e => s.extract e.range := by
  induction lists with
  | nil => rfl
  | cons l lists ih =>
    rw [elementPieces_cons, List.map_append, ih, map_fst_withGaps, List.map_map,
      List.flatMap_cons, List.map_append]
    rfl

end SourceText

/-! ## Joined lists -/

namespace Context

theorem bracketed_of_plain {text : String} {lists : List Expr} {l : Expr}
    (hrun : ListRun text lists) (hl : l ∈ lists) (h : isPlainList l = true) :
    (ofString text).Bracketed l.range l.elements := by
  obtain ⟨root, hread, hmem⟩ := hrun.read l hl
  unfold isPlainList at h
  split at h
  · exact hread.bracketed hmem
  · cases h

variable {s : SourceText} {start stop : Location} {l last a z : Expr} {rest : List Expr}

/-- The elements of a plain list fill the stretch from the first to the last one. -/
theorem joinGaps_elements (hl : l.Nested s.HasPlace) (ha : l.elements.head? = some a)
    (hz : l.elements.getLast? = some z) :
    joinGaps (s.withGaps ", " (l.elements.map Expr.range)) =
      s.extract ⟨a.range.start, z.range.stop⟩ := by
  cases hlist : l.list? with
  | none => simp [Expr.elements, hlist] at ha
  | some elements =>
    obtain ⟨first, final, -, hline, -⟩ := Expr.list?_between hl hlist
    have helements : l.elements = elements := by
      rw [Expr.elements, hlist]
      rfl
    rw [helements] at ha hz ⊢
    have hranges : Between id (Range.Proper s.HasPlace) first (elements.map Expr.range) final :=
      hline.between.map Expr.range (fun _ _ => rfl) fun _ h => h.proper
    exact joinGaps_withGaps ", " hranges (by rw [List.head?_map, ha]; rfl)
      (by rw [List.getLast?_map, hz]; rfl)

/-- A plain list has a first and a last element, which stand inside it. -/
theorem plain_elements (hl : l.Nested s.HasPlace) (h : isPlainList l = true) :
    ∃ a z, l.elements.head? = some a ∧ l.elements.getLast? = some z ∧
      a.Nested s.HasPlace ∧ z.Nested s.HasPlace ∧ l.range.start < a.range.start ∧
      a.range.start < z.range.stop ∧ z.range.stop < l.range.stop := by
  simpa only [Expr.head?_elements, Expr.getLast?_elements] using plain_ends hl h

/-- A list is plain if it stands without parentheses and has an element. -/
theorem isPlainList_iff : isPlainList l = true ↔ l.isBare = true ∧ l.elements ≠ [] := by
  cases l with
  | list r items =>
    cases items <;>
      simp [isPlainList, Expr.isBare, Expr.elements, Expr.list?, Expr.stripParens]
  | _ => simp [isPlainList, Expr.isBare, Expr.elements, Expr.list?, Expr.stripParens]

/-- Plain lists that are joined leave their elements, with a comma between one list and the next,
from the first element of the first list on. -/
theorem rewritten_joinLists
    (hline : Between Expr.range (Expr.Nested s.HasPlace) start (l :: rest) stop)
    (hplain : ∀ x ∈ l :: rest, isPlainList x = true) (ha : l.elements.head? = some a)
    (hlast : (l :: rest).getLast? = some last) (hz : last.elements.getLast? = some z) :
    s.rewritten a.range.start (joinLists (l :: rest)) =
      joinGaps (s.elementPieces (l :: rest)) ++ s.behind z.range.stop := by
  induction rest generalizing l a start with
  | nil =>
    obtain rfl : l = last := by simpa using hlast
    obtain ⟨hl, -⟩ := (between_cons.mp hline).2
    obtain ⟨a', z', ha', hz', haNested, hzNested, -, hspan, -⟩ :=
      plain_elements hl (hplain l List.mem_cons_self)
    obtain rfl : a' = a := Option.some.inj (ha'.symm.trans ha)
    obtain rfl : z' = z := Option.some.inj (hz'.symm.trans hz)
    have hrest := extract_append_behind haNested.proper.start hzNested.proper.stop hspan.le
    rw [elementPieces_cons, show s.elementPieces [] = [] from rfl, List.append_nil,
      joinGaps_elements hl ha hz, hrest]
    rfl
  | cons next rest ih =>
    obtain ⟨-, hl, hrest⟩ := between_cons.mp hline
    obtain ⟨-, hnext, -⟩ := between_cons.mp hrest
    have hplainRest : ∀ x ∈ next :: rest, isPlainList x = true :=
      fun x hx => hplain x (List.mem_cons_of_mem l hx)
    obtain ⟨_, y, -, hy, -⟩ := plain_elements hl (hplain l List.mem_cons_self)
    obtain ⟨b, _, hb, -⟩ := plain_elements hnext (hplainRest next List.mem_cons_self)
    rw [List.getLast?_cons_cons] at hlast
    have hothers := ih hrest hplainRest hb hlast
    have hjoin : joinLists (l :: next :: rest) =
        .replace ⟨y.range.stop, b.range.start⟩ ", " :: joinLists (next :: rest) := by
      rw [Expr.getLast?_elements] at hy
      rw [Expr.head?_elements] at hb
      rw [joinLists, hy, hb]
      rfl
    have hpieces : s.elementPieces (next :: rest) ≠ [] := by
      intro hnil
      have htexts := map_fst_elementPieces s (next :: rest)
      rw [hnil] at htexts
      have hne := (isPlainList_iff.mp (hplainRest next List.mem_cons_self)).2
      simp [hne] at htexts
    have hranges : l.elements.map Expr.range ≠ [] := by
      simpa using (isPlainList_iff.mp (hplain l List.mem_cons_self)).2
    -- the comma between the two lists is the gap behind the last element of the first one
    rw [hjoin, elementPieces_cons, joinGaps_withGaps_append ", " hranges hpieces,
      joinGaps_elements hl ha hy, rewritten]
    simp only [Edit.range, Edit.text, hothers, String.append_assoc]

/-- Merging plain lists leaves the opening of the first one, the elements of all of them, and the
closing of the last one. -/
theorem apply_mergeLists_plain (ctx : Context) {first : Expr}
    (hline : Between Expr.range (Expr.Nested s.HasPlace) first.range.start (first :: rest)
      last.range.stop)
    (hplain : ∀ x ∈ first :: rest, isPlainList x = true) (ha : first.elements.head? = some a)
    (hlast : (first :: rest).getLast? = some last) (hz : last.elements.getLast? = some z) :
    (s.apply (ctx.mergeLists (first :: rest))).map SourceText.text =
      .ok (s.before first.range.start ++
        (s.extract ⟨first.range.start, a.range.start⟩ ++
          joinGaps (s.elementPieces (first :: rest)) ++
          s.extract ⟨z.range.stop, last.range.stop⟩) ++
        s.behind last.range.stop) := by
  obtain ⟨-, hfirst, hrest⟩ := between_cons.mp hline
  have hlastNested : last.Nested s.HasPlace := hline.ok_of_mem (List.mem_of_getLast? hlast)
  obtain ⟨a', y, ha', hy, haNested, hyNested, hopen, hspan, hinside⟩ :=
    plain_elements hfirst (hplain first List.mem_cons_self)
  obtain rfl : a' = a := Option.some.inj (ha'.symm.trans ha)
  obtain ⟨_, z', -, hz', -, hzNested, -, -, hclose⟩ :=
    plain_elements hlastNested (hplain last (List.mem_of_getLast? hlast))
  obtain rfl : z' = z := Option.some.inj (hz'.symm.trans hz)
  have hedits : ctx.mergeLists (first :: rest) = joinLists (first :: rest) := by
    rw [mergeLists, List.head?_cons, hlast]
    exact if_pos (List.all_eq_true.mpr hplain)
  rw [Expr.getLast?_elements] at hy
  have hjoin := (joinLists_between hy hyNested hspan.le hinside hrest
    fun x hx => hplain x (List.mem_cons_of_mem first hx)).1
  have hstart := haNested.proper.start
  have horigin := hjoin.mono hstart.origin_le le_rfl
  -- the brackets at both ends stand outside the edits
  have hbefore : s.before first.range.start ++ s.extract ⟨first.range.start, a'.range.start⟩ =
      s.before a'.range.start :=
    extract_append s.hasPlace_origin hfirst.proper.start hstart hfirst.proper.start.origin_le
      hopen.le
  have hbehind : s.extract ⟨z'.range.stop, last.range.stop⟩ ++ s.behind last.range.stop =
      s.behind z'.range.stop :=
    extract_append_behind hzNested.proper.stop hlastNested.proper.stop hclose.le
  calc (s.apply (ctx.mergeLists (first :: rest))).map SourceText.text
      = .ok (s.before a'.range.start ++
          s.rewritten a'.range.start (joinLists (first :: rest))) := by
        rw [hedits, apply_of_proper_line horigin]
        exact congrArg Except.ok (rewritten_from s.hasPlace_origin hstart hstart.origin_le
          (admitted_of_proper_line hjoin))
    _ = _ := by
        rw [rewritten_joinLists hline hplain ha hlast hz, ← hbefore, ← hbehind]
        simp only [String.append_assoc]

/-- Merging lists that are not all plain writes the whole stretch anew. -/
theorem apply_mergeLists_anew (ctx : Context) {lists : List Expr} {first : Expr}
    (hsource : ctx.module.source = s)
    (hline : Between Expr.range (Expr.Nested s.HasPlace) first.range.start lists last.range.stop)
    (hplain : lists.all isPlainList = false) (hfirst : lists.head? = some first)
    (hlast : lists.getLast? = some last) :
    (s.apply (ctx.mergeLists lists)).map SourceText.text =
      .ok (s.before first.range.start ++
        listText ((lists.flatMap Expr.elements).map fun e => s.extract e.range) ++
        s.behind last.range.stop) := by
  have hedits : ctx.mergeLists lists = [.replace ⟨first.range.start, last.range.stop⟩
      (listText ((lists.flatMap Expr.elements).map fun e => s.extract e.range))] := by
    rw [mergeLists, hfirst, hlast]
    dsimp only
    rw [if_neg (by simp [hplain]), texts]
    simp only [text, hsource]
    rfl
  have hfirstNested : first.Nested s.HasPlace := hline.ok_of_mem (List.mem_of_mem_head? hfirst)
  have hlastNested : last.Nested s.HasPlace := hline.ok_of_mem (List.mem_of_getLast? hlast)
  -- the first list may be the last one, but it has a character
  have hlt : first.range.start < last.range.stop :=
    (hline.start_le (fun _ => Expr.Nested.le) (List.mem_of_getLast? hlast)).trans_lt
      hlastNested.proper.lt
  have hedit : Between Edit.range (fun e => e.range.Proper s.HasPlace) Location.origin
      (ctx.mergeLists lists) last.range.stop := by
    rw [hedits, between_cons, between_nil]
    exact ⟨hfirstNested.proper.start.origin_le,
      ⟨hlt, hfirstNested.proper.start, hlastNested.proper.stop⟩, le_rfl⟩
  rw [apply_of_proper_line hedit, hedits]
  rfl

end Context

/-- Lists that follow one another in a text are merged into one list. Its elements have the texts of
the elements of all the lists, in order. If every list stands without parentheses and has an
element, then elements of one list keep the comma between them with what stands around it, and a
comma and a blank stand between one list and the next. Otherwise this stands between all elements,
and if there are none, the list is empty. -/
theorem Context.mergeLists_keeps_elements (text : String) (ctx : Context)
    (hsource : ctx.module.source = ofString text) {lists : List Expr} {first last : Expr}
    (hrun : ListRun text lists) (hfirst : lists.head? = some first)
    (hlast : lists.getLast? = some last) :
    let s := ofString text
    let texts := (lists.flatMap Expr.elements).map fun e => s.extract e.range
    (s.elementPieces lists).map Prod.fst = texts ∧
    ((∀ l ∈ lists, l.isBare = true ∧ l.elements ≠ []) →
      (∀ l ∈ lists, l.elements.IsChain fun a b =>
        Kind.comma.AloneIn (s.extract ⟨a.range.stop, b.range.start⟩)) ∧
      ∃ a z, first.elements.head? = some a ∧ last.elements.getLast? = some z ∧
        Kind.leftBracket.AloneIn (s.extract ⟨first.range.start, a.range.start⟩) ∧
        Kind.rightBracket.AloneIn (s.extract ⟨z.range.stop, last.range.stop⟩) ∧
        applyEdits text (ctx.mergeLists lists) =
          .ok (s.before first.range.start ++
            (s.extract ⟨first.range.start, a.range.start⟩ ++ joinGaps (s.elementPieces lists) ++
              s.extract ⟨z.range.stop, last.range.stop⟩) ++
            s.behind last.range.stop)) ∧
    ((∃ l ∈ lists, l.isBare = false ∨ l.elements = []) →
      applyEdits text (ctx.mergeLists lists) =
        .ok (s.before first.range.start ++
          (if texts.isEmpty then "[]" else "[ " ++ ", ".intercalate texts ++ " ]") ++
          s.behind last.range.stop)) := by
  intro s texts
  have hline := hrun.between hfirst hlast
  refine ⟨map_fst_elementPieces s lists, ?_, ?_⟩
  · intro hplain
    have hplain' : ∀ l ∈ lists, Context.isPlainList l = true :=
      fun l hl => Context.isPlainList_iff.mpr (hplain l hl)
    have hlists := fun l hl => Context.bracketed_of_plain hrun hl (hplain' l hl)
    have hfirstMem := List.mem_of_mem_head? hfirst
    have hlastMem := List.mem_of_getLast? hlast
    obtain ⟨a, -, ha, -⟩ :=
      Context.plain_elements (hrun.nested hfirstMem) (hplain' first hfirstMem)
    obtain ⟨-, z, -, hz, -⟩ :=
      Context.plain_elements (hrun.nested hlastMem) (hplain' last hlastMem)
    refine ⟨fun l hl => (hlists l hl).commas, a, z, ha, hz, (hlists first hfirstMem).opening a ha,
      (hlists last hlastMem).closing z hz, ?_⟩
    obtain ⟨rest, rfl⟩ := List.head?_eq_some_iff.mp hfirst
    exact Context.apply_mergeLists_plain ctx hline hplain' ha hlast hz
  · -- one list in parentheses or without elements is enough to write the whole run anew
    rintro ⟨l, hl, hnot⟩
    have hall : lists.all Context.isPlainList = false := by
      rw [List.all_eq_false]
      refine ⟨l, hl, ?_⟩
      rw [Context.isPlainList_iff]
      rintro ⟨hbare, hne⟩
      rcases hnot with hparen | hnil
      · rw [hbare] at hparen
        cases hparen
      · exact hne hnil
    exact Context.apply_mergeLists_anew ctx hsource hline hall hfirst hlast

/-- Two lists of a concatenation are joined, and their elements stay as they are spelled. -/
theorem Context.mergeLists_keeps_elements_concat : ∃ (ctx : Context) (lists : List Expr),
    ListRun "List.concat [ [ é ], [ b,c] ]" lists ∧ lists.length = 2 ∧
      applyEdits "List.concat [ [ é ], [ b,c] ]" (ctx.mergeLists lists) =
        .ok "List.concat [ [ é, b,c] ]" := by
  let s := ofString "List.concat [ [ é ], [ b,c] ]"
  let knowledge := ProjectIndex.empty.knowledge
  let ctx : Context := ⟨⟨s, Lookup.ofModule default knowledge, knowledge, []⟩, [], true⟩
  have hread : (Expr.parse "List.concat [ [ é ], [ b,c] ]").toOption.any (fun root =>
      root.nodes.any fun e => e.list?.any fun lists => lists.length == 2 &&
        lists.all (·.list?.isSome) && lists.all (fun l => l.isBare && !l.elements.isEmpty) &&
        lists.head?.any fun first => lists.getLast?.any fun last =>
          first.elements.head?.any fun a => last.elements.getLast?.any fun z =>
            s.before first.range.start ++
              (s.extract ⟨first.range.start, a.range.start⟩ ++ joinGaps (s.elementPieces lists) ++
                s.extract ⟨z.range.stop, last.range.stop⟩) ++
              s.behind last.range.stop == "List.concat [ [ é, b,c] ]") = true := by
    decide +kernel
  obtain ⟨root, hparse, hany⟩ := exists_ok_of_any hread
  obtain ⟨e, he, hsome⟩ := List.any_eq_true.mp hany
  obtain ⟨lists, hlists, htest⟩ := (Option.any_eq_true _ _).mp hsome
  simp only [Bool.and_eq_true, beq_iff_eq, List.all_eq_true, Option.any_eq_true] at htest
  obtain ⟨⟨⟨hlength, hisList⟩, hplain⟩, first, hfirst, last, hlast, a, ha, z, hz, htext⟩ := htest
  have hroot : ReadFrom "List.concat [ [ é ], [ b,c] ]" (.expr root) := .expr hparse
  have hne : lists ≠ [] := List.ne_nil_of_mem (List.mem_of_getLast? hlast)
  have hrun := ListRun.of_elements hroot he hlists List.infix_rfl hne hisList
  obtain ⟨-, hjoined, -⟩ :=
    Context.mergeLists_keeps_elements _ ctx rfl hrun hfirst hlast
  obtain ⟨-, a', z', ha', hz', -, -, happly⟩ :=
    hjoined fun l hl => ⟨(hplain l hl).1, by simpa using (hplain l hl).2⟩
  obtain rfl : a' = a := Option.some.inj (ha'.symm.trans ha)
  obtain rfl : z' = z := Option.some.inj (hz'.symm.trans hz)
  exact ⟨ctx, lists, hrun, hlength, happly.trans (congrArg Except.ok htext)⟩

end Terse
