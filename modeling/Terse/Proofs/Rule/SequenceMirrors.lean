import Terse.Proofs.Rule.CallMirrors
import Terse.Proofs.Rule.Effect
import Terse.Proofs.Rule.List

/-!
# Sequences in twins

Fixes that take elements out of a list, or that merge neighbouring lists, change the list but leave
some parts of it alone. What is left alone in a list faces what is left alone in the list of a twin:
always when elements are taken out, and for merged lists when the same runs are joined element by
element. A run is written anew as a whole if one of its lists is empty or stands in parentheses.
-/

namespace Terse

variable {place place' : Location → Prop} {e e' : Expr}

/-! ## Fixes inside a list -/

/-- The edits hit the nodes that hold an expression or stand in it, but those of some parts. -/
def SparesIn (e inner : Expr) (parts : List Expr) (edits : List Edit) : Prop :=
  ∀ n ∈ e.children.flatMap Expr.bareNodes, Hit edits n.range ↔
    (n ∈ inner.bareNodes ∨ inner.stripParens ∈ n.bareNodes) ∧ ∀ k ∈ parts, n ∉ k.bareNodes

/-- Edits inside an expression that leave some parts alone, and hit everything else of it, spare
the parts. -/
theorem Expr.Nested.sparesIn (he : e.Nested place) {inner : Expr} {parts : List Expr}
    {edits : List Edit} (hinner : inner.stripParens ∈ e.nodes)
    (hparts : ∀ k ∈ parts, k.Nested place ∧
      ∀ edit ∈ edits, edit.range.stop ≤ k.range.start ∨ k.range.stop ≤ edit.range.start)
    (hinside : ∀ edit ∈ edits, inner.stripParens.range.start ≤ edit.range.start ∧
      edit.range.stop ≤ inner.stripParens.range.stop)
    (hself : Hit edits inner.stripParens.range)
    (hrest : ∀ n ∈ inner.stripParens.children.flatMap bareNodes, n.range.start < n.range.stop →
      (∀ k ∈ parts, n ∉ k.bareNodes) → Hit edits n.range) :
    SparesIn e inner parts edits := by
  intro n hn
  rcases he.lies_of_mem_parts hn with ⟨hmem, ⟨hnested, -, -⟩, -⟩
  have hbare : n.isBare = true := by
    rcases List.mem_flatMap.mp hn with ⟨child, -, hn⟩
    exact (List.mem_filter.mp hn).2
  constructor
  · intro hhit
    refine ⟨?_, fun k hk hin => ?_⟩
    · have hhit' := hhit
      rcases hhit' with ⟨edit, hedit, hstart, hstop⟩
      rcases hinside edit hedit with ⟨hstart', hstop'⟩
      -- nodes of one tree hold one another or stand apart, and no edit reaches what stands apart
      rcases he.mem_or_apart hmem hinner with hin | hin | hle | hle
      · rw [← bareNodes_stripParens]
        exact .inl (List.mem_filter.mpr ⟨hin, hbare⟩)
      · exact .inr (List.mem_filter.mpr ⟨hin, inner.isBare_stripParens⟩)
      · order
      · order
    · rcases hparts k hk with ⟨hknested, hapart⟩
      rcases hknested.nodes (mem_nodes_of_mem_bareNodes hin) with ⟨-, hstart, hstop⟩
      exact not_hit_of_apart hapart (hhit.mono hstart hstop)
  · rintro ⟨hin | hin, hout⟩
    · rw [← bareNodes_stripParens, bareNodes_eq inner.isBare_stripParens] at hin
      rcases List.mem_cons.mp hin with rfl | hin
      · exact hself
      · exact hrest n hin hnested.proper.lt hout
    · rcases hnested.nodes (mem_nodes_of_mem_bareNodes hin) with ⟨-, hstart, hstop⟩
      exact hself.mono hstart hstop

/-- Findings whose fixes stand in expressions that face each other, and spare parts that face each
other, mirror each other. -/
theorem Expr.Twins.mirrors_of_sparesIn (h : e.Twins place place' e') {P : Prop} {f f' : Finding}
    (hverdict : f.verdict = f'.verdict) {inner inner' : Expr} (hinner : Facing e e' inner inner')
    {parts parts' : List Expr} (hparts : P → List.Forall₂ (Facing e e') parts parts')
    (hf : SparesIn e inner parts f.edits) (hf' : SparesIn e' inner' parts' f'.edits) :
    f.Mirrors P e e' f' := by
  refine ⟨hverdict, ?_⟩
  intro hP n n' hn
  rcases List.of_mem_zip hn with ⟨hmem, hmem'⟩
  have hzip := mem_zip_of_mem_pairs h.bare h.bare' hn
  have hfacing := h.twin.facing_of_mem_zip hzip
  rw [hf n hmem, hf' n' hmem', hinner.mem_iff h.nested h.nested' hzip,
    hfacing.mem_iff h.nested h.nested' hinner.mem_zip]
  exact and_congr_right fun _ => forall_mem_iff_of_forall₂ (hparts hP) fun k k' hk =>
    not_congr (hk.mem_iff h.nested h.nested' hzip)

theorem Expr.list?_stripParens (l : Expr) : l.stripParens.list? = l.list? := by
  rw [list?, list?, stripParens_of_isBare l.isBare_stripParens]

theorem Expr.children_of_list? {l : Expr} {elements : List Expr} (h : l.list? = some elements) :
    l.stripParens.children = elements := by
  unfold list? at h
  split at h
  · rename_i r items heq
    cases h
    rw [heq]
    rfl
  · cases h

/-! ## Batches -/

namespace Rule.Effect

/-- Taking effects out of a list spares the others. -/
theorem removeItems_spares (he : e.Nested place) {l : Expr} {elements : List Expr}
    (hl : l.stripParens ∈ e.nodes) (hlist : l.list? = some elements) {drops : Expr → Bool}
    (hdrops : ∃ x ∈ elements, drops x = true) (hkeeps : ∃ x ∈ elements, drops x = false) :
    SparesIn e l (elements.filter (!drops ·))
      (removeItems (elements.map fun x => (x.range, drops x))) := by
  have hok : ∀ e : Edit, e.range.Proper place → e.range.start ≤ e.range.stop := fun _ h => h.le
  have hnested := (he.nodes hl).1
  rcases Expr.list?_between hnested (Expr.list?_stripParens l ▸ hlist) with
    ⟨first, last, hfirst, hline, hlast⟩
  have hitems : Between Prod.fst (fun i : Range × Bool => i.1.Proper place) first
      (elements.map fun x => (x.range, drops x)) last :=
    hline.between.map _ (fun _ _ => rfl) fun _ he => he.proper
  have hbetween := removeItems_between hitems
  have hso : ItemsSoFar place first first none none := ⟨le_rfl, by simp, by simp, by simp⟩
  apply he.sparesIn hl
  · intro k hk
    rcases List.mem_filter.mp hk with ⟨hk, hkept⟩
    refine ⟨hline.ok_of_mem hk, removeItemsFrom_apart hso hitems ?_⟩
    exact List.mem_map.mpr ⟨k, hk, by simpa using hkept⟩
  · intro edit hedit
    exact ⟨hfirst.le.trans (hbetween.start_le hok hedit),
      (hbetween.le_stop hok hedit).trans hlast.le⟩
  · -- there is an edit, and it stands between the brackets
    have hne : removeItems (elements.map fun x => (x.range, drops x)) ≠ [] := by
      apply removeItemsFrom_ne_nil
      · rcases hdrops with ⟨x, hx, hdrop⟩
        exact .inr ⟨_, List.mem_map_of_mem hx, hdrop⟩
      · rcases hkeeps with ⟨x, hx, hkeep⟩
        exact .inr ⟨_, List.mem_map_of_mem hx, hkeep⟩
    rcases List.exists_mem_of_ne_nil _ hne with ⟨edit, hedit⟩
    have hlt := (hbetween.ok_of_mem hedit).lt
    have hstart := hbetween.start_le hok hedit
    have hstop := hbetween.le_stop hok hedit
    exact ⟨edit, hedit, by order, by order⟩
  · intro n hn hlt hout
    rw [Expr.children_of_list? hlist] at hn
    rcases List.mem_flatMap.mp hn with ⟨x, hx, hin⟩
    cases hdrop : drops x with
    | false => exact absurd hin (hout x (List.mem_filter.mpr ⟨hx, by simp [hdrop]⟩))
    | true =>
      have hmem : (x.range, true) ∈ elements.map fun x => (x.range, drops x) :=
        List.mem_map.mpr ⟨x, hx, by rw [hdrop]⟩
      have hkept : ∃ i ∈ elements.map fun x => (x.range, drops x), i.2 = false := by
        rcases hkeeps with ⟨y, hy, hkeep⟩
        exact ⟨_, List.mem_map_of_mem hy, hkeep⟩
      rcases removeItemsFrom_covers hso hitems (.inr hkept) (.inl ⟨hmem, rfl⟩) with
        ⟨edit, hedit, hstart, hstop⟩
      rcases (hline.ok_of_mem hx).nodes (Expr.mem_nodes_of_mem_bareNodes hin) with
        ⟨-, hstart', hstop'⟩
      exact hit_of_covers hedit hlt (hstart.trans hstart') (hstop'.trans hstop)

theorem dropNone_mirrors {P : Prop} {ctx : Context} (source : SourceText) (isFree : Bool)
    {c c' : Call} (h : Call.Twins place place' ctx e e' c c') (lib : Library) {l l' : Expr}
    (hl : Expr.Facing e e' l l') {elements elements' : List Expr}
    (hlist : l.list? = some elements) (hlist' : l'.list? = some elements')
    (helements : List.Forall₂ (Expr.Facing e e') elements elements') :
    Mirrored P e e' (dropNone lib ctx c elements)
      (dropNone lib (ctx.moved source isFree) c' elements') := by
  have hnone : ∀ x x', Expr.Facing e e' x x' →
      isNone lib (ctx.moved source isFree) x' = isNone lib ctx x :=
    fun _ _ hx => isNone_twin hx.twin lib ctx source isFree
  have hfind := rel_find? helements hnone
  unfold dropNone
  rw [all_eq_all helements hnone]
  generalize hx : elements.find? (isNone lib ctx) = o,
    hx' : elements'.find? (isNone lib (ctx.moved source isFree)) = o' at hfind ⊢
  cases hfind with
  | none => exact .none
  | some hfirst =>
    dsimp only
    split
    · exact .some (h.replaceCall lib rfl _ _ _ _)
    · rename_i hnot
      -- some elements go and some stay, on either side
      have hkeeps : ∃ x ∈ elements, isNone lib ctx x = false := by
        rw [List.all_eq_true] at hnot
        push Not at hnot
        simpa using hnot
      have hkeeps' : ∃ x ∈ elements', isNone lib (ctx.moved source isFree) x = false := by
        rw [← all_eq_all helements hnone, List.all_eq_true] at hnot
        push Not at hnot
        simpa using hnot
      refine .some (h.twins.mirrors_of_sparesIn rfl hl (fun _ => ?_)
        (removeItems_spares h.twins.nested hl.mem_nodes hlist
          ⟨_, List.mem_of_find?_eq_some hx, List.find?_some hx⟩ hkeeps)
        (removeItems_spares h.twins.nested' hl.mem_nodes' hlist'
          ⟨_, List.mem_of_find?_eq_some hx', List.find?_some hx'⟩ hkeeps'))
      refine List.rel_filter (fun x x' hx => ?_) helements
      dsimp only
      rw [hnone x x' hx]

theorem batch_mirrors : batch.Mirrors := by
  intro _ _ lib ctx source isFree e e' c c' h
  have hl := h.arg? 0
  unfold batch
  rw [h.displayCall]
  generalize c.arg? 0 = a, c'.arg? 0 = a' at hl ⊢
  cases hl with
  | none => exact .none
  | @some l l' hl =>
    have helements := hl.list?
    dsimp only [Option.bind]
    generalize hlist : l.list? = xs, hlist' : l'.list? = xs' at helements ⊢
    cases helements with
    | none => exact .none
    | some helements =>
      cases helements with
      | nil => exact .some (h.replaceCall lib rfl _ _ _ _)
      | cons hfirst hmore =>
        cases hmore with
        | nil => exact .some (h.keepArg lib rfl hfirst)
        | cons hsecond hrest =>
          exact dropNone_mirrors source isFree h lib hl hlist hlist'
            (.cons hfirst (.cons hsecond hrest))

theorem cmdFamily_mirrors : ∀ c ∈ cmdFamily.checks, CallCheck.Mirrors c.2 := by
  simp only [cmdFamily, List.forall_mem_cons]
  exact ⟨batch_mirrors, map_mirrors, by simp⟩

theorem subFamily_mirrors : ∀ c ∈ subFamily.checks, CallCheck.Mirrors c.2 := by
  simp only [subFamily, List.forall_mem_cons]
  exact ⟨batch_mirrors, map_mirrors, by simp⟩

end Rule.Effect

/-! ## Merged lists -/

namespace Context

/-- What merging lists leaves as it is: their elements if the lists are joined, nothing if they are
written anew. -/
def unmerged (lists : List Expr) : List Expr :=
  if lists.all isPlainList then lists.flatMap fun l => l.list?.getD [] else []

theorem plain_list? {l : Expr} (h : isPlainList l = true) :
    ∃ item items, l.list? = some (item :: items) ∧ l.isBare = true := by
  unfold isPlainList at h
  split at h
  · exact ⟨_, _, rfl, rfl⟩
  · cases h

/-- The elements of a list stand from the first of them to the last one. -/
theorem element_between_ends {l first last k : Expr} (hl : l.Nested place)
    (hfirst : l.list?.bind List.head? = some first) (hlast : l.list?.bind List.getLast? = some last)
    (hk : k ∈ l.list?.getD []) :
    k.Nested place ∧ first.range.start ≤ k.range.start ∧ k.range.stop ≤ last.range.stop := by
  cases hlist : l.list? with
  | none => simp [hlist] at hk
  | some elements =>
    rw [hlist] at hfirst hlast hk
    rcases Expr.list?_between hl hlist with ⟨opening, closing, -, hline, -⟩
    have hstop := hline.stop_getLast hlast
    refine ⟨hline.ok_of_mem hk, ?_, ?_⟩
    · rcases List.head?_eq_some_iff.mp hfirst with ⟨rest, rfl⟩
      exact hline.between.head_start_le (fun _ => Expr.Nested.le) hk
    · rw [hstop]
      exact hline.le_stop (fun _ => Expr.Nested.le) hk

/-- The elements of an expression that is a list stand in it. -/
theorem element_lies {l k : Expr} (hl : l.Nested place) (hk : k ∈ l.list?.getD []) :
    k.Lies place l.range.start l.range.stop := by
  cases hlist : l.list? with
  | none => simp [hlist] at hk
  | some elements =>
    rw [hlist] at hk
    exact hl.nodes (Expr.mem_nodes_of_list? hlist hk)

/-- Joining plain lists leaves their elements alone. -/
theorem joinLists_apart {lists : List Expr} {start stop : Location}
    (hline : Between Expr.range (Expr.Nested place) start lists stop)
    (hplain : ∀ l ∈ lists, isPlainList l = true) :
    ∀ k ∈ lists.flatMap fun l => l.list?.getD [], ∀ edit ∈ joinLists lists,
      edit.range.stop ≤ k.range.start ∨ k.range.stop ≤ edit.range.start := by
  have hok : ∀ e : Edit, e.range.Proper place → e.range.start ≤ e.range.stop := fun _ h => h.le
  induction lists generalizing start with
  | nil => simp [joinLists]
  | cons a rest ih =>
    rcases between_cons.mp hline with ⟨hstart, ha, hrest⟩
    rw [List.forall_mem_cons] at hplain
    cases rest with
    | nil => simp [joinLists]
    | cons b rest =>
      rcases between_cons.mp hrest with ⟨hgap, hb, hmore⟩
      have hplainB := (List.forall_mem_cons.mp hplain.2).1
      obtain ⟨_, last, hhead, hlast, -, -, -, -, -⟩ := plain_ends ha hplain.1
      obtain ⟨first, final, hfirst, hfinal, -, hfinalNested, hopen, hspan, hclose⟩ :=
        plain_ends hb hplainB
      -- what joins the lists from the second one on stands behind the first one
      have hbehind := (joinLists_between hfinal hfinalNested
        (show b.range.start ≤ final.range.stop by order) hclose hmore
        (List.forall_mem_cons.mp hplain.2).2).1
      intro k hk
      rw [List.flatMap_cons] at hk
      rw [joinLists, hlast, hfirst, List.singleton_append, List.forall_mem_cons]
      rcases List.mem_append.mp hk with hk | hk
      · have hends := element_between_ends ha hhead hlast hk
        have hlies := element_lies ha hk
        refine ⟨.inr hends.2.2, fun edit hedit => .inr ?_⟩
        exact hlies.2.2.trans (hgap.trans (hbehind.start_le hok hedit))
      · refine ⟨.inl ?_, ih hrest hplain.2 k hk⟩
        change first.range.start ≤ k.range.start
        rcases List.mem_flatMap.mp hk with ⟨l, hl, hkl⟩
        rcases List.mem_cons.mp hl with rfl | hl
        · exact (element_between_ends hb hfirst hfinal hkl).2.1
        · have hstart := hmore.start_le (fun _ => Expr.Nested.le) hl
          have hlies := element_lies (hmore.ok_of_mem hl) hkl
          have hle := hlies.2.1
          order

/-- Joining plain lists changes each of them. -/
theorem joinLists_hits {lists : List Expr} {start stop : Location}
    (hline : Between Expr.range (Expr.Nested place) start lists stop)
    (hplain : ∀ l ∈ lists, isPlainList l = true) (htwo : 2 ≤ lists.length) :
    ∀ l ∈ lists, Hit (joinLists lists) l.range := by
  induction lists generalizing start with
  | nil => simp at htwo
  | cons a rest ih =>
    rcases between_cons.mp hline with ⟨hstart, ha, hrest⟩
    rw [List.forall_mem_cons] at hplain
    cases rest with
    | nil => simp at htwo
    | cons b rest =>
      rcases between_cons.mp hrest with ⟨hgap, hb, hmore⟩
      obtain ⟨item, last, -, hlast, -, -, hopenA, hspanA, hcloseA⟩ := plain_ends ha hplain.1
      obtain ⟨first, final, hfirst, -, -, -, hopen, hspan, hclose⟩ :=
        plain_ends hb (List.forall_mem_cons.mp hplain.2).1
      have ha' := ha.proper.lt
      have hb' := hb.proper.lt
      rw [joinLists, hlast, hfirst, List.singleton_append]
      intro l hl
      rw [hit_cons]
      rcases List.mem_cons.mp hl with rfl | hl
      · exact .inl ⟨hcloseA, show l.range.start < first.range.start by order⟩
      rcases List.mem_cons.mp hl with rfl | hmem
      · exact .inl ⟨show last.range.stop < l.range.stop by order, hopen⟩
      · have htwo : 2 ≤ (b :: rest).length := by
          have hpos := List.length_pos_of_mem hmem
          rw [List.length_cons]
          omega
        exact .inr (ih hrest hplain.2 htwo l hl)

section

variable {lists : List Expr} {start stop : Location} (ctx : Context)
  (hline : Between Expr.range (Expr.Nested place) start lists stop) (htwo : 2 ≤ lists.length)
include hline htwo

theorem unmerged_apart : ∀ k ∈ unmerged lists, k.Lies place start stop ∧
    ∀ edit ∈ ctx.mergeLists lists,
      edit.range.stop ≤ k.range.start ∨ k.range.stop ≤ edit.range.start := by
  intro k hk
  unfold unmerged at hk
  split at hk
  · rename_i hall
    refine ⟨?_, ?_⟩
    · rcases List.mem_flatMap.mp hk with ⟨l, hl, hk⟩
      exact (element_lies (hline.ok_of_mem hl) hk).mono
        (hline.start_le (fun _ => Expr.Nested.le) hl) (hline.le_stop (fun _ => Expr.Nested.le) hl)
    · rcases exists_cons_cons htwo with ⟨first, second, rest, rfl⟩
      obtain ⟨last, hend⟩ : ∃ last, (first :: second :: rest).getLast? = some last :=
        ⟨_, List.getLast?_cons⟩
      unfold mergeLists
      rw [List.head?_cons, hend]
      dsimp only
      rw [if_pos hall]
      exact joinLists_apart hline (List.all_eq_true.mp hall) k hk
  · cases hk

/-- Merging lists changes every node of them that does not stand in what is left as it is. -/
theorem mergeLists_hits {l n : Expr} (hl : l ∈ lists) (hn : n ∈ l.bareNodes)
    (hout : ∀ k ∈ unmerged lists, n ∉ k.bareNodes) : Hit (ctx.mergeLists lists) n.range := by
  have hlies := (hline.ok_of_mem hl).nodes (Expr.mem_nodes_of_mem_bareNodes hn)
  have hlt := hlies.1.proper.lt
  rcases exists_cons_cons htwo with ⟨first, second, rest, rfl⟩
  obtain ⟨last, hend⟩ : ∃ last, (first :: second :: rest).getLast? = some last :=
    ⟨_, List.getLast?_cons⟩
  unfold unmerged at hout
  unfold mergeLists
  rw [List.head?_cons, hend]
  dsimp only
  split
  · -- the lists are joined: the node is one of them
    rename_i hall
    rw [if_pos hall] at hout
    rw [List.all_eq_true] at hall
    rcases plain_list? (hall l hl) with ⟨item, items, hlist, hbare⟩
    rw [Expr.bareNodes_eq hbare] at hn
    rcases List.mem_cons.mp hn with rfl | hn
    · exact joinLists_hits hline hall htwo n hl
    · rw [← Expr.stripParens_of_isBare hbare, Expr.children_of_list? hlist] at hn
      rcases List.mem_flatMap.mp hn with ⟨k, hk, hn⟩
      exact absurd hn (hout k (List.mem_flatMap.mpr ⟨l, hl, by rw [hlist]; exact hk⟩))
  · have hstart := hline.head_start_le (fun _ => Expr.Nested.le) hl
    have hstop : l.range.stop ≤ last.range.stop := by
      rcases hline with ⟨stop, hline, -⟩
      rw [hline.stop_getLast hend]
      exact hline.le_stop (fun _ => Expr.Nested.le) hl
    refine hit_of_covers (List.mem_singleton_self _) hlt ?_ ?_
    · exact hstart.trans hlies.2.1
    · exact hlies.2.2.trans hstop

end

/-- What merging leaves as it is faces what it leaves in the twin, if both join their lists or both
write them anew. -/
theorem facing_unmerged {lists lists' : List Expr} (h : List.Forall₂ (Expr.Facing e e') lists lists')
    (hplain : lists.all isPlainList = lists'.all isPlainList) :
    List.Forall₂ (Expr.Facing e e') (unmerged lists) (unmerged lists') := by
  unfold unmerged
  rw [← hplain]
  split
  · refine List.rel_flatMap h ?_
    intro l l' hl
    have helements := hl.list?
    dsimp only
    generalize l.list? = xs, l'.list? = xs' at helements ⊢
    cases helements with
    | none => exact .nil
    | some helements => exact helements
  · exact .nil

end Context

/-! ### Runs of lists -/

namespace Rule.Lists

open Context (unmerged unmerged_apart mergeLists_hits facing_unmerged)

/-- What merging a run of lists leaves as it is; a single list is left as it is. -/
def leftOfRun (run : List Expr) : List Expr :=
  if 2 ≤ run.length then unmerged run.reverse else run

/-- What merging the runs among elements leaves as it is. As in `listRuns`, `run` holds the lists
just before, the last one first. -/
def leftByRuns (run : List Expr) : List Expr → List Expr
  | [] => leftOfRun run
  | x :: xs =>
    if x.list?.isSome then leftByRuns (x :: run) xs else leftOfRun run ++ x :: leftByRuns [] xs

theorem listRuns_nil (run : List Expr) :
    listRuns run [] = if 2 ≤ run.length then [run.reverse] else [] := rfl

theorem listRuns_of_list {x : Expr} (hx : x.list?.isSome = true) (run xs : List Expr) :
    listRuns run (x :: xs) = listRuns (x :: run) xs ∧
      leftByRuns run (x :: xs) = leftByRuns (x :: run) xs :=
  ⟨if_pos hx, if_pos hx⟩

theorem listRuns_of_not_list {x : Expr} (hx : ¬ x.list?.isSome = true) (run xs : List Expr) :
    listRuns run (x :: xs) = listRuns run [] ++ listRuns [] xs ∧
      leftByRuns run (x :: xs) = leftOfRun run ++ x :: leftByRuns [] xs :=
  ⟨if_neg hx, if_neg hx⟩

section

variable (ctx : Context) {run : List Expr} {start stop : Location}
  (h : Between Expr.range (Expr.Nested place) start run.reverse stop)
include h

theorem leftOfRun_apart : ∀ k ∈ leftOfRun run, k.Lies place start stop ∧
    ∀ edit ∈ (listRuns run []).flatMap ctx.mergeLists,
      edit.range.stop ≤ k.range.start ∨ k.range.stop ≤ edit.range.start := by
  rw [leftOfRun, listRuns_nil]
  split
  · rename_i htwo
    rw [List.flatMap_singleton]
    exact ctx.unmerged_apart h (by simpa using htwo)
  · intro k hk
    rw [← List.mem_reverse] at hk
    have hle : ∀ e : Expr, e.Nested place → e.range.start ≤ e.range.stop := fun _ => Expr.Nested.le
    exact ⟨⟨h.ok_of_mem hk, h.start_le hle hk, h.le_stop hle hk⟩, by simp⟩

theorem run_hits {l n : Expr} (hl : l ∈ run) (hn : n ∈ l.bareNodes)
    (hout : ∀ k ∈ leftOfRun run, n ∉ k.bareNodes) :
    Hit ((listRuns run []).flatMap ctx.mergeLists) n.range := by
  rw [leftOfRun] at hout
  rw [listRuns_nil]
  split
  · rename_i htwo
    rw [if_pos htwo] at hout
    rw [List.flatMap_singleton]
    exact ctx.mergeLists_hits h (by simpa using htwo) (List.mem_reverse.mpr hl) hn hout
  · rename_i htwo
    rw [if_neg htwo] at hout
    exact absurd hn (hout l hl)

end

/-- Merging runs changes nothing of what it leaves as it is. -/
theorem leftByRuns_apart (ctx : Context) {run es : List Expr} {start stop : Location}
    (h : Between Expr.range (Expr.Nested place) start (run.reverse ++ es) stop) :
    ∀ k ∈ leftByRuns run es, k.Lies place start stop ∧
      ∀ edit ∈ (listRuns run es).flatMap ctx.mergeLists,
        edit.range.stop ≤ k.range.start ∨ k.range.stop ≤ edit.range.start := by
  have hok : ∀ e : Edit, e.range.Proper place → e.range.start ≤ e.range.stop := fun _ h => h.le
  induction es generalizing run start with
  | nil =>
    rw [List.append_nil] at h
    exact leftOfRun_apart ctx h
  | cons x xs ih =>
    by_cases hlist : x.list?.isSome = true
    · rw [(listRuns_of_list hlist run xs).1, (listRuns_of_list hlist run xs).2]
      apply ih
      simpa using h
    · rw [(listRuns_of_not_list hlist run xs).1, (listRuns_of_not_list hlist run xs).2]
      rcases h.of_append with ⟨middle, hrun, hrest⟩
      rcases between_cons.mp hrest with ⟨hgap, hx, hmore⟩
      have hxle := hx.le
      have hstart := hrun.le fun _ => Expr.Nested.le
      have hstop := hmore.le fun _ => Expr.Nested.le
      -- the run before the element, and what follows it, are changed on their own sides of it
      have hbefore : ∀ edit ∈ (listRuns run []).flatMap ctx.mergeLists,
          edit.range.stop ≤ middle := fun edit hedit =>
        (listRuns_between ctx (by simpa using hrun)).le_stop hok hedit
      have hafter : ∀ edit ∈ (listRuns [] xs).flatMap ctx.mergeLists,
          x.range.stop ≤ edit.range.start := fun edit hedit =>
        (listRuns_between ctx hmore).start_le hok hedit
      intro k hk
      simp only [List.flatMap_append, List.mem_append, or_imp, forall_and]
      rcases List.mem_append.mp hk with hk | hk
      · rcases leftOfRun_apart ctx hrun k hk with ⟨hlies, hapart⟩
        refine ⟨hlies.mono le_rfl (hgap.trans (hxle.trans hstop)), hapart, fun edit hedit => .inr ?_⟩
        exact hlies.2.2.trans (hgap.trans (hxle.trans (hafter edit hedit)))
      rcases List.mem_cons.mp hk with rfl | hk
      · exact ⟨⟨hx, hstart.trans hgap, hstop⟩,
          fun edit hedit => .inl ((hbefore edit hedit).trans hgap),
          fun edit hedit => .inr (hafter edit hedit)⟩
      · rcases @ih [] _ hmore k hk with ⟨hlies, hapart⟩
        refine ⟨hlies.mono (hstart.trans (hgap.trans hxle)) le_rfl, fun edit hedit => .inl ?_, hapart⟩
        exact (hbefore edit hedit).trans (hgap.trans (hxle.trans hlies.2.1))

/-- Merging runs changes every node of the elements but those of what it leaves as it is. -/
theorem listRuns_hits (ctx : Context) {run es : List Expr} {start stop : Location}
    (h : Between Expr.range (Expr.Nested place) start (run.reverse ++ es) stop) {l n : Expr}
    (hl : l ∈ run ∨ l ∈ es) (hn : n ∈ l.bareNodes)
    (hout : ∀ k ∈ leftByRuns run es, n ∉ k.bareNodes) :
    Hit ((listRuns run es).flatMap ctx.mergeLists) n.range := by
  induction es generalizing run start with
  | nil =>
    rw [List.append_nil] at h
    exact run_hits ctx h (by simpa using hl) hn hout
  | cons x xs ih =>
    by_cases hlist : x.list?.isSome = true
    · rw [(listRuns_of_list hlist run xs).2] at hout
      rw [(listRuns_of_list hlist run xs).1]
      refine ih (by simpa using h) ?_ hout
      rw [List.mem_cons] at hl ⊢
      tauto
    · rw [(listRuns_of_not_list hlist run xs).2] at hout
      rw [(listRuns_of_not_list hlist run xs).1, List.flatMap_append, hit_append]
      simp only [List.mem_append, List.mem_cons, or_imp, forall_and, forall_eq] at hout
      rcases h.of_append with ⟨middle, hrun, hrest⟩
      rcases between_cons.mp hrest with ⟨-, -, hmore⟩
      rcases hl with hl | hl
      · exact .inl (run_hits ctx hrun hl hn hout.1)
      rcases List.mem_cons.mp hl with rfl | hl
      · exact absurd hn hout.2.1
      · exact .inr (@ih [] _ hmore (.inr hl) hout.2.2)

theorem isSome_list?_facing {x x' : Expr} (h : Expr.Facing e e' x x') :
    x'.list?.isSome = x.list?.isSome := by
  have helements := h.list?
  generalize x.list? = ys, x'.list? = ys' at helements ⊢
  cases helements with
  | none => rfl
  | some => rfl

theorem facing_listRuns_nil {run run' : List Expr}
    (hrun : List.Forall₂ (Expr.Facing e e') run run') :
    List.Forall₂ (List.Forall₂ (Expr.Facing e e')) (listRuns run []) (listRuns run' []) := by
  rw [listRuns_nil, listRuns_nil, ← hrun.length_eq]
  split
  · exact .cons (List.rel_reverse hrun) .nil
  · exact .nil

/-- The runs of neighbouring lists face those of the twin. -/
theorem facing_listRuns {run run' es es' : List Expr}
    (hrun : List.Forall₂ (Expr.Facing e e') run run')
    (hes : List.Forall₂ (Expr.Facing e e') es es') :
    List.Forall₂ (List.Forall₂ (Expr.Facing e e')) (listRuns run es) (listRuns run' es') := by
  induction hes generalizing run run' with
  | nil => exact facing_listRuns_nil hrun
  | @cons x x' xs xs' hx _ ih =>
    have hsome := isSome_list?_facing hx
    by_cases hlist : x.list?.isSome = true
    · rw [(listRuns_of_list hlist run xs).1, (listRuns_of_list (hsome.trans hlist) run' xs').1]
      exact ih (.cons hx hrun)
    · have hlist' : ¬ x'.list?.isSome = true := by rwa [hsome]
      rw [(listRuns_of_not_list hlist run xs).1, (listRuns_of_not_list hlist' run' xs').1]
      exact List.rel_append (facing_listRuns_nil hrun) (ih .nil)

/-- Which runs are joined element by element, without writing the lists anew. -/
def plainRuns (runs : List (List Expr)) : List Bool := runs.map (·.all Context.isPlainList)

theorem facing_leftOfRun {run run' : List Expr}
    (hrun : List.Forall₂ (Expr.Facing e e') run run')
    (hplain : plainRuns (listRuns run []) = plainRuns (listRuns run' [])) :
    List.Forall₂ (Expr.Facing e e') (leftOfRun run) (leftOfRun run') := by
  rw [listRuns_nil, listRuns_nil, ← hrun.length_eq] at hplain
  rw [leftOfRun, leftOfRun, ← hrun.length_eq]
  split
  · rename_i htwo
    rw [if_pos htwo, if_pos htwo, plainRuns, plainRuns, List.map_singleton, List.map_singleton,
      List.cons.injEq] at hplain
    exact facing_unmerged (List.rel_reverse hrun) hplain.1
  · exact hrun

/-- What merging runs leaves as it is faces what it leaves in the twin, if the same runs are joined
element by element. -/
theorem facing_leftByRuns {run run' es es' : List Expr}
    (hrun : List.Forall₂ (Expr.Facing e e') run run')
    (hes : List.Forall₂ (Expr.Facing e e') es es')
    (hplain : plainRuns (listRuns run es) = plainRuns (listRuns run' es')) :
    List.Forall₂ (Expr.Facing e e') (leftByRuns run es) (leftByRuns run' es') := by
  induction hes generalizing run run' with
  | nil => exact facing_leftOfRun hrun hplain
  | @cons x x' xs xs' hx _ ih =>
    have hsome := isSome_list?_facing hx
    by_cases hlist : x.list?.isSome = true
    · have hlist' := hsome.trans hlist
      rw [(listRuns_of_list hlist run xs).1, (listRuns_of_list hlist' run' xs').1] at hplain
      rw [(listRuns_of_list hlist run xs).2, (listRuns_of_list hlist' run' xs').2]
      exact ih (.cons hx hrun) hplain
    · have hlist' : ¬ x'.list?.isSome = true := by rwa [hsome]
      rw [(listRuns_of_not_list hlist run xs).1, (listRuns_of_not_list hlist' run' xs').1,
        plainRuns, plainRuns, List.map_append, List.map_append] at hplain
      rw [(listRuns_of_not_list hlist run xs).2, (listRuns_of_not_list hlist' run' xs').2]
      have hlength := (facing_listRuns_nil hrun).length_eq
      rcases List.append_inj hplain (by simpa using hlength) with ⟨hhead, htail⟩
      exact List.rel_append (facing_leftOfRun hrun hhead) (.cons hx (ih .nil htail))

/-! ### Calls of `List.concat` -/

theorem listRuns_of_all_lists {es : List Expr} (h : es.all (·.list?.isSome) = true)
    (run : List Expr) : listRuns run es = listRuns (es.reverse ++ run) [] := by
  induction es generalizing run with
  | nil => rfl
  | cons x xs ih =>
    rw [List.all_cons, Bool.and_eq_true] at h
    rw [(listRuns_of_list h.1 run xs).1, ih h.2, List.reverse_cons, List.append_assoc]
    rfl

/-- Lists without anything between them are one run. -/
theorem mergeLists_of_all_lists (ctx : Context) {es : List Expr}
    (hall : es.all (·.list?.isSome) = true) (htwo : 2 ≤ es.length) :
    ctx.mergeLists es = (listRuns [] es).flatMap ctx.mergeLists := by
  rw [listRuns_of_all_lists hall, listRuns_nil, List.append_nil, List.length_reverse,
    if_pos htwo, List.reverse_reverse, List.flatMap_singleton]

/-- A node of a call that is none of the first argument reaches out of that argument. -/
theorem in_first_or_reaches_out {ctx : Context} {c : Call} (he : e.Nested place)
    (hcall : Call.ofExpr? ctx e = some c) {first : Expr} (hfirst : c.arg? 0 = some first)
    {n : Expr} (hn : n ∈ e.nodes) :
    n ∈ first.nodes ∨ n.range.start < first.range.start ∨ first.range.stop < n.range.stop := by
  have hfills := (Call.ofExpr?_fills he hcall).1
  have hfn := hfills.stands.fn.lt
  have hlt := (he.nodes hn).1.proper.lt
  rcases hfills.stands.args first (Call.mem_args_of_arg? hfirst) with ⟨hlies, hside⟩
  have hfirstLt := hlies.1.proper.lt
  rcases Call.mem_args_or_holds he hcall hn with ⟨a, ha, hin⟩ | ⟨hstart, hstop⟩
  · rcases (hfills.arg_lies ha).1.nodes hin with ⟨-, hstart, hstop⟩
    rw [Call.arg?, ← List.head?_eq_getElem?, List.head?_eq_some_iff] at hfirst
    rcases hfirst with ⟨more, hargs⟩
    rw [hargs] at ha
    rcases List.mem_cons.mp ha with rfl | hmem
    · exact .inl hin
    · have hpairs := Call.within_args_pairwise he hcall
      rw [hargs, List.pairwise_cons] at hpairs
      rcases hpairs.1 a hmem with hle | hle
      · exact .inr (.inr (by order))
      · -- an argument piped into the call stands before the function
        obtain ⟨behind, hbehind⟩ := Call.behind_of_append
          (show _ = [first] ++ _ from hargs) (List.ne_nil_of_mem hmem)
        have hfirst := (hfills.behind_lies (a := first) (by simp [hbehind])).2.1
        exact .inr (.inl (by order))
  · rcases hside with hside | hside
    · exact .inr (.inl (by order))
    · exact .inr (.inr (by order))

/-- What stands around the elements of a list that a call is given goes with the call. -/
theorem concatenated_spares {ctx ctx' : Context} {c : Call} (he : e.Nested place)
    (hcall : Call.ofExpr? ctx e = some c) {l first second : Expr} {rest : List Expr}
    (hl : c.arg? 0 = some l) (hlist : l.list? = some (first :: second :: rest)) :
    Spares e (leftByRuns [] (first :: second :: rest))
      (.remove ⟨c.range.start, first.range.start⟩ ::
        .remove ⟨(rest.getLastD second).range.stop, c.range.stop⟩ ::
          (listRuns [] (first :: second :: rest)).flatMap ctx'.mergeLists) := by
  rcases Call.ofExpr?_fills he hcall with ⟨hfills, hrange⟩
  have hllies := hfills.arg_lies (Call.mem_args_of_arg? hl)
  have hstrip := Expr.Lies.stripParens ⟨hllies.1, le_rfl, le_rfl⟩
  rcases Expr.list?_between hstrip.1 (l.list?_stripParens ▸ hlist) with
    ⟨opening, closing, hopening, hline, hclosing⟩
  have hlastEq : (first :: second :: rest).getLast? = some (rest.getLastD second) := by
    rw [List.getLast?_cons_cons, List.getLast?_cons, List.getLastD_eq_getLast?]
  have hlast := hline.stop_getLast hlastEq
  have hends : InLine Expr.range (Expr.Nested place) first.range.start (first :: second :: rest)
      (rest.getLastD second).range.stop := by
    rw [hlast]
    exact ⟨le_rfl, hline.2⟩
  have hapart := @leftByRuns_apart _ ctx' [] _ _ _ hends.between
  have hfirst := hline.1
  have hlstart := hstrip.2.1
  have hlstop := hstrip.2.2
  apply spares_of_apart he
  · intro k hk
    rcases hapart k hk with ⟨⟨hnested, hstart, hstop⟩, hedits⟩
    exact ⟨hnested, List.forall_mem_cons.mpr ⟨.inl hstart, List.forall_mem_cons.mpr
      ⟨.inr hstop, hedits⟩⟩⟩
  · intro n hn hlt hout
    rcases he.lies_of_mem_parts hn with ⟨hmem, ⟨-, hstart, hstop⟩, -⟩
    rw [← hrange] at hstart hstop
    rw [hit_cons, hit_cons]
    -- a node outside the elements is the list itself, or reaches into what is removed at an end
    rcases in_first_or_reaches_out he hcall hl hmem with hin | hreach | hreach
    · have hbare : n.isBare = true := by
        rcases List.mem_flatMap.mp hn with ⟨child, -, hn⟩
        exact (List.mem_filter.mp hn).2
      have hin' : n ∈ l.bareNodes := List.mem_filter.mpr ⟨hin, hbare⟩
      rw [← Expr.bareNodes_stripParens, Expr.bareNodes_eq l.isBare_stripParens,
        Expr.children_of_list? hlist] at hin'
      rcases List.mem_cons.mp hin' with rfl | hin'
      · exact .inl ⟨show c.range.start < l.stripParens.range.stop by order,
          show l.stripParens.range.start < first.range.start by order⟩
      · rcases List.mem_flatMap.mp hin' with ⟨x, hx, hnx⟩
        exact .inr (.inr (@listRuns_hits _ ctx' [] _ _ _ hends.between _ _ (.inr hx) hnx hout))
    · exact .inl ⟨show c.range.start < n.range.stop by order,
        show n.range.start < first.range.start by order⟩
    · exact .inr (.inl ⟨show (rest.getLastD second).range.stop < n.range.stop by order,
        show n.range.start < c.range.stop by order⟩)

/-- Merging runs of neighbouring lists stays within the list that they are elements of. -/
theorem listRuns_sparesIn {ctx : Context} (he : e.Nested place) {l : Expr} {elements : List Expr}
    (hl : l.stripParens ∈ e.nodes) (hlist : l.list? = some elements)
    (hne : (listRuns [] elements).flatMap ctx.mergeLists ≠ []) :
    SparesIn e l (leftByRuns [] elements) ((listRuns [] elements).flatMap ctx.mergeLists) := by
  have hok : ∀ e : Edit, e.range.Proper place → e.range.start ≤ e.range.stop := fun _ h => h.le
  rcases Expr.list?_between (he.nodes hl).1 (l.list?_stripParens ▸ hlist) with
    ⟨opening, closing, hopening, hline, hclosing⟩
  have hbetween := @listRuns_between _ ctx [] _ _ _ hline.between
  apply he.sparesIn hl
  · intro k hk
    rcases @leftByRuns_apart _ ctx [] _ _ _ hline.between k hk with ⟨hlies, hapart⟩
    exact ⟨hlies.1, hapart⟩
  · intro edit hedit
    exact ⟨hopening.le.trans (hbetween.start_le hok hedit),
      (hbetween.le_stop hok hedit).trans hclosing.le⟩
  · rcases List.exists_mem_of_ne_nil _ hne with ⟨edit, hedit⟩
    have hlt := (hbetween.ok_of_mem hedit).lt
    have hstart := hbetween.start_le hok hedit
    have hstop := hbetween.le_stop hok hedit
    exact ⟨edit, hedit, by order, by order⟩
  · intro n hn hlt hout
    rw [Expr.children_of_list? hlist] at hn
    rcases List.mem_flatMap.mp hn with ⟨x, hx, hnx⟩
    exact @listRuns_hits _ ctx [] _ _ _ hline.between _ _ (.inr hx) hnx hout

theorem concatMany_mirrors {P : Prop} {ctx : Context} (source : SourceText) (isFree : Bool)
    {c c' : Call} (h : Call.Twins place place' ctx e e' c c') (lib : Library)
    {l l' first first' second second' : Expr} {rest rest' : List Expr}
    (hl : c.arg? 0 = some l) (hl' : c'.arg? 0 = some l') (hfacing : Expr.Facing e e' l l')
    (hlist : l.list? = some (first :: second :: rest))
    (hlist' : l'.list? = some (first' :: second' :: rest'))
    (helements : List.Forall₂ (Expr.Facing e e') (first :: second :: rest)
      (first' :: second' :: rest'))
    (hplain : P → plainRuns (listRuns [] (first :: second :: rest)) =
      plainRuns (listRuns [] (first' :: second' :: rest'))) :
    Mirrored P e e'
      (concatMany lib ctx c first (rest.getLastD second) (first :: second :: rest))
      (concatMany lib (ctx.moved source isFree) c' first' (rest'.getLastD second')
        (first' :: second' :: rest')) := by
  have hleft := fun hP => facing_leftByRuns .nil helements (hplain hP)
  have hlists := all_eq_all helements (p := (·.list?.isSome)) (q := (·.list?.isSome))
    fun _ _ => isSome_list?_facing
  have hruns := (facing_listRuns .nil helements).length_eq
  unfold concatMany
  rw [hlists]
  split
  · -- the brackets of the outer list go, and all its elements are one run
    rename_i hall
    refine .some (h.twins.mirrors_of_spares rfl hleft ?_ ?_)
    · rw [Finding.fixing, Finding.edits, Option.getD_some, mergeLists_of_all_lists ctx hall (by simp)]
      exact concatenated_spares h.twins.nested h.call hl hlist
    · rw [Finding.fixing, Finding.edits, Option.getD_some,
        mergeLists_of_all_lists (ctx.moved source isFree) (hlists.trans hall) (by simp)]
      exact concatenated_spares h.twins.nested' h.call' hl' hlist'
  · have hempty : (listRuns [] (first' :: second' :: rest')).isEmpty =
        (listRuns [] (first :: second :: rest)).isEmpty := by
      rw [Bool.eq_iff_iff, List.isEmpty_iff_length_eq_zero, List.isEmpty_iff_length_eq_zero, hruns]
    dsimp only
    rw [isEmpty_mergeRuns, isEmpty_mergeRuns, hempty]
    split
    · exact .none
    · rename_i hne
      refine .some (h.twins.mirrors_of_sparesIn rfl hfacing hleft ?_ ?_)
      · refine listRuns_sparesIn h.twins.nested hfacing.mem_nodes hlist ?_
        rwa [ne_eq, ← List.isEmpty_iff, isEmpty_mergeRuns]
      · refine listRuns_sparesIn h.twins.nested' hfacing.mem_nodes' hlist' ?_
        rwa [ne_eq, ← List.isEmpty_iff, isEmpty_mergeRuns, hempty]

/-- The runs of lists that a call of `List.concat` is given. -/
def runsGiven (c : Call) : List (List Expr) := listRuns [] (((c.arg? 0).bind Expr.list?).getD [])

theorem concat_mirrors (lib : Library) {ctx : Context} (source : SourceText) (isFree : Bool)
    {c c' : Call} (h : Call.Twins place place' ctx e e' c c') :
    Mirrored (plainRuns (runsGiven c) = plainRuns (runsGiven c')) e e' (concat lib ctx c)
      (concat lib (ctx.moved source isFree) c') := by
  have hl := h.arg? 0
  unfold concat runsGiven
  generalize ha : c.arg? 0 = a, ha' : c'.arg? 0 = a' at hl ⊢
  cases hl with
  | none => exact .none
  | @some l l' hl =>
    have helements := hl.list?
    dsimp only [Option.bind]
    generalize hlist : l.list? = xs, hlist' : l'.list? = xs' at helements ⊢
    cases helements with
    | none => exact .none
    | some helements =>
      cases helements with
      | nil => exact .some (replaceOnEmpty_mirrors source isFree h lib "[]")
      | cons hfirst hmore =>
        cases hmore with
        | nil => exact .some (h.keepArg lib rfl hfirst)
        | cons hsecond hrest =>
          exact concatMany_mirrors source isFree h lib ha ha' hl hlist hlist'
            (.cons hfirst (.cons hsecond hrest)) id

theorem family_mirrors : ∀ check ∈ family.checks, check.1 ≠ "concat" →
    CallCheck.Mirrors check.2 := by
  simp only [family, List.forall_mem_cons]
  refine ⟨fun _ => map_mirrors, fun _ => filter_mirrors, fun _ => filterMap_mirrors,
    fun h => absurd rfl h, fun _ => concatMap_mirrors, fun _ => indexedMap_mirrors,
    fun _ => isEmpty_mirrors, fun _ => quantifier_mirrors true, fun _ => quantifier_mirrors false,
    fun _ => range_mirrors, fun _ => length_mirrors, fun _ => replicate_mirrors,
    fun _ => reverse_mirrors, fun _ => fold_mirrors, fun _ => fold_mirrors,
    fun _ => partition_mirrors, fun _ => head_mirrors, fun _ => tail_mirrors,
    fun _ => extremum_mirrors, fun _ => extremum_mirrors, fun _ => member_mirrors,
    fun _ => aggregate_mirrors "0", fun _ => aggregate_mirrors "1", fun _ => take_mirrors,
    fun _ => drop_mirrors, fun _ => append_mirrors, fun _ => singleton_mirrors, by simp⟩

end Rule.Lists

namespace Rule.Strings

theorem family_mirrors : ∀ c ∈ family.checks, CallCheck.Mirrors c.2 := by
  simp only [family, List.forall_mem_cons]
  exact ⟨isEmpty_mirrors, concat_mirrors, join_mirrors, length_mirrors, replicate_mirrors,
    split_mirrors, split_mirrors, reverse_mirrors, fromList_mirrors, append_mirrors, by simp⟩

end Rule.Strings

end Terse
