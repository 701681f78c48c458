import Terse.Config.Basic
import Terse.Proofs.Config.File

/-!
# Names of types in a configuration

The name of a type is written behind the path of its module, with points between all segments. It
is read by cutting it at its last point, and reading drops empty segments; only the check that
comes first makes sure that nothing is lost. So the types that a configuration leaves alone are
shown again exactly as they were written, each once.
-/

namespace Terse

/-! ## Members in the order of their first occurrences -/

/-- The list has each member of `l` with the property once, in the order in which they first occur
in `l`. -/
structure FirstOccurrences {α : Type} [BEq α] (p : α → Prop) (l firsts : List α) : Prop where
  mem_iff : ∀ a, a ∈ firsts ↔ a ∈ l ∧ p a
  inOrder : firsts.Pairwise fun a b => l.idxOf a < l.idxOf b

section FirstOccurrences

variable {α : Type} [BEq α] [LawfulBEq α]

/-- Leaving out other members does not change which of two comes first. -/
theorem idxOf_lt_of_filter {p : α → Bool} {l : List α} {a b : α} (ha : p a) (hb : p b)
    (h : (l.filter p).idxOf a < (l.filter p).idxOf b) : l.idxOf a < l.idxOf b := by
  induction l with
  | nil => exact absurd h (Nat.lt_irrefl _)
  | cons x l ih =>
    by_cases hx : p x
    · rw [List.filter_cons_of_pos hx] at h
      simp only [List.idxOf_cons] at h ⊢
      by_cases hxb : x = b
      · simp [hxb] at h
      · by_cases hxa : x = a
        · simp [hxa, beq_false_of_ne (hxa ▸ hxb)]
        · simp only [beq_false_of_ne hxa, beq_false_of_ne hxb, cond_false] at h ⊢
          exact Nat.succ_lt_succ (ih (Nat.lt_of_succ_lt_succ h))
    · -- the member that is left out is neither of the two
      rw [List.filter_cons_of_neg hx] at h
      have hxa : x ≠ a := fun heq => hx (heq ▸ ha)
      have hxb : x ≠ b := fun heq => hx (heq ▸ hb)
      simp only [List.idxOf_cons, beq_false_of_ne hxa, beq_false_of_ne hxb, cond_false]
      exact Nat.succ_lt_succ (ih h)

/-- Dropping later duplicates keeps the order of the first occurrences. -/
theorem eraseDups_inOrder (l : List α) :
    l.eraseDups.Pairwise fun a b => l.idxOf a < l.idxOf b := by
  -- behind the first member, its duplicates are left out, so the induction is on the length
  induction hn : l.length using Nat.strong_induction_on generalizing l with
  | _ n ih =>
    cases l with
    | nil => exact List.Pairwise.nil
    | cons x l =>
      have hshorter : (l.filter fun b => !b == x).length < n := by
        rw [← hn]
        exact Nat.lt_succ_of_le (List.length_filter_le _ l)
      have hother : ∀ b ∈ (l.filter fun b => !b == x).eraseDups, (!b == x) = true := by
        intro b hb
        exact (List.mem_filter.mp (List.mem_eraseDups.mp hb)).2
      have hbehind : ∀ b, (!b == x) = true → (x :: l).idxOf b = l.idxOf b + 1 := by
        intro b hb
        have hne : x ≠ b := by
          intro heq
          simp [heq] at hb
        rw [List.idxOf_cons, beq_false_of_ne hne, cond_false]
      rw [List.eraseDups_cons, List.pairwise_cons]
      constructor
      · intro b hb
        rw [List.idxOf_cons_self, hbehind b (hother b hb)]
        exact Nat.succ_pos _
      · refine (ih _ hshorter _ rfl).imp_of_mem ?_
        intro a b ha hb hlt
        rw [hbehind a (hother a ha), hbehind b (hother b hb)]
        exact Nat.succ_lt_succ (idxOf_lt_of_filter (hother a ha) (hother b hb) hlt)

theorem firstOccurrences_eraseDups (l : List α) :
    FirstOccurrences (fun _ => True) l l.eraseDups := by
  refine ⟨?_, eraseDups_inOrder l⟩
  intro a
  rw [List.mem_eraseDups, and_true]

theorem firstOccurrences_filter_eraseDups (p : α → Bool) (l : List α) :
    FirstOccurrences (p · = true) l (l.eraseDups.filter p) := by
  refine ⟨?_, (eraseDups_inOrder l).filter p⟩
  intro a
  rw [List.mem_filter, List.mem_eraseDups]

end FirstOccurrences

/-! ## Texts with points -/

/-- Cutting at points is splitting a list. -/
theorem segmentsOf_eq_splitOn (cs : List Char) : segmentsOf cs = cs.splitOn '.' := by
  induction cs with
  | nil => rfl
  | cons c cs ih =>
    rw [segmentsOf, List.splitOn_cons_eq_if_modifyHead, ih]
    cases hcs : cs.splitOn '.' with
    | nil => exact absurd hcs (List.splitOn_ne_nil '.' cs)
    | cons s ss => by_cases hc : c = '.' <;> simp [hc]

theorem dotted_segmentsOf (text : String) :
    dotted ((segmentsOf text.toList).map String.ofList) = text := by
  rw [← String.toList_inj, dotted, String.toList_intercalate, segmentsOf_eq_splitOn, List.map_map]
  simp [Function.comp_def]

variable {path : List String} {name : String}

theorem segmentsOf_dotted (hne : path ≠ []) (hpath : ∀ s ∈ path, '.' ∉ s.toList) :
    segmentsOf (dotted path).toList = path.map String.toList := by
  rw [segmentsOf_eq_splitOn, dotted, String.toList_intercalate]
  exact List.splitOn_intercalate '.' (by simpa using hpath) (by simpa using hne)

/-- A path is read back when no point and no empty segment is in it. -/
theorem ModuleName.ofDotted_dotted (hne : path ≠ [])
    (hpath : ∀ s ∈ path, '.' ∉ s.toList ∧ s.toList ≠ []) : ofDotted (dotted path) = ⟨path⟩ := by
  have hkeep : (path.map String.toList).filter (!·.isEmpty) = path.map String.toList := by
    rw [List.filter_eq_self, List.forall_mem_map]
    intro s hs
    simpa using (hpath s hs).2
  rw [ofDotted, segmentsOf_dotted hne fun s hs => (hpath s hs).1, hkeep, List.map_map]
  simp [Function.comp_def]

theorem dotted_concat (hne : path ≠ []) :
    dotted (path ++ [name]) = dotted path ++ "." ++ name := by
  rw [dotted, String.intercalate_append_of_ne_nil hne (List.cons_ne_nil name []),
    String.intercalate_singleton]
  rfl

/-- The last point is the one that no other stands behind. -/
theorem splitLastDot_append (path : String) (hname : '.' ∉ name.toList) :
    splitLastDot (path ++ "." ++ name) = some (path, name) := by
  have hback : (path ++ "." ++ name).toList.reverse =
      name.toList.reverse ++ '.' :: path.toList.reverse := by
    simp
  have hother : ∀ c ∈ name.toList.reverse, decide (c ≠ '.') = true := by
    intro c hc
    rw [decide_eq_true_eq]
    intro heq
    exact hname (heq ▸ List.mem_reverse.mp hc)
  rw [splitLastDot, hback, List.dropWhile_append_of_pos hother,
    List.dropWhile_cons_of_neg (by simp)]
  dsimp only
  rw [List.takeWhile_append_of_pos hother, List.takeWhile_cons_of_neg (by simp)]
  simp

/-! ## Names of types -/

/-- A segment of a type name: an ASCII capital letter, then ASCII letters, digits and
underscores. -/
def IsTypeSegment (s : String) : Prop :=
  ∃ c cs, s.toList = c :: cs ∧ ('A' ≤ c ∧ c ≤ 'Z') ∧
    ∀ d ∈ cs, ('A' ≤ d ∧ d ≤ 'Z') ∨ ('a' ≤ d ∧ d ≤ 'z') ∨ ('0' ≤ d ∧ d ≤ '9') ∨ d = '_'

/-- A type with its module: two segments or more, with points between them. -/
def NamesType (text : String) : Prop :=
  ∃ segments : List String, 2 ≤ segments.length ∧ (∀ s ∈ segments, IsTypeSegment s) ∧
    text = ".".intercalate segments

theorem Config.isSegment_iff (s : String) : isSegment s.toList = true ↔ IsTypeSegment s := by
  have hupper : ∀ c : Char, c.isUpper = true ↔ 'A' ≤ c ∧ c ≤ 'Z' := fun c => Letter.isUpper_iff
  have hlower : ∀ c : Char, c.isLower = true ↔ 'a' ≤ c ∧ c ≤ 'z' := fun c => Letter.isLower_iff
  have hdigit : ∀ c : Char, c.isDigit = true ↔ '0' ≤ c ∧ c ≤ '9' := fun c => Letter.isDigit_iff
  have hnext : ∀ c, isSegmentChar c = true ↔
      ('A' ≤ c ∧ c ≤ 'Z') ∨ ('a' ≤ c ∧ c ≤ 'z') ∨ ('0' ≤ c ∧ c ≤ '9') ∨ c = '_' := by
    intro c
    rw [isSegmentChar, Char.isAlphanum, Bool.or_eq_true, Bool.or_eq_true, Letter.isAlpha_iff,
      hupper, hlower, hdigit, beq_iff_eq, or_assoc, or_assoc]
  rw [IsTypeSegment]
  cases s.toList with
  | nil => simp [isSegment]
  | cons c cs =>
    rw [isSegment, Bool.and_eq_true, List.all_eq_true, hupper]
    simp only [hnext]
    constructor
    · intro h
      exact ⟨c, cs, rfl, h⟩
    · rintro ⟨d, ds, heq, h⟩
      cases heq
      exact h

theorem IsTypeSegment.ne_nil {s : String} (h : IsTypeSegment s) : s.toList ≠ [] := by
  obtain ⟨c, cs, hs, -⟩ := h
  rw [hs]
  exact List.cons_ne_nil c cs

theorem IsTypeSegment.point_notMem {s : String} (h : IsTypeSegment s) : '.' ∉ s.toList := by
  obtain ⟨c, cs, hs, hc, hcs⟩ := h
  rw [hs, List.mem_cons]
  rintro (heq | hmem)
  · rw [← heq] at hc
    exact absurd hc (by decide)
  · exact absurd (hcs '.' hmem) (by decide)

/-- The test accepts exactly the names of types with their modules. -/
theorem Config.isTypeName_iff (text : String) : isTypeName text = true ↔ NamesType text := by
  rw [isTypeName]
  simp only [Bool.and_eq_true, decide_eq_true_eq, List.all_eq_true]
  constructor
  · rintro ⟨hlength, hall⟩
    refine ⟨(segmentsOf text.toList).map String.ofList, ?_, ?_, (dotted_segmentsOf text).symm⟩
    · rwa [List.length_map]
    · rw [List.forall_mem_map]
      intro s hs
      rw [← isSegment_iff, String.toList_ofList]
      exact hall s hs
  · rintro ⟨segments, hlength, hall, htext⟩
    -- joining with points and cutting at points undo each other, as no segment holds a point
    have hne : segments ≠ [] := by
      intro hnil
      simp [hnil] at hlength
    have hcut : segmentsOf text.toList = segments.map String.toList := by
      rw [htext]
      exact segmentsOf_dotted hne fun s hs => (hall s hs).point_notMem
    rw [hcut, List.length_map, List.forall_mem_map]
    exact ⟨hlength, fun s hs => (isSegment_iff s).mpr (hall s hs)⟩

/-- The path and the name of the type are as they stand in the configuration: each segment of them
is well-formed. -/
structure TypeName.IsProper (t : TypeName) : Prop where
  path_ne_nil : t.path.segments ≠ []
  path : ∀ s ∈ t.path.segments, IsTypeSegment s
  name : IsTypeSegment t.name

/-- A well-formed name is cut where its last segment starts, and nothing of it is lost. -/
theorem NamesType.exists_ofDotted? {text : String} (h : NamesType text) :
    ∃ t, TypeName.ofDotted? text = some t ∧ t.render = text ∧ t.IsProper := by
  obtain ⟨segments, hlength, hall, htext⟩ := h
  rcases List.eq_nil_or_concat segments with hnil | ⟨path, name, hsegments⟩
  · simp [hnil] at hlength
  · rw [List.concat_eq_append] at hsegments
    rw [hsegments, List.forall_mem_append, List.forall_mem_singleton] at hall
    have hne : path ≠ [] := by
      intro hnil
      simp [hsegments, hnil] at hlength
    have hdotted : text = dotted path ++ "." ++ name := by
      rw [← dotted_concat hne, ← hsegments]
      exact htext
    have hpath : ModuleName.ofDotted (dotted path) = ⟨path⟩ :=
      ModuleName.ofDotted_dotted hne fun s hs => ⟨(hall.1 s hs).point_notMem, (hall.1 s hs).ne_nil⟩
    refine ⟨⟨⟨path⟩, name⟩, ?_, hdotted.symm, hne, hall.1, hall.2⟩
    rw [TypeName.ofDotted?, hdotted, splitLastDot_append _ hall.2.point_notMem, ← hpath]
    rfl

/-- Well-formed names are all read, and each is shown again as it was written. -/
theorem map_render_filterMap_ofDotted? {names : List String} (h : ∀ n ∈ names, NamesType n) :
    (names.filterMap TypeName.ofDotted?).map TypeName.render = names := by
  rw [List.map_filterMap]
  have hread : ∀ n ∈ names, (TypeName.ofDotted? n).map TypeName.render = some n := by
    intro n hn
    obtain ⟨t, ht, hrender, -⟩ := (h n hn).exists_ofDotted?
    rw [ht, Option.map_some, hrender]
  rw [List.filterMap_congr hread, List.filterMap_some]

/-! ## The check of a configuration -/

namespace Config

/-- A configuration is accepted exactly if all its ignored types are well-formed names of types
with their modules. Then it leaves alone the types that are shown as the names, in the order in
which these first occur and each once, and no segment of a name was lost. Otherwise it is refused
with all malformed names, in the order in which they first occur and each once. -/
theorem validate_outcome (c : Config) :
    ((∃ types, c.validate = .ok types) ↔ ∀ n ∈ c.ignoredTypes, NamesType n) ∧
    (∀ types, c.validate = .ok types →
      FirstOccurrences (fun _ => True) c.ignoredTypes (types.map TypeName.render) ∧
      ∀ t ∈ types, t.IsProper) ∧
    ∀ e, c.validate = .error e → ∃ names, e = .invalidTypeNames names ∧
      FirstOccurrences (¬ NamesType ·) c.ignoredTypes names := by
  refine ⟨?accepted, ?types, ?refused⟩
  case accepted =>
    simp only [exists_validate_eq_ok_iff, isTypeName_iff]
  case types =>
    intro types htypes
    have hnames : ∀ n ∈ c.ignoredTypes.eraseDups, NamesType n := by
      intro n hn
      rw [← isTypeName_iff]
      exact exists_validate_eq_ok_iff.mp ⟨types, htypes⟩ n (List.mem_eraseDups.mp hn)
    have heq : types = c.ignoredTypes.eraseDups.filterMap TypeName.ofDotted? := by
      rw [validate] at htypes
      split at htypes
      · exact (Except.ok.inj htypes).symm
      · cases htypes
    rw [heq, map_render_filterMap_ofDotted? hnames]
    refine ⟨firstOccurrences_eraseDups c.ignoredTypes, ?_⟩
    intro t ht
    obtain ⟨n, hn, hread⟩ := List.mem_filterMap.mp ht
    obtain ⟨t', hread', -, hproper⟩ := (hnames n hn).exists_ofDotted?
    rw [hread] at hread'
    cases hread'
    exact hproper
  case refused =>
    intro e he
    refine ⟨_, (validate_eq_error_iff.mp he).2, ?_⟩
    have hmalformed : (fun n => ¬ NamesType n) = ((!isTypeName ·) · = true) := by
      funext n
      rw [← isTypeName_iff, Bool.not_eq_true', Bool.not_eq_true]
    rw [hmalformed]
    exact firstOccurrences_filter_eraseDups _ _

/-- A name that is written twice is one type; an empty segment, a point or a line feed at the end,
a single segment and a capital letter outside ASCII are all reported, and what is well-formed
between them is not. -/
theorem validate_outcome_near_misses :
    (∃ types, validate ⟨none, [], ["Element.Font.Weight", "A.B", "Element.Font.Weight"]⟩ =
        .ok types ∧
      FirstOccurrences (fun _ => True) ["Element.Font.Weight", "A.B", "Element.Font.Weight"]
        (types.map TypeName.render) ∧ ∀ t ∈ types, t.IsProper) ∧
    ∃ names, validate ⟨none, [], ["A..B", "A.B.", "A.B", "A.B\n", "B", "É.T", "A..B"]⟩ =
        .error (.invalidTypeNames names) ∧
      FirstOccurrences (¬ NamesType ·) ["A..B", "A.B.", "A.B", "A.B\n", "B", "É.T", "A..B"]
        names := by
  constructor
  · have hread : (validate
        ⟨none, [], ["Element.Font.Weight", "A.B", "Element.Font.Weight"]⟩).toOption =
          some [⟨⟨["Element", "Font"]⟩, "Weight"⟩, ⟨⟨["A"]⟩, "B"⟩] := by
      decide +kernel
    have htypes := eq_ok_of_toOption hread
    exact ⟨_, htypes, (validate_outcome _).2.1 _ htypes⟩
  · have hread : (validate
        ⟨none, [], ["A..B", "A.B.", "A.B", "A.B\n", "B", "É.T", "A..B"]⟩).toOption = none := by
      decide +kernel
    cases hrefused : validate ⟨none, [], ["A..B", "A.B.", "A.B", "A.B\n", "B", "É.T", "A..B"]⟩ with
    | ok types => simp [hrefused, Except.toOption] at hread
    | error e =>
      obtain ⟨names, he, hnames⟩ := (validate_outcome _).2.2 e hrefused
      exact ⟨names, congrArg Except.error he, hnames⟩

end Config

end Terse
