import Terse.Proofs.Token.Boundary

/-!
# How deep comments are nested

A block comment is read mark by mark, and what is no mark character by character. The depth is one
more behind each opening mark and one less behind each closing mark. It never falls below zero, and
the comment ends behind the first closing mark at which it is zero again.
-/

namespace Terse.Lexeme

open Token (Kind)

/-- A step through a comment. -/
inductive CommentPart where
  /-- The mark that opens a comment. -/
  | opening
  /-- The mark that closes a comment. -/
  | closing
  | plain (c : Char)
deriving DecidableEq, Repr

/-- How a part is written. -/
def CommentPart.text : CommentPart → List Char
  | opening => ['{', '-']
  | closing => ['-', '}']
  | plain c => [c]

/-- The text of parts. -/
def written (ps : List CommentPart) : List Char := ps.flatMap CommentPart.text

/-- The parts of a text from left to right. Each mark is read whole, so that marks share no
character. -/
def commentParts : List Char → List CommentPart
  | '{' :: '-' :: cs => .opening :: commentParts cs
  | '-' :: '}' :: cs => .closing :: commentParts cs
  | c :: cs => .plain c :: commentParts cs
  | [] => []

/-- The depth behind parts that are read from a depth on; none where it would fall below zero. -/
def depthAfter : Nat → List CommentPart → Option Nat
  | depth, [] => some depth
  | depth, .opening :: ps => depthAfter (depth + 1) ps
  | 0, .closing :: _ => none
  | depth + 1, .closing :: ps => depthAfter depth ps
  | depth, .plain _ :: ps => depthAfter depth ps

/-- The parts end with a closing mark, and they have as many closing marks as opening ones. -/
def EndsComment (ps : List CommentPart) : Prop :=
  ps.getLast? = some .closing ∧ ps.count .opening = ps.count .closing

variable {depth depth' k : Nat} {p : CommentPart} {c : Char} {cs : List Char}
  {ps qs us : List CommentPart}

@[simp] theorem written_nil : written [] = [] := rfl

@[simp] theorem written_cons (p : CommentPart) (ps : List CommentPart) :
    written (p :: ps) = p.text ++ written ps := List.flatMap_cons

theorem commentParts_cons (hopen : c = '{' → cs.head? ≠ some '-')
    (hclose : c = '-' → cs.head? ≠ some '}') :
    commentParts (c :: cs) = .plain c :: commentParts cs := by
  rw [commentParts]
  · rintro rest rfl rfl
    exact hopen rfl rfl
  · rintro rest rfl rfl
    exact hclose rfl rfl

/-- What the recursion knows of a character at which no mark starts. -/
theorem starts_no_mark (hopen : ∀ ds, c = '{' → cs = '-' :: ds → False)
    (hclose : ∀ ds, c = '-' → cs = '}' :: ds → False) :
    (c = '{' → cs.head? ≠ some '-') ∧ (c = '-' → cs.head? ≠ some '}') :=
  ⟨fun hc => head?_ne_of_forall_ne fun ds => hopen ds hc,
    fun hc => head?_ne_of_forall_ne fun ds => hclose ds hc⟩

/-- The parts of a text, put together, are the text. -/
theorem written_commentParts (cs : List Char) : written (commentParts cs) = cs := by
  induction cs using commentParts.induct with
  | case1 cs ih => rw [commentParts, written_cons, ih]; rfl
  | case2 cs ih => rw [commentParts, written_cons, ih]; rfl
  | case3 c cs hopen hclose ih =>
    rcases starts_no_mark hopen hclose with ⟨hopen, hclose⟩
    rw [commentParts_cons hopen hclose, written_cons, ih]
    rfl
  | case4 => rfl

/-- What is read first stands at the front of the text. -/
theorem written_prefix (h : ps <+: commentParts cs) : written ps <+: cs := by
  rcases h with ⟨qs, hqs⟩
  refine ⟨written qs, ?_⟩
  rw [← written_commentParts cs, ← hqs, written, written, written, List.flatMap_append]

/-! ## Parts that close everything -/

/-- Read from a depth on, the parts end with a closing mark, and they close what was open before
them and what they open. -/
structure ClosesAll (depth : Nat) (ps : List CommentPart) : Prop where
  last : ps.getLast? = some .closing
  even : depth + ps.count .opening = ps.count .closing

theorem closesAll_zero : ClosesAll 0 = EndsComment := by
  funext ps
  apply propext
  constructor
  · rintro ⟨hlast, heven⟩
    exact ⟨hlast, (Nat.zero_add _).symm.trans heven⟩
  · rintro ⟨hlast, heven⟩
    exact ⟨hlast, (Nat.zero_add _).trans heven⟩

theorem not_closesAll_nil : ¬ ClosesAll depth [] := by
  intro h
  cases h.last

theorem getLast?_cons_closing (h : p ≠ .closing) :
    (p :: ps).getLast? = some .closing ↔ ps.getLast? = some .closing := by
  cases ps with
  | nil => simpa using h
  | cons q qs => rw [List.getLast?_cons_cons]

theorem closesAll_opening_cons :
    ClosesAll depth (.opening :: ps) ↔ ClosesAll (depth + 1) ps := by
  have hcounts : depth + (CommentPart.opening :: ps).count .opening =
      (CommentPart.opening :: ps).count .closing ↔
        depth + 1 + ps.count .opening = ps.count .closing := by
    rw [List.count_cons_self, List.count_cons_of_ne (by decide)]
    omega
  constructor
  · rintro ⟨hlast, heven⟩
    exact ⟨(getLast?_cons_closing (by decide)).mp hlast, hcounts.mp heven⟩
  · rintro ⟨hlast, heven⟩
    exact ⟨(getLast?_cons_closing (by decide)).mpr hlast, hcounts.mpr heven⟩

theorem closesAll_plain_cons : ClosesAll depth (.plain c :: ps) ↔ ClosesAll depth ps := by
  have hplain : CommentPart.plain c ≠ .closing := by simp
  have hcounts : depth + (CommentPart.plain c :: ps).count .opening =
      (CommentPart.plain c :: ps).count .closing ↔
        depth + ps.count .opening = ps.count .closing := by
    rw [List.count_cons_of_ne (by simp), List.count_cons_of_ne hplain]
  constructor
  · rintro ⟨hlast, heven⟩
    exact ⟨(getLast?_cons_closing hplain).mp hlast, hcounts.mp heven⟩
  · rintro ⟨hlast, heven⟩
    exact ⟨(getLast?_cons_closing hplain).mpr hlast, hcounts.mpr heven⟩

/-- A closing mark ends a comment inside another one. -/
theorem closesAll_closing_cons :
    ClosesAll (depth + 2) (.closing :: ps) ↔ ClosesAll (depth + 1) ps := by
  have hcounts : depth + 2 + (CommentPart.closing :: ps).count .opening =
      (CommentPart.closing :: ps).count .closing ↔
        depth + 1 + ps.count .opening = ps.count .closing := by
    rw [List.count_cons_self, List.count_cons_of_ne (by decide)]
    omega
  constructor
  · rintro ⟨hlast, heven⟩
    refine ⟨?_, hcounts.mp heven⟩
    cases ps with
    | nil => simp at heven
    | cons q qs => rwa [List.getLast?_cons_cons] at hlast
  · rintro ⟨hlast, heven⟩
    refine ⟨?_, hcounts.mpr heven⟩
    cases ps with
    | nil => cases hlast
    | cons q qs => rwa [List.getLast?_cons_cons]

theorem closesAll_last : ClosesAll 1 [.closing] := ⟨rfl, rfl⟩

/-! ## The first parts that close everything -/

/-- The shortest front of the parts that passes the test. -/
structure Shortest (test : List CommentPart → Prop) (us ps : List CommentPart) : Prop where
  front : ps <+: us
  passes : test ps
  first : ∀ qs, qs <+: ps → test qs → qs = ps

/-- How reading from a depth on comes out: the number of characters up to where everything is
closed for the first time, or nothing when it never is. -/
def Comes (depth : Nat) (us : List CommentPart) : Option Nat → Prop
  | some n => ∃ ps, Shortest (ClosesAll depth) us ps ∧ (written ps).length = n
  | none => ∀ ps, ps <+: us → ¬ ClosesAll depth ps

/-- One more part in front, behind which the same is left to be closed. -/
theorem Comes.cons {result : Option Nat} (h : Comes depth' us result)
    (hstep : ∀ qs, ClosesAll depth (p :: qs) ↔ ClosesAll depth' qs) :
    Comes depth (p :: us) (result.map (· + p.text.length)) := by
  cases result with
  | none =>
    intro ps hps hcloses
    cases ps with
    | nil => exact not_closesAll_nil hcloses
    | cons q qs =>
      obtain ⟨rfl, hqs⟩ := List.cons_prefix_cons.mp hps
      exact h qs hqs ((hstep qs).mp hcloses)
  | some n =>
    -- another start that closes has this part in front too, so the first of them stays first
    rcases h with ⟨ps, hps, rfl⟩
    have hfront : p :: ps <+: p :: us := List.cons_prefix_cons.mpr ⟨rfl, hps.front⟩
    refine ⟨p :: ps, ⟨hfront, (hstep ps).mpr hps.passes, ?_⟩, ?_⟩
    · intro qs hqs hcloses
      cases qs with
      | nil => exact absurd hcloses not_closesAll_nil
      | cons q qs =>
        obtain ⟨rfl, hrest⟩ := List.cons_prefix_cons.mp hqs
        rw [hps.first qs hrest ((hstep qs).mp hcloses)]
    · rw [written_cons, List.length_append, Nat.add_comm]

/-- Inside a comment, reading stops where everything is closed for the first time. -/
theorem comes_closeComment (hdepth : 0 < depth) :
    Comes depth (commentParts cs) (closeComment depth cs) := by
  induction depth, cs using closeComment.induct with
  | case1 depth cs ih =>
    rw [commentParts, closeComment]
    exact (ih (Nat.succ_pos depth)).cons fun _ => closesAll_opening_cons
  | case2 depth cs hlast =>
    -- one comment is open, and this mark closes it
    obtain rfl : depth = 1 := Nat.le_antisymm hlast hdepth
    rw [commentParts, closeComment, if_pos hlast]
    refine ⟨[.closing], ⟨⟨_, rfl⟩, closesAll_last, ?_⟩, rfl⟩
    intro qs hqs hcloses
    cases qs with
    | nil => exact absurd hcloses not_closesAll_nil
    | cons q qs =>
      obtain ⟨rfl, hrest⟩ := List.cons_prefix_cons.mp hqs
      rw [List.prefix_nil.mp hrest]
  | case3 depth cs hlast ih =>
    -- a comment stays open around the one that this mark closes
    obtain ⟨outer, rfl⟩ : ∃ outer, depth = outer + 2 := ⟨depth - 2, by omega⟩
    rw [commentParts, closeComment, if_neg hlast]
    exact (ih (Nat.succ_pos outer)).cons fun _ => closesAll_closing_cons
  | case4 depth c cs hopen hclose ih =>
    rcases starts_no_mark hopen hclose with ⟨hopen, hclose⟩
    rw [commentParts_cons hopen hclose, closeComment_cons hopen hclose]
    exact (ih hdepth).cons fun _ => closesAll_plain_cons
  | case5 depth =>
    intro ps hps hcloses
    rw [commentParts, List.prefix_nil] at hps
    subst hps
    exact not_closesAll_nil hcloses

/-! ## The depth on the way -/

/-- Behind parts that were read from a depth on, the reader stands at depth `k`, which is not zero:
what it returns is what it returns from there. -/
structure StandsAt (depth : Nat) (cs : List Char) (qs : List CommentPart) (k : Nat) : Prop where
  pos : 0 < k
  depth_eq : depthAfter depth qs = some k
  even : k + qs.count .closing = depth + qs.count .opening
  reads : closeComment depth cs =
    (closeComment k (cs.drop (written qs).length)).map (· + (written qs).length)

theorem standsAt_nil (hdepth : 0 < depth) : StandsAt depth cs [] depth := by
  refine ⟨hdepth, rfl, rfl, ?_⟩
  simp

theorem StandsAt.cons (h : StandsAt depth' cs qs k)
    (hdepth : depthAfter depth (p :: qs) = depthAfter depth' qs)
    (heven : depth' + [p].count .closing = depth + [p].count .opening)
    (hreads : closeComment depth (p.text ++ cs) =
      (closeComment depth' cs).map (· + p.text.length)) :
    StandsAt depth (p.text ++ cs) (p :: qs) k := by
  refine ⟨h.pos, hdepth.trans h.depth_eq, ?_, ?_⟩
  · have hqs := h.even
    have hcount : ∀ mark, (p :: qs).count mark = [p].count mark + qs.count mark := by
      intro mark
      rw [← List.singleton_append, List.count_append]
    have hopening := hcount .opening
    have hclosing := hcount .closing
    omega
  · rw [hreads, h.reads, written_cons, List.length_append, List.drop_length_add_append,
      Option.map_map]
    congr 1
    funext n
    simp only [Function.comp]
    omega

/-- One more part in front, behind which the reader stands at another depth. -/
theorem exists_standsAt_cons
    (ih : ∀ {qs}, qs <+: us → (∀ ps, ps <+: qs → ¬ ClosesAll depth' ps) →
      ∃ k, StandsAt depth' cs qs k)
    (hdepth : 0 < depth) (hstep : ∀ ps, ClosesAll depth (p :: ps) ↔ ClosesAll depth' ps)
    (hafter : ∀ ps, depthAfter depth (p :: ps) = depthAfter depth' ps)
    (heven : depth' + [p].count .closing = depth + [p].count .opening)
    (hreads : closeComment depth (p.text ++ cs) =
      (closeComment depth' cs).map (· + p.text.length))
    (hfront : qs <+: p :: us) (hopen : ∀ ps, ps <+: qs → ¬ ClosesAll depth ps) :
    ∃ k, StandsAt depth (p.text ++ cs) qs k := by
  cases qs with
  | nil => exact ⟨depth, standsAt_nil hdepth⟩
  | cons q qs =>
    obtain ⟨rfl, hrest⟩ := List.cons_prefix_cons.mp hfront
    have hopen' : ∀ ps, ps <+: qs → ¬ ClosesAll depth' ps := by
      intro ps hps hcloses
      exact hopen (q :: ps) (List.cons_prefix_cons.mpr ⟨rfl, hps⟩) ((hstep ps).mpr hcloses)
    rcases ih hrest hopen' with ⟨k, hk⟩
    exact ⟨k, hk.cons (hafter qs) heven hreads⟩

/-- Parts that were read and do not close everything leave the reader at their depth. -/
theorem exists_standsAt (hdepth : 0 < depth) (hfront : qs <+: commentParts cs)
    (hopen : ∀ ps, ps <+: qs → ¬ ClosesAll depth ps) : ∃ k, StandsAt depth cs qs k := by
  induction depth, cs using closeComment.induct generalizing qs with
  | case1 depth cs ih =>
    rw [commentParts] at hfront
    have hreads : closeComment depth ('{' :: '-' :: cs) =
        (closeComment (depth + 1) cs).map (· + 2) := by rw [closeComment]
    exact exists_standsAt_cons (ih (Nat.succ_pos depth)) hdepth
      (fun _ => closesAll_opening_cons) (fun _ => rfl) rfl hreads hfront hopen
  | case2 depth cs hlast =>
    obtain rfl : depth = 1 := Nat.le_antisymm hlast hdepth
    rw [commentParts] at hfront
    cases qs with
    | nil => exact ⟨1, standsAt_nil hdepth⟩
    | cons q qs =>
      -- the closing mark would close everything
      obtain ⟨rfl, -⟩ := List.cons_prefix_cons.mp hfront
      exact absurd closesAll_last (hopen _ (List.prefix_append [_] qs))
  | case3 depth cs hlast ih =>
    obtain ⟨outer, rfl⟩ : ∃ outer, depth = outer + 2 := ⟨depth - 2, by omega⟩
    rw [commentParts] at hfront
    have hreads : closeComment (outer + 2) ('-' :: '}' :: cs) =
        (closeComment (outer + 1) cs).map (· + 2) := by
      rw [closeComment, if_neg hlast, Nat.add_sub_cancel (outer + 1) 1]
    exact exists_standsAt_cons (ih (Nat.succ_pos outer)) hdepth
      (fun _ => closesAll_closing_cons) (fun _ => rfl) rfl hreads hfront hopen
  | case4 depth c cs hplain hplain' ih =>
    rcases starts_no_mark hplain hplain' with ⟨hne, hne'⟩
    rw [commentParts_cons hne hne'] at hfront
    exact exists_standsAt_cons (ih hdepth) hdepth (fun _ => closesAll_plain_cons) (fun _ => rfl)
      rfl (closeComment_cons hne hne') hfront hopen
  | case5 depth =>
    rw [commentParts, List.prefix_nil] at hfront
    subst hfront
    exact ⟨depth, standsAt_nil hdepth⟩

/-! ## Whole comments -/

/-- There is one shortest front at most. -/
theorem Shortest.unique {test : List CommentPart → Prop} (hps : Shortest test us ps)
    (hqs : Shortest test us qs) : ps = qs := by
  rcases List.prefix_or_prefix_of_prefix hps.front hqs.front with h | h
  · exact hqs.first ps h hps.passes
  · exact (hps.first qs h hqs.passes).symm

theorem Comes.eq_some_iff {result : Option Nat} {n : Nat} (h : Comes depth us result) :
    result = some n ↔ ∃ ps, Shortest (ClosesAll depth) us ps ∧ (written ps).length = n := by
  cases result with
  | none =>
    constructor
    · intro hsome
      cases hsome
    · rintro ⟨ps, hps, -⟩
      exact absurd hps.passes (h ps hps.front)
  | some m =>
    constructor
    · rintro ⟨⟩
      exact h
    · rintro ⟨ps, hps, rfl⟩
      rcases h with ⟨qs, hqs, rfl⟩
      rw [hps.unique hqs]

theorem Comes.eq_none_iff {result : Option Nat} (h : Comes depth us result) :
    result = none ↔ ∀ ps, ps <+: us → ¬ ClosesAll depth ps := by
  cases result with
  | none => exact ⟨fun _ => h, fun _ => rfl⟩
  | some m =>
    rcases h with ⟨ps, hps, -⟩
    constructor
    · intro hnone
      cases hnone
    · intro hnever
      exact absurd hps.passes (hnever ps hps.front)

variable {rest : List Char} {attached : Option Kind}

/-- A comment that starts here ends where its marks are even for the first time. -/
theorem comes_of_opening :
    Comes 0 (commentParts ('{' :: '-' :: rest)) (closeComment 0 ('{' :: '-' :: rest)) := by
  have hinside : Comes 1 (commentParts rest) (closeComment 1 rest) :=
    comes_closeComment Nat.one_pos
  rw [commentParts, closeComment]
  exact hinside.cons fun _ => closesAll_opening_cons

theorem next_eq_blockComment_iff {n : Nat} :
    next attached '{' ('-' :: rest) = .ok (.blockComment, n) ↔
      closeComment 0 ('{' :: '-' :: rest) = some (n + 1) := by
  cases h : closeComment 0 ('{' :: '-' :: rest) with
  | none => simp [next, isSpace, h]
  | some m =>
    have hpos := closeComment_pos h
    have hcount : m - 1 = n ↔ m = n + 1 := by omega
    simp [next, isSpace, h, hcount]

theorem next_eq_unterminatedComment_iff :
    next attached '{' ('-' :: rest) = .error .unterminatedComment ↔
      closeComment 0 ('{' :: '-' :: rest) = none := by
  cases h : closeComment 0 ('{' :: '-' :: rest) <;> simp [next, isSpace, h]

theorem depthAfter_append (depth : Nat) (ps qs : List CommentPart) :
    depthAfter depth (ps ++ qs) = (depthAfter depth ps).bind fun k => depthAfter k qs := by
  induction ps generalizing depth with
  | nil => rfl
  | cons p ps ih =>
    cases p with
    | opening | plain => exact ih _
    | closing =>
      cases depth with
      | zero => rfl
      | succ depth => exact ih depth

/-- A comment that has not ended is read on at a depth. -/
theorem exists_standsAt_opening (hfront : qs <+: commentParts rest)
    (hopen : ∀ ps, ps <+: .opening :: qs → ¬ EndsComment ps) :
    ∃ k, StandsAt 0 ('{' :: '-' :: rest) (.opening :: qs) k := by
  have hinside : ∀ ps, ps <+: qs → ¬ ClosesAll 1 ps := by
    intro ps hps hcloses
    rw [← closesAll_opening_cons, closesAll_zero] at hcloses
    exact hopen (.opening :: ps) (List.cons_prefix_cons.mpr ⟨rfl, hps⟩) hcloses
  rcases exists_standsAt Nat.one_pos hfront hinside with ⟨k, hk⟩
  have hreads : closeComment 0 ('{' :: '-' :: rest) = (closeComment 1 rest).map (· + 2) := by
    rw [closeComment]
  exact ⟨k, StandsAt.cons (p := .opening) hk rfl rfl hreads⟩

/-- Behind each front of a comment that has not ended before there is a depth. -/
theorem exists_depthAfter
    (hfront : qs <+: commentParts ('{' :: '-' :: rest))
    (hopen : ∀ ps, ps <+: qs → EndsComment ps → ps = qs) :
    ∃ k, depthAfter 0 qs = some k ∧ k + qs.count .closing = qs.count .opening ∧
      (¬ EndsComment qs → closeComment 0 ('{' :: '-' :: rest) =
        (closeComment k (('{' :: '-' :: rest).drop (written qs).length)).map
          (· + (written qs).length)) := by
  rw [commentParts] at hfront
  cases qs with
  | nil => exact ⟨0, rfl, rfl, fun _ => by simp⟩
  | cons q qs =>
    obtain ⟨rfl, hrest⟩ := List.cons_prefix_cons.mp hfront
    by_cases hends : EndsComment (.opening :: qs)
    · -- the last part closes the comment, and before it the depth is one
      obtain ⟨init, rfl⟩ : ∃ init, qs = init ++ [.closing] := by
        have hlast := (getLast?_cons_closing (by decide)).mp hends.1
        exact List.getLast?_eq_some_iff.mp hlast
      have hinit : ∀ ps, ps <+: .opening :: init → ¬ EndsComment ps := by
        intro ps hps hps'
        have hfront' : ps <+: .opening :: (init ++ [.closing]) :=
          hps.trans (List.cons_prefix_cons.mpr ⟨rfl, List.prefix_append _ _⟩)
        have hlength := hps.length_le
        rw [hopen ps hfront' hps', ← List.cons_append, List.length_append] at hlength
        exact Nat.not_succ_le_self _ hlength
      have hrest' : init <+: commentParts rest := (List.prefix_append init _).trans hrest
      rcases exists_standsAt_opening hrest' hinit with ⟨k, hk⟩
      have hcounts := hk.even
      have heven := hends.2
      rw [← List.cons_append, List.count_append, List.count_append] at heven
      have hopening : [CommentPart.closing].count .opening = 0 := rfl
      have hclosing : [CommentPart.closing].count .closing = 1 := rfl
      obtain rfl : k = 1 := by omega
      refine ⟨0, ?_, ?_, fun hnot => absurd hends hnot⟩
      · rw [← List.cons_append, depthAfter_append, hk.depth_eq]
        rfl
      · rw [Nat.zero_add]
        exact hends.2.symm
    · have hnone : ∀ ps, ps <+: .opening :: qs → ¬ EndsComment ps := by
        intro ps hps hps'
        rw [hopen ps hps hps'] at hps'
        exact hends hps'
      rcases exists_standsAt_opening hrest hnone with ⟨k, hk⟩
      exact ⟨k, hk.depth_eq, hk.even.trans (Nat.zero_add _), fun _ => hk.reads⟩

/-- Where an opening mark is read, the comment ends exactly behind the first closing mark at which
there are as many closing marks as opening ones. When there is none, the text cannot be cut, and
the place of the fault is the start of the comment. As long as the comment has not ended, each mark
and character is read at a depth: the number of opening marks before it, less that of the closing
ones. That depth is what the reader goes on with, and it never falls below zero. -/
theorem block_comment_ends_even {text before : List Char}
    (h : CutAt text before attached ('{' :: '-' :: rest)) :
    (∀ n, next attached '{' ('-' :: rest) = .ok (.blockComment, n) ↔
      ∃ ps, Shortest EndsComment (commentParts ('{' :: '-' :: rest)) ps ∧
        (written ps).length = n + 1) ∧
    (next attached '{' ('-' :: rest) = .error .unterminatedComment ↔
      ∀ ps, ps <+: commentParts ('{' :: '-' :: rest) → ¬ EndsComment ps) ∧
    (∀ ps, Shortest EndsComment (commentParts ('{' :: '-' :: rest)) ps →
      ∃ behind, '{' :: '-' :: rest = written ps ++ behind ∧
        CutAt text (before ++ written ps) none behind) ∧
    ((∀ ps, ps <+: commentParts ('{' :: '-' :: rest) → ¬ EndsComment ps) →
      Token.scan text = .error (Location.origin.afterAll before, .unterminatedComment)) ∧
    ∀ qs, qs <+: commentParts ('{' :: '-' :: rest) →
      (∀ ps, ps <+: qs → EndsComment ps → ps = qs) →
      ∃ k, depthAfter 0 qs = some k ∧ k + qs.count .closing = qs.count .opening ∧
        (¬ EndsComment qs → closeComment 0 ('{' :: '-' :: rest) =
          (closeComment k (('{' :: '-' :: rest).drop (written qs).length)).map
            (· + (written qs).length)) := by
  have hends : ∀ n, next attached '{' ('-' :: rest) = .ok (.blockComment, n) ↔
      ∃ ps, Shortest EndsComment (commentParts ('{' :: '-' :: rest)) ps ∧
        (written ps).length = n + 1 := by
    intro n
    rw [next_eq_blockComment_iff, comes_of_opening.eq_some_iff, closesAll_zero]
  have hnever : next attached '{' ('-' :: rest) = .error .unterminatedComment ↔
      ∀ ps, ps <+: commentParts ('{' :: '-' :: rest) → ¬ EndsComment ps := by
    rw [next_eq_unterminatedComment_iff, comes_of_opening.eq_none_iff, closesAll_zero]
  refine ⟨hends, hnever, ?_, fun hnone => h.scan_eq_error (hnever.mpr hnone),
    fun qs => exists_depthAfter⟩
  intro ps hps
  have hclose : closeComment 0 ('{' :: '-' :: rest) = some (written ps).length := by
    rw [comes_of_opening.eq_some_iff, closesAll_zero]
    exact ⟨ps, hps, rfl⟩
  obtain ⟨n, hn⟩ := Nat.exists_eq_succ_of_ne_zero (closeComment_pos hclose).ne'
  rcases written_prefix hps.front with ⟨behind, hbehind⟩
  -- the reader stands at the first character of the comment and takes the others behind it
  have htake : '{' :: ('-' :: rest).take n = written ps := by
    rw [← List.take_succ_cons, ← Nat.succ_eq_add_one, ← hn, ← hbehind, List.take_left]
  have hdrop : ('-' :: rest).drop n = behind := by
    rw [← List.drop_succ_cons (a := '{'), ← Nat.succ_eq_add_one, ← hn, ← hbehind,
      List.drop_left]
  have hcut := h.next ((hends n).mpr ⟨ps, hps, hn⟩)
  rw [htake, hdrop] at hcut
  exact ⟨behind, hbehind.symm, hcut⟩

/-- Behind a name, a comment that starts with an opening mark and a brace: the mark does not close
itself, and the comment takes six characters. -/
theorem block_comment_ends_even_shared_character :
    CutAt ['a', '{', '-', '}', ' ', '-', '}', 'b'] ['a'] (some (.lower [] "a"))
        ['{', '-', '}', ' ', '-', '}', 'b'] ∧
      ∃ ps, Shortest EndsComment (commentParts ['{', '-', '}', ' ', '-', '}', 'b']) ps ∧
        (written ps).length = 6 := by
  have hname : next none 'a' ['{', '-', '}', ' ', '-', '}', 'b'] =
      .ok (.token (.lower [] "a"), 0) := by
    decide +kernel
  have hcut : CutAt ['a', '{', '-', '}', ' ', '-', '}', 'b'] ['a'] (some (.lower [] "a"))
      ['{', '-', '}', ' ', '-', '}', 'b'] := .next .start hname
  have hcomment : next (some (.lower [] "a")) '{' ['-', '}', ' ', '-', '}', 'b'] =
      .ok (.blockComment, 5) := by
    decide +kernel
  exact ⟨hcut, ((block_comment_ends_even hcut).1 5).mp hcomment⟩

end Terse.Lexeme
