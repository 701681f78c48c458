import Terse.Proofs.Text.Bytes
import Terse.Proofs.Token.Tidy

/-!
# The table of line starts

There are two ways to count in a text. Reading it, one moves from row to row and from column to
column, character by character. Looking a location up, one takes the byte where its row starts from
a table, and passes over the characters of that row alone. They agree on every prefix of every
text, whatever its rows hold and however it ends.
-/

namespace Terse

namespace SourceText

/-! ## The table -/

/-- The bytes behind the line feeds of a text whose first character has this offset. -/
def startsBehind : Nat → List Char → List Nat
  | _, [] => []
  | b, c :: cs =>
    if c = '\n' then (b + 1) :: startsBehind (b + c.utf8Size) cs
    else startsBehind (b + c.utf8Size) cs

/-- Where the rows of the text start, in bytes. -/
def lineStarts (s : SourceText) : List Nat := 0 :: startsBehind 0 s.chars

/-- The text between two offsets; none if one of them is no place of the text, or if they are out
of order. -/
def bytes? (s : SourceText) (start stop : Nat) : Option (List Char) :=
  match charsBefore? s.chars start, charsBefore? s.chars stop with
  | some i, some j => if i ≤ j then some ((s.chars.take j).drop i) else none
  | _, _ => none

/-- A row with the byte where it starts: it reaches up to the line feed before the start of the
next row, and the last one to the end of the text. -/
def line? (s : SourceText) (row : Nat) : Option (Nat × List Char) :=
  if row = 0 then none
  else match s.lineStarts[row - 1]? with
    | none => none
    | some start =>
      let stop := match s.lineStarts[row]? with
        | none => byteLength s.chars
        | some next => next - 1
      (s.bytes? start stop).map fun line => (start, line)

/-- The offset of a location by the table. -/
def tableOffset? (s : SourceText) (l : Location) : Option Nat :=
  match s.line? l.row with
  | none => none
  | some (start, line) =>
    if l.column = 0 then none
    else if l.column - 1 = line.length then some (start + byteLength line)
    else if l.column - 1 < line.length then some (start + byteLength (line.take (l.column - 1)))
    else none

/-! ## Rows of the text and rows of the table -/

/-- Rows as they stand in a text, each with its line feed. -/
def joinRows (rows : List (List Char)) : List Char := rows.flatMap (· ++ ['\n'])

@[simp] theorem joinRows_nil : joinRows [] = [] := rfl

@[simp] theorem joinRows_cons (row : List Char) (rows : List (List Char)) :
    joinRows (row :: rows) = row ++ '\n' :: joinRows rows := by
  simp [joinRows]

@[simp] theorem length_joinRows (rows : List (List Char)) :
    (joinRows rows).length = rowsLength rows := by
  induction rows with
  | nil => rfl
  | cons row rows ih =>
    rw [joinRows_cons, List.length_append, List.length_cons, ih, rowsLength]
    omega

theorem rowsOf_newline (cs : List Char) : rowsOf ('\n' :: cs) = [] :: rowsOf cs := by
  simp [rowsOf]

theorem rowsOf_other {c : Char} (hc : c ≠ '\n') {cs row : List Char} {rows : List (List Char)}
    (h : rowsOf cs = row :: rows) : rowsOf (c :: cs) = (c :: row) :: rows := by
  simp [rowsOf, hc, h]

/-- A row stands behind the rows before it, and in front of a line feed or the end of the text. -/
theorem rowsOf_split {cs row : List Char} {r : Nat} (h : (rowsOf cs)[r]? = some row) :
    ∃ rest, cs = joinRows ((rowsOf cs).take r) ++ (row ++ rest) ∧
      ((rowsOf cs)[r + 1]? = none → rest = []) := by
  induction cs generalizing r row with
  | nil =>
    cases r with
    | zero =>
      obtain rfl : [] = row := by simpa [rowsOf] using h
      exact ⟨[], rfl, fun _ => rfl⟩
    | succ r => simp [rowsOf] at h
  | cons c cs ih =>
    by_cases hc : c = '\n'
    · subst hc
      rw [rowsOf_newline] at h ⊢
      cases r with
      | zero =>
        obtain rfl : [] = row := by simpa using h
        refine ⟨'\n' :: cs, by simp, ?_⟩
        intro hnone
        -- behind a line feed there is always one more row
        rw [List.getElem?_cons_succ, List.getElem?_eq_none_iff] at hnone
        exact absurd (List.eq_nil_of_length_eq_zero (by omega)) (rowsOf_ne_nil cs)
      | succ r =>
        rw [List.getElem?_cons_succ] at h
        rcases ih h with ⟨rest, hcs, hlast⟩
        refine ⟨rest, ?_, hlast⟩
        rw [List.take_succ_cons, joinRows_cons, List.nil_append, List.cons_append, ← hcs]
    · -- any other character makes the first row longer
      rcases List.exists_cons_of_ne_nil (rowsOf_ne_nil cs) with ⟨first, rows, hrows⟩
      rw [hrows] at ih
      rw [rowsOf_other hc hrows] at h ⊢
      cases r with
      | zero =>
        obtain rfl : c :: first = row := by simpa using h
        rcases ih (r := 0) rfl with ⟨rest, hcs, hlast⟩
        refine ⟨rest, ?_, hlast⟩
        simpa using hcs
      | succ r =>
        rcases ih (r := r + 1) h with ⟨rest, hcs, hlast⟩
        refine ⟨rest, ?_, hlast⟩
        rw [List.take_succ_cons, joinRows_cons] at hcs ⊢
        rw [List.cons_append, List.cons_append, ← hcs]

theorem chars_eq_of_row {s : SourceText} {row : List Char} {r : Nat} (h : s.rows[r]? = some row) :
    ∃ rest, s.chars = joinRows (s.rows.take r) ++ (row ++ rest) ∧
      (s.rows[r + 1]? = none → rest = []) :=
  rowsOf_split h

/-- The table lists where the rows start, behind the rows before them. -/
theorem getElem?_startsBehind (b r : Nat) (cs : List Char) :
    (startsBehind b cs)[r]? = (rowsOf cs)[r + 1]?.map fun _ =>
      b + byteLength (joinRows ((rowsOf cs).take (r + 1))) := by
  induction cs generalizing b r with
  | nil => simp [startsBehind, rowsOf]
  | cons c cs ih =>
    rcases List.exists_cons_of_ne_nil (rowsOf_ne_nil cs) with ⟨first, rows, hrows⟩
    by_cases hc : c = '\n'
    · subst hc
      have hsize : '\n'.utf8Size = 1 := rfl
      rw [rowsOf_newline, startsBehind, if_pos rfl]
      cases r with
      | zero => simp [hrows, hsize]
      | succ r =>
        simp only [List.getElem?_cons_succ, List.take_succ_cons, joinRows_cons, List.nil_append,
          byteLength_cons, hsize, ih, Nat.add_assoc]
    · rw [rowsOf_other hc hrows, startsBehind, if_neg hc, ih, hrows]
      simp only [List.getElem?_cons_succ, List.take_succ_cons, joinRows_cons, List.cons_append,
        byteLength_cons, Nat.add_assoc]

theorem getElem?_lineStarts (s : SourceText) (r : Nat) :
    s.lineStarts[r]? = s.rows[r]?.map fun _ => byteLength (joinRows (s.rows.take r)) := by
  unfold lineStarts
  cases r with
  | zero =>
    rcases List.exists_cons_of_ne_nil (rowsOf_ne_nil s.chars) with ⟨first, rows, hrows⟩
    simp [SourceText.rows, hrows]
  | succ r =>
    rw [List.getElem?_cons_succ, getElem?_startsBehind]
    simp [rows]

theorem bytes?_eq {s : SourceText} {before text rest : List Char}
    (h : s.chars = before ++ (text ++ rest)) :
    s.bytes? (byteLength before) (byteLength (before ++ text)) = some text := by
  have hstart : charsBefore? s.chars (byteLength before) = some before.length := by
    rw [h]
    exact charsBefore?_byteLength before (text ++ rest)
  have hstop : charsBefore? s.chars (byteLength (before ++ text)) =
      some (before ++ text).length := by
    rw [h, ← List.append_assoc]
    exact charsBefore?_byteLength (before ++ text) rest
  have hle : before.length ≤ (before ++ text).length := by simp
  have htake : s.chars.take (before ++ text).length = before ++ text := by
    rw [h, ← List.append_assoc, List.take_left]
  rw [bytes?, hstart, hstop]
  simp only [hle, if_true, htake, List.drop_left]

/-- The table cuts out the rows of the text. -/
theorem line?_succ (s : SourceText) (r : Nat) :
    s.line? (r + 1) =
      s.rows[r]?.map fun row => (byteLength (joinRows (s.rows.take r)), row) := by
  rw [line?, if_neg (Nat.succ_ne_zero r), Nat.add_sub_cancel, getElem?_lineStarts]
  cases hrow : s.rows[r]? with
  | none => rfl
  | some row =>
    rcases chars_eq_of_row hrow with ⟨rest, hchars, hlast⟩
    have hstop : (match s.lineStarts[r + 1]? with
        | none => byteLength s.chars
        | some next => next - 1) = byteLength (joinRows (s.rows.take r) ++ row) := by
      rw [getElem?_lineStarts]
      cases hnext : s.rows[r + 1]? with
      | none =>
        conv_lhs => simp only [Option.map_none]; rw [hchars, hlast hnext, List.append_nil]
      | some next =>
        -- the next row starts one byte behind the line feed
        have hlt : r < s.rows.length := (List.getElem?_eq_some_iff.mp hrow).1
        have htake : s.rows.take (r + 1) = s.rows.take r ++ [row] := by
          rw [List.take_add_one, hrow]
          rfl
        have hjoin : joinRows (s.rows.take (r + 1)) = joinRows (s.rows.take r) ++ row ++ ['\n'] := by
          rw [htake]
          simp [joinRows]
        simp only [Option.map_some, hjoin]
        rw [byteLength_append _ ['\n']]
        exact Nat.add_sub_cancel _ 1
    simp only [Option.map_some, hstop]
    rw [bytes?_eq hchars]
    rfl

/-- Looking a location up in the table gives the number of bytes before it. -/
theorem tableOffset?_eq (s : SourceText) (l : Location) : s.tableOffset? l = s.offset? l := by
  rcases l with ⟨row, c⟩
  cases row with
  | zero => simp [tableOffset?, line?, offset?, index?]
  | succ r =>
    rw [tableOffset?, line?_succ]
    cases hrow : s.rows[r]? with
    | none => simp [offset?, index?, hrow]
    | some row =>
      cases c with
      | zero => simp [offset?, index?]
      | succ c =>
        rw [offset?, index?_eq_indexIn, indexIn, hrow]
        rcases chars_eq_of_row hrow with ⟨rest, hchars, -⟩
        -- the table counts within the row, the text from its start on
        by_cases hc : c ≤ row.length
        · have htake : s.chars.take (rowsLength (s.rows.take r) + c) =
              joinRows (s.rows.take r) ++ row.take c := by
            conv_lhs => rw [hchars]
            rw [← length_joinRows, List.take_length_add_append, List.take_append_of_le_length hc]
          simp only [Option.map_some, hc, if_true, htake, byteLength_append]
          rcases Nat.eq_or_lt_of_le hc with rfl | hlt
          · simp
          · simp [hlt, hlt.ne]
        · have hne : c ≠ row.length := by omega
          have hnlt : ¬ c < row.length := by omega
          simp [hc, hne, hnlt]

/-! ## Offsets and prefixes -/

theorem offset?_afterAll {s : SourceText} {before rest : List Char}
    (h : s.chars = before ++ rest) :
    s.offset? (Location.origin.afterAll before) = some (byteLength before) := by
  have htake : s.chars.take before.length = before := by rw [h, List.take_left]
  rw [offset?, index?_afterAll h, Option.map_some, htake]

/-- A location has an offset when a prefix leads to it, and its offset is what the prefix takes. -/
theorem offset?_eq_some_iff_prefix (s : SourceText) (l : Location) (b : Nat) :
    s.offset? l = some b ↔
      ∃ before, before <+: s.chars ∧ Location.origin.afterAll before = l ∧
        byteLength before = b := by
  constructor
  · intro h
    rcases (s.offset?_eq_some_iff l b).mp h with ⟨i, hi, hb⟩
    exact ⟨s.chars.take i, List.take_prefix i s.chars, ((s.index?_eq_some_iff l i).mp hi).2, hb⟩
  · rintro ⟨before, ⟨rest, hrest⟩, rfl, rfl⟩
    exact offset?_afterAll hrest.symm

/-- Different prefixes lead to different locations. -/
theorem prefix_eq_of_afterAll {s : SourceText} {as bs : List Char} (ha : as <+: s.chars)
    (hb : bs <+: s.chars) (h : Location.origin.afterAll as = Location.origin.afterAll bs) :
    as = bs := by
  rcases ha with ⟨_, ha⟩
  rcases hb with ⟨_, hb⟩
  have hlength := (eq_iff_index_eq (index?_afterAll ha.symm) (index?_afterAll hb.symm)).mp h
  exact List.append_inj_left (ha.trans hb.symm) hlength

theorem offset?_lt_iff {s : SourceText} {l l' : Location} {b b' : Nat}
    (h : s.offset? l = some b) (h' : s.offset? l' = some b') : l < l' ↔ b < b' := by
  rcases (s.offset?_eq_some_iff l b).mp h with ⟨i, hi, rfl⟩
  rcases (s.offset?_eq_some_iff l' b').mp h' with ⟨j, hj, rfl⟩
  rw [lt_iff_index_lt hi hj, byteLength_take_lt_iff (index?_le_length hi) (index?_le_length hj)]

theorem offset?_eq_none_iff (s : SourceText) (l : Location) :
    s.offset? l = none ↔ l.row = 0 ∨ l.column = 0 ∨
      ∀ row, s.rows[l.row - 1]? = some row → row.length + 1 < l.column := by
  rw [offset?, Option.map_eq_none_iff, index?]
  by_cases hzero : l.row = 0 ∨ l.column = 0
  · rw [if_pos hzero]
    exact ⟨fun _ => hzero.imp_right .inl, fun _ => rfl⟩
  · rw [if_neg hzero]
    cases hrow : s.rows[l.row - 1]? with
    | none => simp
    | some row =>
      simp only [Option.some.injEq, forall_eq']
      split <;> simp <;> omega

end SourceText

/-! ## Offsets and tokens -/

open SourceText

/-- A token stands between two prefixes of the text. -/
theorem Token.exists_prefix_of_scan {s : SourceText} {ts : List Token}
    (h : Token.scan s.chars = .ok ts) {t : Token} (ht : t ∈ ts) :
    ∃ before own rest, s.chars = before ++ (own ++ rest) ∧
      s.offset? t.range.start = some (byteLength before) ∧
      s.offset? t.range.stop = some (byteLength before + byteLength own) := by
  rcases Token.exists_of_scan h with ⟨pieces, hcut, hplace⟩
  rcases List.append_of_mem ht with ⟨before, after, rfl⟩
  rcases Lexeme.place_eq_append_cons hplace with ⟨as, p, bs, rfl, -, hkind, hrange, -⟩
  have hjoin := Lexeme.join_cutFrom hcut
  rw [List.drop_zero, Lexeme.join_append, Lexeme.join_cons] at hjoin
  refine ⟨Lexeme.join as, p.text, Lexeme.join bs, hjoin.symm, ?_, ?_⟩
  · rw [hrange]
    exact offset?_afterAll hjoin.symm
  · rw [hrange, ← byteLength_append]
    have hchars : s.chars = Lexeme.join as ++ p.text ++ Lexeme.join bs := by
      rw [← hjoin, List.append_assoc]
    exact offset?_afterAll hchars

/-- Where the text cannot be cut, the place is the end of what was cut before. -/
theorem Token.exists_prefix_of_fault {s : SourceText} {l : Location} {fault : Lexeme.Fault}
    (h : Token.scan s.chars = .error (l, fault)) :
    ∃ before, before <+: s.chars ∧ s.offset? l = some (byteLength before) := by
  unfold scan at h
  split at h
  · cases h
  · rename_i pieces _ hcut
    cases h
    rcases Lexeme.cutFrom_front hcut with ⟨-, rest, hrest, -⟩
    rw [List.drop_zero] at hrest
    exact ⟨_, ⟨rest, hrest.symm⟩, offset?_afterAll hrest⟩

/-- Reading and looking up count alike. The table gives every location the offset that the rows
give it. The location that reading has reached behind a prefix has the bytes of the prefix as its
offset; a location with an offset is reached behind one prefix only; a later location has a greater
offset; and there is none where the row is missing, or the column is zero or behind the end of the
row. Tokens, and the place where a text cannot be cut, are such locations. -/
theorem table_counts_as_reading (s : SourceText) :
    (∀ l, s.tableOffset? l = s.offset? l) ∧
    (∀ before, before <+: s.chars →
      s.tableOffset? (Location.origin.afterAll before) = some (byteLength before)) ∧
    (∀ l b, s.tableOffset? l = some b →
      ∃! before, before <+: s.chars ∧ Location.origin.afterAll before = l) ∧
    (∀ l l' b b', s.tableOffset? l = some b → s.tableOffset? l' = some b' →
      (l < l' ↔ b < b')) ∧
    (∀ l, s.tableOffset? l = none ↔ l.row = 0 ∨ l.column = 0 ∨
      ∀ row, s.rows[l.row - 1]? = some row → row.length + 1 < l.column) ∧
    (∀ ts, Token.scan s.chars = .ok ts → ∀ t ∈ ts, ∃ before own rest,
      s.chars = before ++ (own ++ rest) ∧
      s.tableOffset? t.range.start = some (byteLength before) ∧
      s.tableOffset? t.range.stop = some (byteLength before + byteLength own)) ∧
    (∀ l fault, Token.scan s.chars = .error (l, fault) →
      ∃ before, before <+: s.chars ∧ s.tableOffset? l = some (byteLength before)) := by
  refine ⟨s.tableOffset?_eq, ?_⟩
  simp only [tableOffset?_eq]
  refine ⟨?reached, ?unique, ?order, s.offset?_eq_none_iff, ?token, ?fault⟩
  case reached =>
    rintro before ⟨rest, hrest⟩
    exact offset?_afterAll hrest.symm
  case unique =>
    intro l b hb
    rcases (s.offset?_eq_some_iff_prefix l b).mp hb with ⟨before, hfront, hl, -⟩
    refine ⟨before, ⟨hfront, hl⟩, ?_⟩
    rintro other ⟨hother, hl'⟩
    exact prefix_eq_of_afterAll hother hfront (hl'.trans hl.symm)
  case order =>
    intro l l' b b' hb hb'
    exact offset?_lt_iff hb hb'
  case token =>
    intro ts hts t ht
    exact Token.exists_prefix_of_scan hts ht
  case fault =>
    intro l fault hfault
    exact Token.exists_prefix_of_fault hfault

/-- A letter of two bytes, a carriage return, a line feed and an empty last row: behind the four
characters reading has reached the second row, and the table finds it at byte five. -/
theorem table_counts_as_reading_wide_letter :
    ['a', 'é', '\r', '\n'] <+: (SourceText.mk ['a', 'é', '\r', '\n']).chars ∧
      (SourceText.mk ['a', 'é', '\r', '\n']).tableOffset? ⟨2, 1⟩ = some 5 := by
  have hfront : ['a', 'é', '\r', '\n'] <+: (SourceText.mk ['a', 'é', '\r', '\n']).chars :=
    List.prefix_rfl
  exact ⟨hfront, (table_counts_as_reading ⟨['a', 'é', '\r', '\n']⟩).2.1 _ hfront⟩

end Terse
