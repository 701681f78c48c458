import Mathlib.Tactic.Order
import Terse.Proofs.Edit.Place
import Terse.Proofs.Text.Bytes

/-!
# What a list of edits writes

Edits are written one after the other into a single text, from the last to the first, at places
that were counted in the original text. The result is the original text with the stretches of the
edits exchanged for their texts, in the order of the places, and with nothing else changed. So it
does not depend on the order in which the edits are given, and no place ever lies outside the
text that is being written or inside one of its characters.
-/

namespace Terse

open SourceText

/-- An edit with the numbers of bytes before its start and before its end. -/
structure ByteEdit where
  start : Nat
  stop : Nat
  text : String
deriving DecidableEq, Repr

namespace ByteEdit

/-- Order by start, and by end among edits that start together. -/
def startsFirst (a b : ByteEdit) : Bool :=
  a.start < b.start || (a.start == b.start && a.stop ≤ b.stop)

theorem startsFirst_iff (a b : ByteEdit) :
    a.startsFirst b = true ↔ a.start < b.start ∨ a.start = b.start ∧ a.stop ≤ b.stop := by
  simp [startsFirst]

/-- Write edits one after the other, from the last to the first, by numbers of bytes. -/
def writeBack (es : List ByteEdit) (cs : List Char) : Option (List Char) :=
  es.foldrM (fun e cs => replaceBytes? e.start e.stop e.text.toList cs) cs

end ByteEdit

/-- An edit by its offsets; none if an end does not belong to the text. -/
def SourceText.byteEdit? (s : SourceText) (e : Edit) : Option ByteEdit := do
  let start ← s.offset? e.range.start
  let stop ← s.offset? e.range.stop
  return ⟨start, stop, e.text⟩

/-- The second text is the first one with edits written into it, where the first text starts at an
offset: what stands before the first edit, its text, what stands before the next edit, and so on
to what stands behind the last one. -/
inductive Spliced : Nat → List ByteEdit → List Char → List Char → Prop where
  | rest (offset : Nat) (cs : List Char) : Spliced offset [] cs cs
  | edit {offset : Nat} {e : ByteEdit} {es : List ByteEdit} {gap old cs cs' : List Char}
      (hstart : e.start = offset + byteLength gap) (hstop : e.stop = e.start + byteLength old)
      (hrest : Spliced e.stop es cs cs') :
      Spliced offset (e :: es) (gap ++ (old ++ cs)) (gap ++ (e.text.toList ++ cs'))

/-! ## Writing at indices -/

namespace PlacedEdit

/-- The places of edits lie one after the other, from an index to the end of a text. -/
def Lined (length : Nat) : Nat → List PlacedEdit → Prop
  | from_, [] => from_ ≤ length
  | from_, p :: ps => from_ ≤ p.start ∧ p.start ≤ p.stop ∧ Lined length p.stop ps

/-- The edit by the bytes before its ends. -/
def toBytes (cs : List Char) (p : PlacedEdit) : ByteEdit :=
  ⟨byteLength (cs.take p.start), byteLength (cs.take p.stop), p.edit.text⟩

theorem lined_le_length {length from_ : Nat} {ps : List PlacedEdit}
    (h : Lined length from_ ps) : from_ ≤ length := by
  induction ps generalizing from_ with
  | nil => exact h
  | cons p ps ih =>
    rcases h with ⟨h1, h2, h3⟩
    exact h1.trans (h2.trans (ih h3))

/-- Edits that come one after the other in a text are lined up in it. -/
theorem lined_of_pairwise {length from_ : Nat} {ps : List PlacedEdit}
    (hfrom : ∀ p ∈ ps, from_ ≤ p.start) (hle : from_ ≤ length)
    (hps : ∀ p ∈ ps, p.start ≤ p.stop ∧ p.stop ≤ length)
    (h : ps.Pairwise fun a b => Before a.span b.span) : Lined length from_ ps := by
  induction ps generalizing from_ with
  | nil => exact hle
  | cons p ps ih =>
    rcases List.pairwise_cons.mp h with ⟨hp, hpairs⟩
    rcases hps p List.mem_cons_self with ⟨hp1, hp2⟩
    refine ⟨hfrom p List.mem_cons_self, hp1, ih ?_ hp2 ?_ hpairs⟩
    · intro q hq
      exact (hp q hq).1
    · intro q hq
      exact hps q (List.mem_cons_of_mem p hq)

/-- Written into a text of which everything up to its end is still there, an edit takes the place
of its stretch. -/
theorem write_take_append {cs rest : List Char} {p : PlacedEdit} (hle : p.start ≤ p.stop)
    (hlen : p.stop ≤ cs.length) :
    p.write (cs.take p.stop ++ rest) = cs.take p.start ++ (p.edit.text.toList ++ rest) := by
  have htake : (cs.take p.stop ++ rest).take p.start = cs.take p.start := by
    rw [List.take_append_of_le_length (by simp; omega), List.take_take, Nat.min_eq_left hle]
  have hdrop : (cs.take p.stop ++ rest).drop p.stop = rest := by
    apply List.drop_left'
    simp [hlen]
  rw [write, htake, hdrop, List.append_assoc]

/-- The text before the first edit stays, and the rest is spliced; on the way every place that is
written at lies in the text that it is written into. -/
theorem foldr_write {cs : List Char} {from_ : Nat} {ps : List PlacedEdit}
    (h : Lined cs.length from_ ps) :
    ∃ rest, ps.foldr write cs = cs.take from_ ++ rest ∧
      Spliced (byteLength (cs.take from_)) (ps.map (toBytes cs)) (cs.drop from_) rest ∧
      ByteEdit.writeBack (ps.map (toBytes cs)) cs = some (ps.foldr write cs) := by
  induction ps generalizing from_ with
  | nil => exact ⟨cs.drop from_, by simp, .rest _ _, rfl⟩
  | cons p ps ih =>
    rcases h with ⟨h1, h2, h3⟩
    rcases ih h3 with ⟨rest, hfold, hspliced, hback⟩
    -- the text so far, cut at the ends of `p`
    let gap := (cs.take p.start).drop from_
    let old := (cs.take p.stop).drop p.start
    have hstop : cs.take p.stop = cs.take p.start ++ old := take_eq_append cs h2
    have hstart : cs.take p.start = cs.take from_ ++ gap := take_eq_append cs h1
    have hdrop : cs.drop from_ = gap ++ (old ++ cs.drop p.stop) := by
      have hall := List.take_append_drop p.stop cs
      rw [hstop, hstart, List.append_assoc, List.append_assoc] at hall
      have hall' := (List.take_append_drop from_ cs).trans hall.symm
      exact List.append_cancel_left hall'
    have hlen := lined_le_length h3
    have hwrite : (p :: ps).foldr write cs =
        cs.take from_ ++ (gap ++ (p.edit.text.toList ++ rest)) := by
      rw [List.foldr_cons, hfold, write_take_append h2 hlen, hstart, List.append_assoc]
    refine ⟨gap ++ (p.edit.text.toList ++ rest), hwrite, ?_, ?_⟩
    · rw [hdrop, List.map_cons]
      refine .edit ?_ ?_ hspliced
      · rw [toBytes, hstart, byteLength_append]
      · rw [toBytes, hstop, byteLength_append]
    · have hbytes := replaceBytes?_eq (cs.take p.start) old rest p.edit.text.toList
      rw [← byteLength_append, ← hstop] at hbytes
      unfold ByteEdit.writeBack at hback ⊢
      rw [List.map_cons, List.foldrM_cons, hback, hwrite, hfold]
      refine hbytes.trans ?_
      rw [hstart]
      simp

end PlacedEdit

/-! ## The result of a list of edits -/

namespace SourceText

variable {s : SourceText} {es es' : List Edit}

/-- If edits can be applied, each place comes before all later ones. -/
theorem sortedPlaces_before (hes : ∀ e ∈ es, s.Admits e)
    (h : firstNeighbours PlacedEdit.clashes (s.sortedPlaces es) = none) :
    (s.sortedPlaces es).Pairwise fun a b => Before a.span b.span := by
  apply PlacedEdit.neighbour_test.pairwise_before _ h
  intro p hp
  rcases List.mem_map.mp hp with ⟨e, he, rfl⟩
  exact (hes e he).place_le

theorem sortedPlaces_lined (hes : ∀ e ∈ es, s.Admits e)
    (h : firstNeighbours PlacedEdit.clashes (s.sortedPlaces es) = none) :
    PlacedEdit.Lined s.chars.length 0 (s.sortedPlaces es) := by
  apply PlacedEdit.lined_of_pairwise _ (Nat.zero_le _) _ (sortedPlaces_before hes h)
  · exact fun _ _ => Nat.zero_le _
  · intro p hp
    rcases mem_sortedPlaces.mp hp with ⟨e, he, rfl⟩
    exact ⟨(hes e he).place_le, (hes e he).stop_le_length⟩

/-- Places that come one before the other have only one order. -/
theorem sortedPlaces_perm (hes : ∀ e ∈ es, s.Admits e)
    (h : firstNeighbours PlacedEdit.clashes (s.sortedPlaces es) = none) (hperm : es'.Perm es) :
    s.sortedPlaces es' = s.sortedPlaces es := by
  have hbefore := sortedPlaces_before hes h
  have hplaces : (s.sortedPlaces es').Perm (s.sortedPlaces es) :=
    (List.mergeSort_perm _ _).trans ((hperm.map _).trans (List.mergeSort_perm _ _).symm)
  refine hplaces.eq_of_pairwise ?_ (PlacedEdit.neighbour_test.sorted (es'.map s.placeOf))
    (PlacedEdit.neighbour_test.sorted (es.map s.placeOf))
  intro p q hp hq hpq hqp
  -- two edits that may each come first have one span, and no span is apart from itself
  by_contra hne
  rcases mem_sortedPlaces.mp (hplaces.mem_iff.mp hp) with ⟨e, he, rfl⟩
  rcases mem_sortedPlaces.mp hq with ⟨e', he', rfl⟩
  have hle := (hes e he).place_le
  have hle' := (hes e' he').place_le
  have hsame : (s.placeOf e).span = (s.placeOf e').span := by
    unfold InOrder PlacedEdit.span at *
    simp only [Prod.mk.injEq]
    omega
  have hsymm : Std.Symm fun a b : PlacedEdit => Apart a.span b.span := ⟨fun _ _ => apart_symm⟩
  have hapart := (hbefore.imp before_apart).forall (hplaces.mem_iff.mp hp) hq hne
  rw [← hsame] at hapart
  exact not_apart_self hle hapart

theorem byteEdit?_of_admits {e : Edit} (h : s.Admits e) :
    s.byteEdit? e = some ((s.placeOf e).toBytes s.chars) := by
  have hstart := (offset?_eq_some_iff s e.range.start _).mpr ⟨_, h.start_eq, rfl⟩
  have hstop := (offset?_eq_some_iff s e.range.stop _).mpr ⟨_, h.stop_eq, rfl⟩
  rw [byteEdit?, hstart, hstop]
  rfl

theorem mapM_byteEdit? (hes : ∀ e ∈ es, s.Admits e) :
    es.mapM s.byteEdit? = some (es.map fun e => (s.placeOf e).toBytes s.chars) := by
  induction es with
  | nil => rfl
  | cons e es ih =>
    rw [List.forall_mem_cons] at hes
    rw [List.mapM_cons, byteEdit?_of_admits hes.1, ih hes.2]
    rfl

/-- Sorting by bytes is sorting by characters. -/
theorem map_toBytes_sortedPlaces (hes : ∀ e ∈ es, s.Admits e) :
    (s.sortedPlaces es).map (PlacedEdit.toBytes s.chars) =
      (es.map fun e => (s.placeOf e).toBytes s.chars).mergeSort ByteEdit.startsFirst := by
  have hmap : es.map (fun e => (s.placeOf e).toBytes s.chars) =
      (es.map s.placeOf).map (PlacedEdit.toBytes s.chars) := by
    rw [List.map_map]
    rfl
  rw [hmap, sortedPlaces]
  apply List.map_mergeSort
  intro p hp q hq
  rcases List.mem_map.mp hp with ⟨e, he, rfl⟩
  rcases List.mem_map.mp hq with ⟨e', he', rfl⟩
  -- counting bytes keeps the order of the characters, so both sorts compare alike
  have hstart := index?_le_length (hes e he).start_eq
  have hstart' := index?_le_length (hes e' he').start_eq
  have hlt := byteLength_take_lt_iff hstart hstart'
  have hgt := byteLength_take_lt_iff hstart' hstart
  have hstop := byteLength_take_lt_iff (hes e' he').stop_le_length (hes e he).stop_le_length
  rw [Bool.eq_iff_iff, PlacedEdit.startsFirst_iff, ByteEdit.startsFirst_iff]
  simp only [InOrder, PlacedEdit.span, PlacedEdit.toBytes]
  omega

end SourceText

/-- Edits that can be applied give the original text with their texts spliced in at their offsets,
in any order in which they are given; writing them from the last to the first never leaves the
text and never cuts a character. -/
theorem applyEdits_splices {text t : String} {edits : List Edit}
    (h : applyEdits text edits = .ok t) :
    ∃ places, edits.mapM (SourceText.ofString text).byteEdit? = some places ∧
      Spliced 0 (places.mergeSort ByteEdit.startsFirst) text.toList t.toList ∧
      ByteEdit.writeBack (places.mergeSort ByteEdit.startsFirst) text.toList = some t.toList ∧
      ∀ edits', edits'.Perm edits → applyEdits text edits' = .ok t := by
  rcases map_ok_iff.mp h with ⟨written, hwritten, rfl⟩
  rcases apply_eq_ok_iff.mp hwritten with ⟨hes, hclash, rfl⟩
  rcases PlacedEdit.foldr_write (sortedPlaces_lined hes hclash) with ⟨rest, hfold, hspliced, hback⟩
  rw [map_toBytes_sortedPlaces hes] at hspliced hback
  rw [List.take_zero, List.nil_append] at hfold
  simp only [SourceText.text, hfold, String.toList_ofList] at hback ⊢
  refine ⟨_, mapM_byteEdit? hes, hspliced, hback, ?_⟩
  intro edits' hperm
  have hes' : ∀ e ∈ edits', (SourceText.ofString text).Admits e :=
    fun e he => hes e (hperm.mem_iff.mp he)
  have hsame := sortedPlaces_perm hes hclash hperm
  refine map_ok_iff.mpr ⟨_, apply_eq_ok_iff.mpr ⟨hes', ?_, rfl⟩, ?_⟩
  · rw [hsame, hclash]
  · rw [hsame, hfold]
    rfl

/-- An insertion and a replacement that start together, given in the wrong order, beside a
character of two bytes. -/
theorem applyEdits_splices_insertion_first :
    let edits : List Edit :=
      [.replace ⟨⟨1, 2⟩, ⟨2, 1⟩⟩ "-", .insert ⟨1, 2⟩ "(", .remove ⟨⟨2, 1⟩, ⟨2, 2⟩⟩]
    applyEdits "éa\nb!" edits = .ok "é(-!" ∧
      applyEdits "éa\nb!" edits.reverse = .ok "é(-!" := by
  let s := SourceText.ofString "éa\nb!"
  have hplaces : s.placeAll [.insert ⟨1, 2⟩ "(", .replace ⟨⟨1, 2⟩, ⟨2, 1⟩⟩ "-",
      .remove ⟨⟨2, 1⟩, ⟨2, 2⟩⟩] = .ok [⟨1, 1, _⟩, ⟨1, 3, _⟩, ⟨3, 4, _⟩] := rfl
  have h : applyEdits "éa\nb!" [.insert ⟨1, 2⟩ "(", .replace ⟨⟨1, 2⟩, ⟨2, 1⟩⟩ "-",
      .remove ⟨⟨2, 1⟩, ⟨2, 2⟩⟩] = .ok "é(-!" := by
    rw [applyEdits, apply_of_sorted hplaces (by decide)]
    rfl
  rcases applyEdits_splices h with ⟨places, -, -, -, hperm⟩
  exact ⟨hperm _ (List.Perm.swap _ _ _),
    hperm _ ((List.reverse_perm _).trans (List.Perm.swap _ _ _))⟩

end Terse
