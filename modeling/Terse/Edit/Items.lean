import Terse.Edit.Basic

/-!
# Removing items of a sequence

Edits that take flagged items out of a sequence with separators. A run of flagged items goes with
the separators behind its items; a run at the end goes with the separators before them.
-/

namespace Terse

/-- The edits for the items still to come. `kept` is the last item that stays, and `run` holds the
first and the last item of the run of flagged items just before them. -/
def removeItemsFrom (kept : Option Range) (run : Option (Range × Range)) :
    List (Range × Bool) → List Edit
  | [] =>
    match kept, run with
    | some k, some (_, last) => [.remove ⟨k.stop, last.stop⟩]
    | _, _ => []
  | (r, true) :: rest => removeItemsFrom kept (some ((run.map (·.1)).getD r, r)) rest
  | (r, false) :: rest =>
    match run with
    | some (first, _) => .remove ⟨first.start, r.start⟩ :: removeItemsFrom (some r) none rest
    | none => removeItemsFrom (some r) none rest

/-- The edits that take the flagged items out. At least one item must stay. -/
def removeItems (items : List (Range × Bool)) : List Edit := removeItemsFrom none none items

end Terse
