import Terse.Token.Lexeme

/-!
# From text to tokens

A text is cut into lexemes that, put together, give the text back; the tokens among them are then
placed by counting the rows and columns they pass.
-/

namespace Terse

namespace Lexeme

open Token (Kind)

/-- A lexeme with its text. -/
structure Piece where
  kind : Class
  text : List Char
deriving DecidableEq, Repr, Inhabited

/-- Cut a text into lexemes, and say what stopped the cutting before the end. `skip` characters
belong to the lexeme before; `attached` is that lexeme, if it is a token. -/
def cutFrom : Nat → Option Kind → List Char → List Piece × Option Fault
  | _, _, [] => ([], none)
  | skip + 1, attached, _ :: cs => cutFrom skip attached cs
  | 0, attached, c :: cs =>
    match next attached c cs with
    | .error fault => ([], some fault)
    | .ok (kind, n) =>
      let (pieces, fault) := cutFrom n kind.token? cs
      (⟨kind, c :: cs.take n⟩ :: pieces, fault)

/-- Cut a whole text into lexemes. -/
def cut (text : List Char) : List Piece × Option Fault := cutFrom 0 none text

/-- The text that lexemes were cut from. -/
def join (pieces : List Piece) : List Char := pieces.flatMap (·.text)

/-- The tokens among lexemes that start at `here`; the token before them ended on row `row`. -/
def place (here : Location) (row : Option Nat) : List Piece → List Token
  | [] => []
  | p :: ps =>
    let stop := here.afterAll p.text
    match p.kind with
    | .token kind => ⟨kind, ⟨here, stop⟩, row != some stop.row⟩ :: place stop (some stop.row) ps
    | _ => place stop row ps

end Lexeme

namespace Token

/-- The tokens of a text, or where it cannot be cut and why. -/
def scan (text : List Char) : Except (Location × Lexeme.Fault) (List Token) :=
  match Lexeme.cut text with
  | (pieces, none) => .ok (Lexeme.place Location.origin none pieces)
  | (pieces, some fault) => .error (Location.origin.afterAll (Lexeme.join pieces), fault)

end Token

end Terse
