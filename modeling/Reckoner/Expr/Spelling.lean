import Reckoner.Expr.Infix
import Reckoner.Expr.Normal

/-!
# Spelling — expressions as people type them

A text spells a tree in three steps, each a relation of its own: tokens write the tree (`Writes`),
a text spells the tokens (`Spells`), and from that text multiplication signs may be left out
wherever the neighbours say enough (`Omits`). Blanks may stand anywhere.
-/

namespace Reckoner.Expr

/-- A literal without sign: one digit, or two with a point between them, or one with a point before
or after it. -/
inductive IsLiteral : List Char → Prop where
  | whole {d : Char} : d.isDigit = true → IsLiteral [d]
  | wholePoint {d : Char} : d.isDigit = true → IsLiteral [d, '.']
  | fraction {d : Char} : d.isDigit = true → IsLiteral ['.', d]
  | wholeFraction {d e : Char} : d.isDigit = true → e.isDigit = true → IsLiteral [d, '.', e]

/-- Where a literal may have a minus: at the start, after an opening parenthesis, and after any
operator but a minus. -/
def admitsSign : Option Char → Bool
  | none => true
  | some c => c == '(' || c == '+' || c == '*' || c == '/' || c == '^'

/-- `Spells read previous ts cs`: after the character `previous`, the characters `cs` spell the
tokens `ts`, where `read` tells the values of literals. -/
inductive Spells {α : Type} (read : List Char → Option α) :
    Option Char → List (Token α) → List Char → Prop where
  | nil (previous : Option Char) : Spells read previous [] []
  | literal (previous : Option Char) {literal cs : List Char} {value : α} {ts : List (Token α)} :
    IsLiteral literal → read literal = some value → Spells read literal.getLast? ts cs →
      Spells read previous (.number (String.ofList literal) value :: ts) (literal ++ cs)
  | negative {previous : Option Char} {literal cs : List Char} {value : α} {ts : List (Token α)} :
    admitsSign previous = true → IsLiteral literal → read ('-' :: literal) = some value →
      Spells read literal.getLast? ts cs →
      Spells read previous (.number (String.ofList ('-' :: literal)) value :: ts)
        ('-' :: (literal ++ cs))
  | operator (previous : Option Char) (op : Operator) {cs : List Char} {ts : List (Token α)} :
    Spells read (some op.symbol) ts cs → Spells read previous (.operator op :: ts) (op.symbol :: cs)
  | leftParen (previous : Option Char) {cs : List Char} {ts : List (Token α)} :
    Spells read (some '(') ts cs → Spells read previous (.leftParen :: ts) ('(' :: cs)
  | rightParen (previous : Option Char) {cs : List Char} {ts : List (Token α)} :
    Spells read (some ')') ts cs → Spells read previous (.rightParen :: ts) (')' :: cs)

/-- `Omits full short`: the second text is the first one without some of the multiplication signs
between neighbours that stand for a product. -/
inductive Omits : List Char → List Char → Prop where
  | nil : Omits [] []
  | keep (c : Char) {full short : List Char} : Omits full short → Omits (c :: full) (c :: short)
  | leave {c d : Char} {full short : List Char} : multiplies c d = true →
    Omits (d :: full) (d :: short) → Omits (c :: '*' :: d :: full) (c :: d :: short)

/-- A text spells a tree. -/
def Tree.SpelledBy {α : Type} (read : List Char → Option α) (t : Tree α) (cs : List Char) : Prop :=
  ∃ ts full, Writes 0 t ts ∧ Spells read none ts full ∧ Omits full (compact cs)

theorem Omits.refl (cs : List Char) : Omits cs cs := by
  induction cs with
  | nil => exact .nil
  | cons c cs ih => exact .keep c ih

-- Leaving out signs changes nothing of the text with its products written out.
theorem Omits.writeProducts_eq {full short : List Char} (h : Omits full short) :
    writeProducts full = writeProducts short ∧ full.head? = short.head? := by
  induction h with
  | nil => exact ⟨rfl, rfl⟩
  | keep c _ ih => exact ⟨congrArg (prependFactor c) ih.1, rfl⟩
  | @leave c d full short product _ ih =>
    refine ⟨?_, rfl⟩
    have head (cs : List Char) : ∃ rest, writeProducts (d :: cs) = d :: rest := by
      show ∃ rest, prependFactor d (writeProducts cs) = d :: rest
      cases writeProducts cs with
      | nil => exact ⟨[], rfl⟩
      | cons e rest => simp only [prependFactor]; split <;> exact ⟨_, rfl⟩
    obtain ⟨rest, shape⟩ := head short
    show prependFactor c (prependFactor '*' (writeProducts (d :: full))) =
      prependFactor c (writeProducts (d :: short))
    rw [ih.1, shape]
    simp [prependFactor, product, multiplies_star, star_multiplies]

end Reckoner.Expr
