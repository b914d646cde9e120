/-!
# Lines

A text is cut at its newlines into pieces; each piece keeps the newline that ends it, so no
piece is empty and the pieces joined are the text.
-/

namespace DocOutline.Text

/-- The lines with the newline that ends each of them. -/
def pieces : List Char → List (List Char)
  | [] => []
  | c :: cs =>
    if c = '\n' then [c] :: pieces cs
    else match pieces cs with
      | [] => [[c]]
      | piece :: rest => (c :: piece) :: rest

/-- Nothing is lost. -/
theorem flatten_pieces (cs : List Char) : (pieces cs).flatten = cs := by
  induction cs with
  | nil => rfl
  | cons c cs ih =>
    simp only [pieces]
    split
    · simp [ih]
    · split
      · rename_i h
        rw [h] at ih
        simp [← ih]
      · rename_i h
        rw [h] at ih
        simp [← ih]

/-- The lines joined by newlines. -/
def joinLines : List (List Char) → List Char
  | [] => []
  | [line] => line
  | line :: rest => line ++ '\n' :: joinLines rest

/-- `p` holds of the text from one of its newlines on. -/
def afterSomeNewline (p : List Char → Bool) : List Char → Bool
  | [] => false
  | c :: cs => (c == '\n' && p cs) || afterSomeNewline p cs

/-- `p` holds of the text from the start of one of its lines on. -/
def atSomeLine (p : List Char → Bool) (cs : List Char) : Bool :=
  p cs || afterSomeNewline p cs

end DocOutline.Text
