/-
# Positions in a text, counted in bytes

Positions count the bytes of the UTF-8 form. A position is a boundary when
it falls between two characters or at an end; only boundaries can delimit a
part of a text.

Key definitions: `size`, `cut`, `isBoundary`, `slice?`, `substitute`.
Key theorems: `cut_append`, `size_append`.
-/
namespace Compositor.Text

/-- The number of bytes of a text. -/
def size : List Char → Nat
  | [] => 0
  | c :: s => c.utf8Size + size s

theorem size_append (s t : List Char) : size (s ++ t) = size s + size t := by
  induction s with
  | nil => simp [size]
  | cons c s ih => simp [size, ih, Nat.add_assoc]

/-- The text cut after its longest beginning of at most `n` bytes. -/
def cut : List Char → Nat → List Char × List Char
  | [], _ => ([], [])
  | c :: s, n =>
    if c.utf8Size ≤ n then
      let (before, after) := cut s (n - c.utf8Size)
      (c :: before, after)
    else ([], c :: s)

/-- A cut loses nothing. -/
theorem cut_append (s : List Char) (n : Nat) : (cut s n).1 ++ (cut s n).2 = s := by
  induction s generalizing n with
  | nil => rfl
  | cons c s ih =>
    unfold cut
    split
    · simpa using ih _
    · rfl

/-- Is position `n` between two characters of the text, or at an end of it? -/
def isBoundary (s : List Char) (n : Nat) : Bool := size (cut s n).1 == n

/-- The part of the text from `start` to `stop`, if both are boundaries and
in order. -/
def slice? (s : List Char) (start stop : Nat) : Option (List Char) :=
  if start ≤ stop && isBoundary s start && isBoundary s stop then
    some (cut (cut s start).2 (stop - start)).1
  else none

/-- The text with its part from `start` to `stop` replaced by `new`. -/
def substitute (s : List Char) (start stop : Nat) (new : List Char) : List Char :=
  (cut s start).1 ++ new ++ (cut s stop).2

end Compositor.Text
