import Mathlib.Data.List.Induction

/-! # Lines of text

A text is a list of characters. `lines` cuts it behind every newline and leaves out the
line endings; `unlines` puts a newline behind every line. The lines of `unlines` are the
lines it was made of, up to a carriage return at their end (`lines_unlines`).
-/

namespace Foundation

abbrev Text := List Char

/-- The pieces up to and with each newline. -/
def splitInclusive : Text → List Text
  | [] => []
  | c :: text =>
      if c = '\n' then [c] :: splitInclusive text
      else
        match splitInclusive text with
        | [] => [[c]]
        | piece :: pieces => (c :: piece) :: pieces

def stripCr (line : Text) : Text := if line.getLast? = some '\r' then line.dropLast else line

/-- A piece without its line ending. -/
def chomp (piece : Text) : Text :=
  if piece.getLast? = some '\n' then stripCr piece.dropLast else piece

def lines (text : Text) : List Text := (splitInclusive text).map chomp

def unlines (list : List Text) : Text := list.flatMap fun line => line ++ ['\n']

/-- The characters of Unicode's `White_Space`. -/
def isWhitespace (c : Char) : Bool :=
  (0x9 ≤ c.val && c.val ≤ 0xd) || (0x2000 ≤ c.val && c.val ≤ 0x200a) ||
    [0x20, 0x85, 0xa0, 0x1680, 0x2028, 0x2029, 0x202f, 0x205f, 0x3000].contains c.val

/-- Without white space on both ends. -/
def trim (text : Text) : Text :=
  ((text.dropWhile isWhitespace).reverse.dropWhile isWhitespace).reverse

section

variable {line text : Text} {list : List Text}

theorem splitInclusive_line (single : '\n' ∉ line) :
    splitInclusive (line ++ '\n' :: text) = (line ++ ['\n']) :: splitInclusive text := by
  induction line with
  | nil => simp [splitInclusive]
  | cons c line ih =>
      rw [List.mem_cons, not_or] at single
      rw [List.cons_append, splitInclusive, if_neg (Ne.symm single.1), ih single.2]
      rfl

theorem chomp_line (line : Text) : chomp (line ++ ['\n']) = stripCr line := by
  rw [chomp, List.getLast?_concat, if_pos rfl, List.dropLast_concat]

theorem lines_unlines (single : ∀ line ∈ list, '\n' ∉ line) :
    lines (unlines list) = list.map stripCr := by
  induction list with
  | nil => rfl
  | cons line list ih =>
      have first : unlines (line :: list) = line ++ '\n' :: unlines list := by
        simp [unlines]
      rw [first, lines, splitInclusive_line (single line List.mem_cons_self), List.map_cons,
        chomp_line, List.map_cons]
      exact congrArg _ (ih fun other inside => single other (List.mem_cons_of_mem _ inside))

/-- Joining lines by newlines and adding one more is ending each line by a newline. -/
theorem intercalate_newline (list : List Text) (some : list ≠ []) :
    List.intercalate ['\n'] list ++ ['\n'] = unlines list := by
  induction list with
  | nil => exact absurd rfl some
  | cons line list ih =>
      cases list with
      | nil => simp [List.intercalate, unlines]
      | cons second list =>
          have rest := ih (List.cons_ne_nil _ _)
          rw [unlines, List.flatMap_cons, ← unlines, ← rest]
          simp [List.intercalate]

theorem unlines_append (first second : List Text) :
    unlines (first ++ second) = unlines first ++ unlines second := List.flatMap_append

/-- A text of lines ends with a newline, or is empty. -/
theorem unlines_ends (list : List Text) :
    unlines list = [] ∨ (unlines list).getLast? = some '\n' := by
  cases list using List.reverseRecOn with
  | nil => exact .inl rfl
  | append_singleton list line =>
      right
      rw [unlines_append]
      simp [unlines]

theorem trim_eq_self (solid : ∀ c ∈ text, isWhitespace c = false) : trim text = text := by
  have kept : ∀ {other : Text}, (∀ c ∈ other, isWhitespace c = false) →
      other.dropWhile isWhitespace = other := by
    intro other solid
    cases other with
    | nil => rfl
    | cons c other => rw [List.dropWhile_cons_of_neg (by simp [solid c List.mem_cons_self])]
  rw [trim, kept solid, kept (fun c inside => solid c (List.mem_reverse.mp inside)),
    List.reverse_reverse]

end

end Foundation
