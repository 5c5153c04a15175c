import QScope.CharacterClasses

/-! # Texts as lists of code points: trimming, lines, joining, numbers -/
namespace QScope

abbrev Text := List Char

namespace Texts

def trimLeft (t : Text) : Text := t.dropWhile CharacterClasses.isBlank

def trimRight (t : Text) : Text := (trimLeft t.reverse).reverse

def trim (t : Text) : Text := trimRight (trimLeft t)

/-- The text up to its first newline. -/
def firstLine (t : Text) : Text := t.takeWhile (· != '\n')

/-- The lines of a text, each with the newline that ends it. -/
def lines : Text → List Text
  | [] => []
  | c :: t =>
    if c = '\n' then [c] :: lines t
    else match lines t with
      | [] => [[c]]
      | l :: ls => (c :: l) :: ls

theorem flatten_lines (t : Text) : (lines t).flatten = t := by
  fun_induction lines t with
  | case1 => rfl
  | case2 t ih => simp [ih]
  | case3 c t hc hl ih => simp_all
  | case4 c t hc l ls hl ih => simp_all

theorem isPrefix_trimRight (t : Text) : trimRight t <+: t := by
  have h := List.reverse_prefix.mpr (List.dropWhile_suffix CharacterClasses.isBlank (l := t.reverse))
  simpa [trimRight,trimLeft] using h

theorem isPrefix_firstLine (t : Text) : firstLine t <+: t := List.takeWhile_prefix _

/-- The parts between the occurrences of a separator, empty ones included. -/
def split (separator : Char) : Text → List Text
  | [] => [[]]
  | c :: t =>
    if c = separator then [] :: split separator t
    else match split separator t with
      | [] => [[c]]
      | part :: parts => (c :: part) :: parts

def join (separator : Text) (parts : List Text) : Text := separator.intercalate parts

def words (parts : List Text) : Text := join [' '] parts

def decimal (n : Nat) : Text := Nat.toDigits 10 n

def integer : Int → Text
  | .ofNat n => decimal n
  | .negSucc n => '-' :: decimal (n + 1)

/-- The number of bytes that encode a text. -/
def bytes (t : Text) : Nat := t.foldl (fun n c => n + c.utf8Size) 0

/-- The number that hexadecimal digits denote. -/
def hexValue (digits : Text) : Nat :=
  digits.foldl (fun n c => 16 * n + (if c.isDigit then c.toNat - '0'.toNat
    else if 'a' ≤ c then c.toNat - 'a'.toNat + 10 else c.toNat - 'A'.toNat + 10)) 0

/-- A number set flush right in a column of the given width; a longer one keeps all its digits. -/
def flushRight (width : Nat) (t : Text) : Text := List.replicate (width - t.length) ' ' ++ t

end Texts
end QScope
