import QScope.Utf8

/-! # Uris: which spellings mean the same document -/
namespace QScope.Uris
open CharacterClasses

/-- The characters that a text stands for, behind the beginning of an encoding. -/
def decodeFrom (begun : Option Utf8.Begun) : Text → Text
  | [] => Utf8.cut begun
  | '%' :: a :: b :: t =>
    if isHexDigit a && isHexDigit b then
      let (characters,next) := Utf8.step begun (Texts.hexValue [a,b])
      characters ++ decodeFrom next t
    else Utf8.cut begun ++ '%' :: decodeFrom none (a :: b :: t)
  | c :: t => Utf8.cut begun ++ c :: decodeFrom none t

/-- A percent sign and two hexadecimal digits stand for a byte; all else stands for itself. Two
spellings that decode to one text mean the same document. -/
def decode (uri : Text) : Text := decodeFrom none uri

theorem decode_eq_self (uri : Text) (h : '%' ∉ uri) : decode uri = uri := by
  unfold decode
  induction uri with
  | nil => rfl
  | cons c t ih =>
    simp only [List.mem_cons,not_or] at h
    unfold decodeFrom
    split
    · simp_all
    · simp_all
    · simp_all [Utf8.cut]

end QScope.Uris
