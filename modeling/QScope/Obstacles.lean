import QScope.Texts

/-! # Obstacles: what breaks an operation off, and how large things may be before they do -/
namespace QScope

/-- Why an operation breaks off, although its input has the right form: it meets a directory where
it reads a file, a name that no file can have, or something too large. -/
inductive Obstacle
  | directory | nulCharacter | longName | longInteger | deepNesting | coordinate | repetition
  | memory
deriving DecidableEq

namespace Obstacle

def message : Obstacle → Text
  | directory => "a directory stands in place of a file".toList
  | nulCharacter => "a path holds a NUL character".toList
  | longName => "a path is too long".toList
  | longInteger => "an integer has too many digits".toList
  | deepNesting => "a structure is nested too deep".toList
  | coordinate => "a line or character is out of bounds".toList
  | repetition => "a repetition is too long to be counted".toList
  | memory => "a row is too long to be written".toList

end Obstacle

namespace Limits

/-- The most decimal digits of an integer that is read from a text or shown in one. -/
def integerDigits : Nat := 4300

/-- The most bytes in one name of a path. -/
def nameBytes : Nat := 255

/-- The most bytes in a path. -/
def pathBytes : Nat := 4095

/-- The largest line or character that an editor can name. -/
def coordinate : Int := 2147483647

/-- The largest count of repetitions; the smallest is one below its opposite. -/
def repetition : Int := 9223372036854775807

/-- The most characters that can be repeated within one row. -/
def rowLength : Int := 4294967296

/-- How far the values of a document may nest when they are read. An array takes two steps, an
inline table three, and each value inside one more. -/
def readingSteps : Nat := 988

/-- The most arrays and tables around each other that can be shown. -/
def shownLevels : Nat := 991

/-- The most levels of an outline that an editor is sent. -/
def symbolLevels : Nat := 494

/-- The most levels of an outline that are printed. -/
def printedLevels : Nat := 986

end Limits
end QScope
