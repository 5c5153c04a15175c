import QScope.Editing
import QScope.Proofs.EquivalentTokens

/-! # File names: a text has the same tokens and findings whatever its file is called -/
namespace QScope

/-- A token in a file of another name. -/
def Token.inFile (file : Text) (t : Token) : Token := {t with span := {t.span with file}}

def AnnotatedToken.inFile (file : Text) (t : AnnotatedToken) : AnnotatedToken :=
  {t with span := {t.span with file}}

namespace Lexing

theorem locate_inFile (file other : Text) (i : Nat) (p : Position) (ls : List Lexeme) :
    locate other i p ls = (locate file i p ls).map (Token.inFile other) := by
  induction ls generalizing i p with
  | nil => rfl
  | cons l ls ih =>
    rw [locate,locate]
    cases l.shape with
    | token kind error => rw [List.map_cons,ih]; rfl
    | blank | lineComment | blockComment | scriptEnd => exact ih i _

theorem tokenize_inFile (file other t : Text) :
    tokenize other t = (tokenize file t).map (Token.inFile other) :=
  locate_inFile file other 0 .origin _

end Lexing

namespace Annotating

theorem annotateIn_inFile (file : Text) (ns : Option Text) (ts : List Token) :
    annotateIn ns (ts.map (Token.inFile file)) =
      (annotateIn ns ts).map (AnnotatedToken.inFile file) := by
  have h : List.Forall₂ Token.Equivalent ts (ts.map (Token.inFile file)) := by
    rw [List.forall₂_map_right_iff]
    exact List.forall₂_same.mpr fun t _ => ⟨rfl,rfl,fun _ => rfl⟩
  apply List.ext_getElem?
  intro k
  rw [List.getElem?_map,getElem?_annotateIn,getElem?_annotateIn,List.getElem?_map,
    Assignments.assignments_equivalent h,BracketLayout.reached_equivalent h]
  cases ts[k]? <;> rfl

theorem parse_inFile (file other t : Text) :
    parse other t = (parse file t).map (AnnotatedToken.inFile other) := by
  rw [parse,Lexing.tokenize_inFile file,annotate,annotateIn_inFile]
  rfl

end Annotating

namespace Linting

theorem followed_map {α β : Type} (f : α → β) (l : List α) :
    followed (l.map f) = (followed l).map (Prod.map f (Option.map f)) := by
  induction l with
  | nil => rfl
  | cons a l ih => rw [List.map_cons,followed,ih,followed,List.map_cons,List.head?_map]; rfl

variable (file : Text) (tokens : List AnnotatedToken)

def Finding.inFile (f : Finding) : Finding := ⟨f.token.inFile file,f.problem⟩

theorem usage?_inFile (t : AnnotatedToken) :
    usage? (tokens.map (·.inFile file)) (t.inFile file) = usage? tokens t := by
  have hkey : ∀ u : AnnotatedToken, usageKey? (u.inFile file) = usageKey? u := fun _ => rfl
  have hdefines : ∀ u : AnnotatedToken, definesLocal (u.inFile file) = definesLocal u :=
    fun _ => rfl
  rw [usage?,usage?,hkey]
  congr 1
  funext key
  simp only [List.filter_map,Function.comp_def,hkey,hdefines]
  generalize tokens.filter _ = uses
  cases uses.filter definesLocal with
  | nil => rfl
  | cons first rest => cases uses.filter (!definesLocal ·) <;> rfl

theorem problems_inFile (t : AnnotatedToken) (following : Option AnnotatedToken) :
    problems (tokens.map (·.inFile file)) (t.inFile file) (following.map (·.inFile file)) =
      problems tokens t following := by
  have hword : reservedWord? (t.inFile file) (following.map (·.inFile file)) =
      reservedWord? t following := by
    rw [reservedWord?,Option.any_map]
    rfl
  rw [problems,hword,usage?_inFile]
  rfl

theorem lint_inFile (disabled : List Text) :
    lint disabled (tokens.map (·.inFile file)) = (lint disabled tokens).map (·.inFile file) := by
  rw [lint,lint,followed_map,List.flatMap_map,List.map_flatMap]
  apply List.flatMap_congr
  rintro ⟨t,following⟩ -
  dsimp only [Prod.map]
  rw [problems_inFile,List.map_map]
  rfl

end Linting

/-- What is published about a document is found in a file of any name with the same text. -/
theorem Editing.notices_inFile (file : Text) (disabled : List Text)
    (tokens : List AnnotatedToken) :
    notices disabled (tokens.map (·.inFile file)) = notices disabled tokens := by
  rw [notices,Linting.lint_inFile,List.map_map]
  rfl

end QScope
