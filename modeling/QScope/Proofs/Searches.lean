import QScope.Editing
import QScope.Proofs.BindingLookup

/-! # Searches: what is found of a binding, and at a position -/
namespace QScope.Resolution

/-- What a search takes of the occurrences of a binding. -/
def Search.keeps (search : Search) (t : AnnotatedToken) : Bool :=
  search != .definition || t.defines

theorem filter_keeps (search : Search) (hs : search ≠ .definition) (ts : List AnnotatedToken) :
    ts.filter search.keeps = ts :=
  List.filter_eq_self.mpr fun t _ => by simp [Search.keeps,hs]

/-- A token is bound to what some token defines. -/
theorem exists_defines {ts : List AnnotatedToken} {t : AnnotatedToken} {binding : Binding}
    (hb : (Bindings.ofTokens ts).resolve t = some binding) :
    ∃ u ∈ ts, u.defines = true ∧ (Bindings.ofTokens ts).resolve u = some binding := by
  cases binding with
  | inLambda brace name =>
    have hm := (Bindings.resolve_eq_inLambda.mp hb).2.2
    obtain ⟨u,hu,hd,-,hk⟩ := Bindings.mem_locals.mp hm
    exact ⟨u,hu,hd,Bindings.resolve_eq_inLambda.mpr ⟨isIdentifier_of_defines hd,hk,hm⟩⟩
  | inNamespace name =>
    have hm := (Bindings.resolve_eq_inNamespace.mp hb).2.2.2
    obtain ⟨u,hu,hd,hl,hc⟩ := Bindings.mem_globals.mp hm
    exact ⟨u,hu,hd,Bindings.resolve_eq_inNamespace.mpr ⟨isIdentifier_of_defines hd,hl,hc,hm⟩⟩

end QScope.Resolution

namespace QScope.Editing
open Resolution

/-- The occurrences of a binding. -/
def occurrences (tokens : List AnnotatedToken) (target : Binding) : List AnnotatedToken :=
  tokens.filter fun x => (Bindings.ofTokens tokens).resolve x == some target

section
variable {tokens : List AnnotatedToken} {t : AnnotatedToken} {binding : Binding} {search : Search}
  {p : Position}

theorem mem_of_cursorToken (h : cursorToken tokens p = some t) : t ∈ tokens := by
  rcases Option.or_eq_some_iff.mp h with h | ⟨-,h⟩
  · exact List.mem_of_find?_eq_some h
  · exact List.mem_of_find?_eq_some h

theorem mem_occurrences : t ∈ occurrences tokens binding ↔
    t ∈ tokens ∧ (Bindings.ofTokens tokens).resolve t = some binding := by
  rw [occurrences,List.mem_filter,beq_iff_eq]

theorem find_of_resolve (hs : search ≠ .completion)
    (hb : (Bindings.ofTokens tokens).resolve t = some binding) :
    find search tokens t = (occurrences tokens binding).filter search.keeps := by
  rw [find,if_pos (Bindings.isIdentifier_of_resolve hb)]
  cases search with
  | definition => simp only [hb]; rfl
  | reference => simp only [hb]; exact (filter_keeps .reference nofun _).symm
  | rename => simp only [hb]; exact (filter_keeps .rename nofun _).symm
  | completion => exact absurd rfl hs

theorem find_of_resolve_eq_none (hs : search ≠ .completion)
    (hb : (Bindings.ofTokens tokens).resolve t = none) : find search tokens t = [] := by
  cases hi : t.isIdentifier with
  | false => rw [find,hi,if_neg nofun]
  | true =>
    rw [find,if_pos hi]
    cases search with
    | completion => exact absurd rfl hs
    | _ => simp only [hb]

/-- The binding of the token under the cursor. -/
def cursorBinding (tokens : List AnnotatedToken) (p : Position) : Option Binding :=
  (cursorToken tokens p).bind (Bindings.ofTokens tokens).resolve

/-- What is found at a position are occurrences of the binding there. -/
theorem found_eq (hs : search ≠ .completion) : found search tokens p =
    ((cursorBinding tokens p).elim [] (occurrences tokens)).filter search.keeps := by
  rw [found,cursorBinding]
  cases hc : cursorToken tokens p with
  | none => rfl
  | some t =>
    rw [Option.bind_some]
    cases hb : (Bindings.ofTokens tokens).resolve t with
    | none => exact find_of_resolve_eq_none hs hb
    | some binding => exact find_of_resolve hs hb

end

end QScope.Editing
