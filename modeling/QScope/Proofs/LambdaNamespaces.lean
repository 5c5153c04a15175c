import QScope.Proofs.LambdaScopes
import QScope.Proofs.ParsedTokens
import QScope.Proofs.QualifiedNames
import QScope.Proofs.Respelling

/-! # Lambda namespaces: a lambda stays in the namespace that its brace stands in

Inside a lambda a call switches nothing, and a command would open a statement and so leave it. -/
namespace QScope

namespace Lexing
open Texts

/-! Commands open statements -/

/-- A command stands at the left margin. -/
theorem startsStatement_of_command {file t : Text} {token : Token} (h : token ∈ tokenize file t)
    (hk : token.kind = .command) : token.startsStatement = true := by
  obtain ⟨as,bs,hls,hstart,-⟩ := locate_eq_of_mem h
  obtain ⟨c,x,r,-,-,-,hlex⟩ := exists_of_lexemes_eq hls
  have hp := (form_of_command (by rw [hlex,hk])).1
  rw [Token.startsStatement,hstart,Position.origin_advance,behindLast_of_getLastD hp,hk]
  rfl

end Lexing

namespace BracketLayout

section
variable {s : Layout} {t : Token}

theorem Layout.enter_ns (s : Layout) (t : Token) : (s.enter t).ns = s.ns := by
  rw [enter]
  split <;> rfl

theorem Layout.move_ns (s : Layout) (i : Nat) (t : Token) (following : Option Token) :
    (s.move i t following).ns = Namespaces.after s.ns (!s.outer.isEmpty) t following := by
  obtain ⟨hk,hm⟩ | ⟨hk,-,hm⟩ | ⟨hk,f,fs,-,hm⟩ | ⟨-,-,hm⟩ := s.move_cases i t following
  · simp only [hm,Namespaces.after,hk]
  · simp only [hm,Namespaces.after,hk]
  · simp only [hm,Namespaces.after,hk]
  · rw [hm]

theorem Layout.move_ns_inLambda (hk : t.kind ≠ .command) (ho : s.outer ≠ []) (i : Nat)
    (following : Option Token) : (s.move i t following).ns = s.ns := by
  rw [move_ns,List.isEmpty_eq_false_iff.mpr ho]
  exact Namespaces.after_inLambda s.ns hk following

end

section
variable {ns : Option Text} {tokens : List Token} {i j : Nat}

/-- From the brace of a lambda on, the namespace is the same up to every token in the lambda. -/
theorem reached_ns_of_enclosing
    (hc : ∀ t ∈ tokens, t.kind = .command → t.startsStatement = true)
    (hi : i < tokens.length) (hj : j ∈ enclosing tokens i) :
    (reached 0 (.start ns) tokens i).ns = (reached 0 (.start ns) tokens (j + 1)).ns := by
  have hin := ((braces_enclosing hi).mem j).mp hj
  have hrun : ∀ k, j + 1 ≤ k → k ≤ i →
      (reached 0 (.start ns) tokens k).ns = (reached 0 (.start ns) tokens (j + 1)).ns := by
    intro k hk
    induction k,hk using Nat.le_induction with
    | base => exact fun _ => rfl
    | succ k hjk ih =>
      intro hki
      have ht : tokens[k]? = some tokens[k] := List.getElem?_eq_getElem (by omega)
      have hs := hin.unbroken k _ hjk (by omega) ht
      have hk : tokens[k].kind ≠ .command := fun hk => by
        rw [hc _ (List.mem_of_getElem? ht) hk] at hs
        cases hs
      have hmem := mem_enclosing_of_le hi hj hjk (by omega)
      have ho : ((reached 0 (.start ns) tokens k).enter tokens[k]).outer ≠ [] := fun ho => by
        rw [(nested_reached ns ht).eq_nil ho] at hmem
        cases hmem
      rw [reached_succ ht,Layout.move_ns_inLambda hk ho,Layout.enter_ns,ih (by omega)]
  exact hrun i hin.before (Nat.le_refl i)

end

end BracketLayout

/-! The namespace that a token carries itself, and the one that it finds -/

namespace Namespaces
variable {t : Token}

theorem ofToken_of_undotted (h : t.image.head? ≠ some '.') (ns : Option Text) :
    ofToken ns t = ns :=
  if_neg fun hd => h hd.2

/-- A name with a dot in front and no other carries the root namespace. -/
theorem ofToken_of_dotted (hk : t.kind = .identifier) (hd : t.image.head? = some '.')
    (hq : DottedNames.isQualified t.image = false) (ns : Option Text) : ofToken ns t = none := by
  rw [ofToken,if_pos ⟨hk,hd⟩,DottedNames.split_of_not_isQualified hq]

end Namespaces

namespace Annotating
open BracketLayout

theorem ns_annotateIn {ns : Option Text} {tokens : List Token} {i : Nat} {a : AnnotatedToken}
    (ha : (annotateIn ns tokens)[i]? = some a) :
    a.ns = Namespaces.ofToken (reached 0 (.start ns) tokens i).ns a.toToken := by
  rw [getElem?_annotateIn] at ha
  obtain ⟨u,-,rfl⟩ := Option.map_eq_some_iff.mp ha
  rw [← Layout.enter_ns _ u]
  rfl

theorem ns_of_parse {file t : Text} {a : AnnotatedToken} (ha : a ∈ parse file t) :
    ∃ ns, a.ns = Namespaces.ofToken ns a.toToken := by
  obtain ⟨i,hi⟩ := List.mem_iff_getElem?.mp ha
  exact ⟨_,ns_annotateIn hi⟩

/-- The tokens of a lambda are in one namespace, but for those that carry one themselves. -/
theorem ns_of_scope {file t : Text} {a b : AnnotatedToken} {brace : Nat} (ha : a ∈ parse file t)
    (hb : b ∈ parse file t) (hsa : a.scope = some brace) (hsb : b.scope = some brace) :
    ∃ ns, a.ns = Namespaces.ofToken ns a.toToken ∧ b.ns = Namespaces.ofToken ns b.toToken := by
  have hns : ∀ {a : AnnotatedToken}, a ∈ parse file t → a.scope = some brace →
      a.ns = Namespaces.ofToken
        (reached 0 (.start none) (Lexing.tokenize file t) (brace + 1)).ns a.toToken := by
    intro a ha hs
    obtain ⟨i,hi⟩ := List.mem_iff_getElem?.mp ha
    have hlt := (List.getElem?_eq_some_iff.mp hi).1
    rw [parse,annotate,length_annotateIn] at hlt
    have hmem := mem_enclosing_of_scope (List.getElem?_eq_getElem hlt) hi hs
    rw [← reached_ns_of_enclosing (fun _ => Lexing.startsStatement_of_command) hlt hmem]
    exact ns_annotateIn hi
  exact ⟨_,hns ha hsa,hns hb hsb⟩

end Annotating
end QScope
