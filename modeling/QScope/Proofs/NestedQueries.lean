import QScope.Proofs.ColumnContexts

/-! # Nested queries: what a query in the brackets of another one does to the columns around it

A query that is nested in the columns of another one makes the layout forget these, also when it
has ended. A name in front of a colon is a column up to there, and is assigned from there on. -/
namespace QScope

namespace BracketLayout
open Assignments (kindAt)

/-- The token at an index stands where the layout knows that colons define columns or parameters
are listed: directly inside a table literal, its keys or a parameter list, or in the column list
that it remembers. -/
def InRememberedColumns (tokens : List Token) (i : Nat) : Prop :=
  (∃ j ∈ level tokens i, OpensTable tokens j ∨ OpensKeys tokens j ∨ OpensParams tokens j) ∨
    ColumnsRemembered tokens (level tokens i) i

section
variable {tokens : List Token} {i r : Nat} {l : Option Nat}

instance : Decidable (InRememberedColumns tokens i) :=
  inferInstanceAs (Decidable ((∃ j ∈ level tokens i, (kindAt tokens j = some .openParen ∧
      kindAt tokens (j + 1) = some .openBracket) ∨
    OpensBehind tokens .openParen j ∨ OpensBehind tokens .openBrace j) ∨
      ColumnsRemembered tokens (level tokens i) i))

/-- A nested query does not stand directly inside what it is nested in. -/
theorem NestedQuery.level_ne (h : NestedQuery tokens l r) : level tokens r ≠ l := by
  obtain ⟨-,j,hj,rfl⟩ := h
  have hopen : j ∈ openBefore tokens r := (List.takeWhile_prefix _).subset hj
  intro he
  cases ho : openBefore tokens r with
  | nil =>
    rw [ho] at hopen
    cases hopen
  | cons k ks =>
    have hk : level tokens r = some k := by rw [level,ho,List.head?_cons]
    have hkj : k < j := lt_of_mem_openBefore (List.mem_of_mem_head? (he.symm.trans hk))
    have hd := openBefore_descending tokens r
    rw [ho] at hd hopen
    rcases List.mem_cons.mp hopen with rfl | hmem
    · exact lt_irrefl j hkj
    · exact lt_asymm hkj ((List.pairwise_cons.mp hd).1 j hmem)

/-- Behind a nested query the columns around it are forgotten, until the next query there. -/
theorem NestedQuery.not_remembered (h : NestedQuery tokens l r) (hri : r < i)
    (hn : ∀ q, q < i → r < q → IsQuery tokens q → level tokens q ≠ l) :
    ¬ColumnsRemembered tokens l i := by
  rintro ⟨q,hq,hquery,hl,-,he⟩
  rcases lt_trichotomy q r with hqr | rfl | hrq
  · exact (he r hri hqr).2 h
  · exact h.level_ne hl
  · exact hn q hq hrq hquery hl

end
end BracketLayout

namespace Annotating
open BracketLayout Assignments

/-- What becomes of the names in front of colons. Up to the first query that is nested in them the
columns of a query are kept apart from assignments; behind it they are lost. -/
structure QueriesRead (tokens : List Token) (found : List AnnotatedToken) : Prop where
  assigned : ∀ (i : Nat) (u : AnnotatedToken) (kind : Kind), found[i]? = some u →
    u.kind = .identifier → kindAt tokens (i + 1) = some kind → kind.isAssign = true →
    (u.flags.assigned = true ↔ u.flags.param = true ∨ ¬InRememberedColumns tokens (i + 1))
  kept : ∀ (i q : Nat) (u : AnnotatedToken) (kind : Kind), found[i]? = some u →
    u.kind = .identifier → u.flags.param = false → kindAt tokens (i + 1) = some kind →
    kind.isAssign = true → q < i + 1 → IsQuery tokens q →
    level tokens q = level tokens (i + 1) → Unbroken tokens q (i + 2) →
    (∀ r, r < i + 1 → q < r → EndsColumns tokens r → level tokens r ≠ level tokens (i + 1)) →
    (∀ r, r < i + 1 → q < r → ¬NestedQuery tokens (level tokens (i + 1)) r) →
    u.flags.assigned = false
  lost : ∀ (i r : Nat) (u : AnnotatedToken) (kind : Kind), found[i]? = some u →
    u.kind = .identifier → kindAt tokens (i + 1) = some kind → kind.isAssign = true →
    r < i + 1 → NestedQuery tokens (level tokens (i + 1)) r →
    (∀ q, q < i + 1 → r < q → IsQuery tokens q → level tokens q ≠ level tokens (i + 1)) →
    (∀ j ∈ level tokens (i + 1),
      ¬(OpensTable tokens j ∨ OpensKeys tokens j ∨ OpensParams tokens j)) →
    u.flags.assigned = true

section
variable {ns : Option Text} {tokens : List Token} {i o : Nat} {u : AnnotatedToken} {kind : Kind}

/-- Only the colon right behind a name can assign it. -/
theorem eq_succ_of_assigns (hc : kindAt tokens (i + 1) = some kind) (hk : kind.isAssign = true)
    (h : Assigns (annotateIn ns tokens) o i) : o = i + 1 := by
  obtain ⟨a,ha,rfl⟩ := assigns_iff.mp h
  obtain ⟨k,t,p,hm⟩ := made_of_mem ha.made
  obtain ⟨-,-,hbehind⟩ := hm.endsAt.nameBehind (places_fits ns tokens) ha.member
  rw [hm.colon,hbehind.eq_of_isAssign hc hk]

theorem assigned_iff_admits {c : Token} (hu : (annotateIn ns tokens)[i]? = some u)
    (hi : u.kind = .identifier) (hc : tokens[i + 1]? = some c) (hk : c.kind.isAssign = true) :
    u.flags.assigned = true ↔ u.flags.param = true ∨
      ((reached 0 (.start ns) tokens (i + 1)).enter c).inner.admitsAssignment = true := by
  have hname : kindAt tokens i = some .identifier := kind_iff.mp ⟨u,hu,hi⟩
  rw [assigned_annotateIn hu]
  refine or_congr_right (Iff.trans ?_ (assigns_iff_admits hname hc hk))
  constructor
  · rintro ⟨o,ho⟩
    rwa [eq_succ_of_assigns (kindAt_eq_some hc) hk ho] at ho
  · exact fun h => ⟨i + 1,h⟩

/-- The layout admits an assignment where it knows of no columns and no parameter list. -/
theorem admits_reached_iff {c : Token} (ns : Option Text) (hc : tokens[i]? = some c) :
    ((reached 0 (.start ns) tokens i).enter c).inner.admitsAssignment = true ↔
      ¬InRememberedColumns tokens i :=
  (tracks_reached ns hc).admits_iff_not (classified_reached ns hc _ List.mem_cons_self)
    (remembered_reached ns hc _ List.mem_cons_self)

theorem assigned_iff_of_colon (hu : (annotateIn ns tokens)[i]? = some u)
    (hi : u.kind = .identifier) (hc : kindAt tokens (i + 1) = some kind)
    (hk : kind.isAssign = true) :
    u.flags.assigned = true ↔ u.flags.param = true ∨ ¬InRememberedColumns tokens (i + 1) := by
  obtain ⟨c,hget,rfl⟩ := Option.map_eq_some_iff.mp hc
  rw [assigned_iff_admits hu hi hget hk,admits_reached_iff ns hget]

/-- Columns are told from assignments by the query that has begun last in a lambda. -/
theorem annotate_queriesRead (tokens : List Token) : QueriesRead tokens (annotate tokens) where
  assigned i u kind hu hi hc hk := assigned_iff_of_colon hu hi hc hk
  kept i q u kind hu hi hp hc hk hq hquery hl hn he hnested := by
    have hr : ColumnsRemembered tokens (level tokens (i + 1)) (i + 1) :=
      ⟨q,hq,hquery,hl,hn,fun r hri hqr => ⟨he r hri hqr,hnested r hri hqr⟩⟩
    refine Bool.eq_false_iff.mpr fun ha => ?_
    rcases (assigned_iff_of_colon hu hi hc hk).mp ha with hparam | hout
    · rw [hp] at hparam
      cases hparam
    · exact hout (.inr hr)
  lost i r u kind hu hi hc hk hri hnested hn hplain := by
    refine (assigned_iff_of_colon hu hi hc hk).mpr (.inr ?_)
    rintro (⟨j,hj,hopens⟩ | hr)
    · exact hplain j hj hopens
    · exact hnested.not_remembered hri hn hr

end

/-- A query in the columns of another one. -/
def nestedTokens : List Token :=
  Lexing.tokenize [] "exec a:(exec b from t),c:1 from u".toList

/-- The column in front of the nested query is not assigned, the one behind it is. -/
theorem annotate_queriesRead_nestedTokens :
    (∃ u, (annotate nestedTokens)[1]? = some u ∧ u.flags.assigned = false) ∧
      ∃ u, (annotate nestedTokens)[10]? = some u ∧ u.flags.assigned = true := by
  have h := annotate_queriesRead nestedTokens
  obtain ⟨hfirst,hcolon,hquery,hlevel,hunbroken,hends,hunnested⟩ :
      (annotate nestedTokens)[1]?.map (fun u => (u.kind,u.flags.param)) =
          some (.identifier,false) ∧
        kindAt nestedTokens 2 = some .colon ∧ IsQuery nestedTokens 0 ∧
        level nestedTokens 0 = level nestedTokens 2 ∧ Unbroken nestedTokens 0 3 ∧
        (∀ r, r < 2 → 0 < r → EndsColumns nestedTokens r →
          level nestedTokens r ≠ level nestedTokens 2) ∧
        ∀ r, r < 2 → 0 < r → ¬NestedQuery nestedTokens (level nestedTokens 2) r := by
    decide +kernel
  obtain ⟨hsecond,hcolon',hnested,hnone,hlast⟩ :
      (annotate nestedTokens)[10]?.map (·.kind) = some .identifier ∧
        kindAt nestedTokens 11 = some .colon ∧
        NestedQuery nestedTokens (level nestedTokens 11) 4 ∧ level nestedTokens 11 = none ∧
        ∀ q, q < 11 → 4 < q → IsQuery nestedTokens q →
          level nestedTokens q ≠ level nestedTokens 11 := by
    decide +kernel
  obtain ⟨u,hu,huk⟩ := Option.map_eq_some_iff.mp hfirst
  obtain ⟨hkind,hparam⟩ := Prod.mk.inj huk
  obtain ⟨v,hv,hvk⟩ := Option.map_eq_some_iff.mp hsecond
  have hplain : ∀ j ∈ level nestedTokens 11, ¬(OpensTable nestedTokens j ∨
      OpensKeys nestedTokens j ∨ OpensParams nestedTokens j) := by
    rw [hnone]
    exact nofun
  refine ⟨⟨u,hu,?_⟩,v,hv,?_⟩
  · exact h.kept 1 0 u .colon hu hkind hparam hcolon rfl (by decide) hquery hlevel hunbroken hends
      hunnested
  · exact h.lost 10 4 v .colon hv hvk hcolon' rfl (by decide) hnested hlast hplain

/-- Behind a nested query a name in front of a colon is assigned in an open column list. -/
theorem nested_query_assigns_column :
    ¬∀ (tokens : List Token) (i : Nat) (u : AnnotatedToken), (annotate tokens)[i]? = some u →
      u.kind = .identifier → u.flags.param = false → kindAt tokens (i + 1) = some .colon →
        ColumnsOpen tokens (level tokens (i + 1)) (i + 1) → u.flags.assigned = false := by
  intro h
  obtain ⟨hflags,hcolon,hopen⟩ :
      (annotate nestedTokens)[10]?.map (fun u => (u.kind,u.flags.param,u.flags.assigned)) =
          some (.identifier,false,true) ∧
        kindAt nestedTokens 11 = some .colon ∧
        ColumnsOpen nestedTokens (level nestedTokens 11) 11 := by
    decide +kernel
  obtain ⟨u,hu,hf⟩ := Option.map_eq_some_iff.mp hflags
  obtain ⟨hkind,hf⟩ := Prod.mk.inj hf
  obtain ⟨hparam,hassigned⟩ := Prod.mk.inj hf
  have := h nestedTokens 10 u hu hkind hparam hcolon hopen
  exact absurd (hassigned.symm.trans this) nofun

end Annotating
end QScope
