import QScope.Proofs.AssignmentLinks
import QScope.Proofs.QueryColumns

/-! # Column contexts: where a colon defines a column, and where it assigns

The layout keeps one number, how many brackets there are around the column list of a query. As long
as no query is nested in the columns of another one, this number tells for each open bracket by
itself whether a query directly inside it is still in its columns. -/
namespace QScope.BracketLayout
open Assignments (kindAt)

/-- No query begins inside a bracket that stands, in the same lambda, in an open column list. -/
def Unnested (tokens : List Token) : Prop :=
  ∀ k, IsQuery tokens k → ∀ j ∈ bracketsAround tokens k, ¬ColumnsOpen tokens (level tokens j) k

/-- The token at an index stands where colons define columns or parameters are listed: directly
inside a table literal, its keys or a parameter list, or in a column list that is open directly
inside the innermost bracket. -/
def InColumns (tokens : List Token) (i : Nat) : Prop :=
  (∃ j ∈ level tokens i, OpensTable tokens j ∨ OpensKeys tokens j ∨ OpensParams tokens j) ∨
    ColumnsOpen tokens (level tokens i) i

section
variable {tokens : List Token} {i j : Nat} {t : Token} {l : Option Nat}

/-! The contexts of given tokens can be computed -/

instance : Decidable (Unnested tokens) :=
  decidable_of_iff (∀ k, k < tokens.length → IsQuery tokens k →
    ∀ j ∈ bracketsAround tokens k, ¬ColumnsOpen tokens (level tokens j) k) <| by
    refine forall_congr' fun k => ⟨fun h hk => h ?_ hk,fun h _ => h⟩
    obtain ⟨t,ht,-⟩ := hk
    exact (List.getElem?_eq_some_iff.mp ht).1

instance {kind : Kind} : Decidable (OpensBehind tokens kind j) :=
  decidable_of_iff (kindAt tokens j = some .openBracket ∧ opensStatement tokens j = false ∧
    j ≠ 0 ∧ kindAt tokens (j - 1) = some kind) <| by
    refine and_congr_right fun _ => and_congr_right fun _ => ?_
    cases j <;> simp

instance : Decidable (InColumns tokens i) :=
  inferInstanceAs (Decidable ((∃ j ∈ level tokens i, (kindAt tokens j = some .openParen ∧
      kindAt tokens (j + 1) = some .openBracket) ∨
    OpensBehind tokens .openParen j ∨ OpensBehind tokens .openBrace j) ∨
      ColumnsOpen tokens (level tokens i) i))

/-- A column list is remembered as long as it is open, where no query is nested in another one's
columns. -/
theorem Unnested.remembered_iff (hn : Unnested tokens) :
    ColumnsRemembered tokens l i ↔ ColumnsOpen tokens l i := by
  refine ⟨ColumnsRemembered.columnsOpen,?_⟩
  rintro ⟨q,hq,hquery,hl,hu,he⟩
  refine ⟨q,hq,hquery,hl,hu,fun r hri hr => ⟨he r hri hr,?_⟩⟩
  rintro ⟨hr',j,hj,rfl⟩
  refine hn r hr' j hj ⟨q,hr,hquery,hl,fun k t hqk hk => ?_,fun k hk => ?_⟩
  · exact hu k t hqk (by omega)
  · exact he k (by omega)

/-- In every lambda that is open in front of a token the number stands for the column lists. -/
theorem columns_reached (ns : Option Text) (hn : Unnested tokens) (ht : tokens[i]? = some t) :
    ∀ f ∈ ((reached 0 (.start ns) tokens i).enter t).inner ::
      ((reached 0 (.start ns) tokens i).enter t).outer, f.Columns (ColumnsOpen tokens · i) :=
  fun f hf => (remembered_reached ns ht f hf).keep fun _ _ => hn.remembered_iff

/-! What the layout says of names and colons -/

namespace Layout.Tracks
variable {s : Layout}

/-- What the innermost open bracket holds, from the tokens next to it. -/
theorem top?_iff (h : s.Tracks tokens i) (hc : ∀ b ∈ s.inner.brackets, Classified tokens b)
    {role : Role} {holds : Nat → Prop} (hrole : ∀ b, Classified tokens b → (b.2 = role ↔ holds b.1))
    (hbrace : ∀ j, holds j → kindAt tokens j ≠ some .openBrace) :
    s.inner.top? = some role ↔ ∃ j, level tokens i = some j ∧ holds j := by
  rw [Frame.top?,Option.map_eq_some_iff]
  constructor
  · rintro ⟨b,hb,hr⟩
    exact ⟨b.1,h.level_of_head? hb,(hrole b (hc b (List.mem_of_mem_head? hb))).mp hr⟩
  · rintro ⟨j,hl,hj⟩
    obtain ⟨r,hr⟩ := h.exists_head? hl (hbrace j hj)
    exact ⟨(j,r),hr,(hrole _ (hc _ (List.mem_of_mem_head? hr))).mpr hj⟩

theorem params_iff (h : s.Tracks tokens i) (hc : ∀ b ∈ s.inner.brackets, Classified tokens b) :
    s.inner.top? = some .params ↔ ∃ j, level tokens i = some j ∧ OpensParams tokens j :=
  h.top?_iff hc (fun _ hb => hb.params) fun j hj he => by
    rw [hj.1] at he
    cases he

theorem keys_iff (h : s.Tracks tokens i) (hc : ∀ b ∈ s.inner.brackets, Classified tokens b) :
    s.inner.top? = some .keys ↔ ∃ j, level tokens i = some j ∧ OpensKeys tokens j :=
  h.top?_iff hc (fun _ hb => hb.keys) fun j hj he => by
    rw [hj.1] at he
    cases he

theorem table_top?_iff (h : s.Tracks tokens i)
    (hc : ∀ b ∈ s.inner.brackets, Classified tokens b) :
    s.inner.top? = some .table ↔ ∃ j, level tokens i = some j ∧ OpensTable tokens j :=
  h.top?_iff hc (fun _ hb => hb.table) fun j hj he => by
    rw [hj.1] at he
    cases he

/-- A colon assigns unless it stands where columns are defined, as far as they are known to be
open. -/
theorem admits_iff_not (h : s.Tracks tokens i) (hc : ∀ b ∈ s.inner.brackets, Classified tokens b)
    {isOpen : Option Nat → Prop} (hcolumns : s.inner.Columns isOpen) :
    s.inner.admitsAssignment = true ↔
      ¬((∃ j ∈ level tokens i, OpensTable tokens j ∨ OpensKeys tokens j ∨ OpensParams tokens j) ∨
        isOpen (level tokens i)) := by
  rw [hcolumns.admitsAssignment_iff,hcolumns.open_iff _ List.suffix_rfl,
    ← h.level_eq,h.params_iff hc,h.keys_iff hc,h.table_top?_iff hc]
  simp only [Option.mem_def,and_or_left,exists_or,not_or]

theorem admits_iff (h : s.Tracks tokens i) (hc : ∀ b ∈ s.inner.brackets, Classified tokens b)
    (hcolumns : s.inner.Columns (ColumnsOpen tokens · i)) :
    s.inner.admitsAssignment = true ↔ ¬InColumns tokens i := h.admits_iff_not hc hcolumns

end Layout.Tracks
end
end BracketLayout

namespace Annotating
open BracketLayout Assignments

/-- Where names are assigned, and where they are parameters. A colon right behind a name assigns it
outside columns and parameter lists, as long as no query is nested in the columns of another one;
a name is a parameter directly inside the parameter list of its lambda. -/
structure ContextsRead (tokens : List Token) (found : List AnnotatedToken) : Prop where
  target : Unnested tokens → ∀ i kind, kindAt tokens i = some .identifier →
    kindAt tokens (i + 1) = some kind → kind.isAssign = true →
    (Assigns found (i + 1) i ↔ ¬InColumns tokens (i + 1))
  param : ∀ (i : Nat) (u : AnnotatedToken), found[i]? = some u → u.kind = .identifier →
    (u.flags.param = true ↔ ∃ j ∈ level tokens i, OpensParams tokens j)

section
variable {ns : Option Text} {tokens : List Token} {i : Nat} {c : Token}

/-- A colon right behind a name assigns it if its layout admits that. -/
theorem assigns_iff_admits (hi : kindAt tokens i = some .identifier)
    (hc : tokens[i + 1]? = some c) (hk : c.kind.isAssign = true) :
    Assigns (annotateIn ns tokens) (i + 1) i ↔
      ((reached 0 (.start ns) tokens (i + 1)).enter c).inner.admitsAssignment = true := by
  have hplace : (places 0 (.start ns) tokens)[i + 1]? =
      some (((reached 0 (.start ns) tokens (i + 1)).enter c).place c) := by
    rw [getElem?_places,hc]
    rfl
  rw [assigns_iff]
  constructor
  · rintro ⟨a,ha,hcolon⟩
    obtain ⟨k,t,p,hm⟩ := made_of_mem ha.made
    obtain rfl : k = i := Nat.succ.inj (hm.colon.symm.trans hcolon)
    have hp := Option.some.inj (hm.place.symm.trans hplace)
    have hadmits := hm.admits
    rw [hp] at hadmits
    exact (Bool.and_eq_true_iff.mp hadmits).2
  · intro hadmits
    have hplaceAdmits :
        (((reached 0 (.start ns) tokens (i + 1)).enter c).place c).admits = true :=
      Bool.and_eq_true_iff.mpr ⟨hk,hadmits⟩
    obtain ⟨a,ha,htarget⟩ : ∃ a, assignment? tokens (places 0 (.start ns) tokens) (i + 1) c
        (((reached 0 (.start ns) tokens (i + 1)).enter c).place c) = some a ∧
          a.target = .name i := by
      simp only [assignment?,hplaceAdmits,target?,hi,Option.map_some]
      exact ⟨_,rfl,rfl⟩
    have hmade := madeAt_eq_some.mpr ⟨c,_,hc,hplace,ha⟩
    have hcolon := colon_of_madeAt hmade
    refine ⟨a,⟨mem_assignments_iff_madeAt.mpr (hcolon ▸ hmade),?_⟩,hcolon⟩
    rw [htarget]
    exact List.mem_singleton_self i

/-- A name is a parameter where its layout has a parameter list innermost. -/
theorem param_iff_top? {u : AnnotatedToken} {t : Token} (hu : (annotateIn ns tokens)[i]? = some u)
    (ht : tokens[i]? = some t) (hk : u.kind = .identifier) : u.flags.param = true ↔
      ((reached 0 (.start ns) tokens i).enter t).inner.top? = some .params := by
  rw [getElem?_annotateIn,ht] at hu
  obtain rfl := Option.some.inj hu
  change (t.kind == .identifier && _) = true ↔ _
  rw [show t.kind = .identifier from hk,beq_self_eq_true,Bool.true_and,beq_iff_eq]

/-- Columns and parameters are told apart from names that are assigned. -/
theorem annotate_contextsRead (tokens : List Token) : ContextsRead tokens (annotate tokens) where
  target hn i kind hi hkind hk := by
    obtain ⟨c,hc,rfl⟩ := Option.map_eq_some_iff.mp hkind
    rw [annotate,assigns_iff_admits hi hc hk]
    exact (tracks_reached none hc).admits_iff
      (classified_reached none hc _ List.mem_cons_self)
      (columns_reached none hn hc _ List.mem_cons_self)
  param i u hu hk := by
    obtain ⟨t,p,ht,-⟩ := annotated_of_getElem? hu
    rw [param_iff_top? hu ht hk]
    exact (tracks_reached none ht).params_iff (classified_reached none ht _ List.mem_cons_self)

/-- A query in the brackets of a call, and a name assigned in those of another one. -/
def callTokens : List Token := Lexing.tokenize [] "f[select a:b from t];g[c:1]".toList

theorem annotate_contextsRead_callTokens :
    ¬Assigns (annotate callTokens) 4 3 ∧ Assigns (annotate callTokens) 13 12 := by
  obtain ⟨hn,⟨ha,hacolon,hin⟩,hc,hccolon,hout⟩ : Unnested callTokens ∧
      (kindAt callTokens 3 = some .identifier ∧ kindAt callTokens 4 = some .colon ∧
        InColumns callTokens 4) ∧
      kindAt callTokens 12 = some .identifier ∧ kindAt callTokens 13 = some .colon ∧
        ¬InColumns callTokens 13 := by
    decide +kernel
  have h := (annotate_contextsRead callTokens).target hn
  exact ⟨fun hassigns => (h 3 .colon ha hacolon rfl).mp hassigns hin,
    (h 12 .colon hc hccolon rfl).mpr hout⟩

end
end Annotating
end QScope
