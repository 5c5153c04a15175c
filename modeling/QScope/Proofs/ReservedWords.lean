import QScope.Proofs.EquivalentTokens
import QScope.Proofs.LintVerdicts
import QScope.Proofs.NestedQueries

/-! # Reserved words: what is said of one, and what a name in its place would be

The linter looks at the next token only, and only for a plain or a double colon. Not every one of
these would assign a name in the place of the word, and other colons would. -/
namespace QScope
open BracketLayout Assignments

/-- The token as a name. -/
def Token.named (w : Text) (t : Token) : Token := {t with kind := .identifier, image := w}

/-- The tokens with a name in the place of the one at an index. -/
def namedAt (tokens : List Token) (i : Nat) (w : Text) : List Token := tokens.modify i (·.named w)

/-- A reserved word that opens and ends no columns and switches no namespace. -/
structure Token.IsIdle (t : Token) : Prop where
  keyword : t.kind = .keyword
  opensNone : t.image ∉ Keywords.queries
  endsNone : t.image ≠ "from".toList
  switchesNone : t.image ≠ "system".toList

instance (t : Token) : Decidable t.IsIdle :=
  decidable_of_iff (t.kind = .keyword ∧ t.image ∉ Keywords.queries ∧ t.image ≠ "from".toList ∧
    t.image ≠ "system".toList)
    ⟨fun ⟨hk,hq,hf,hs⟩ => ⟨hk,hq,hf,hs⟩,fun ⟨hk,hq,hf,hs⟩ => ⟨hk,hq,hf,hs⟩⟩

/-! The layouts with a name in the place of a word -/

section
variable {tokens : List Token} {t : Token} {i : Nat} {w : Text}

theorem Token.IsIdle.after (h : t.IsIdle) (ns : Option Text) (inLambda : Bool)
    (following : Option Token) : Namespaces.after ns inLambda t following = ns := by
  simp only [Namespaces.after,h.keyword]
  split
  · exact if_neg fun hs => h.switchesNone hs.1
  · rfl

/-- Behind a call only a string counts. -/
theorem Namespaces.after_of_ne_string {u v : Token} (hu : u.kind ≠ .string) (hv : v.kind ≠ .string)
    (ns : Option Text) (inLambda : Bool) (t : Token) :
    after ns inLambda t (some u) = after ns inLambda t (some v) := by
  unfold after
  split
  · rfl
  · dsimp only
    rw [if_neg fun h => hu h.2.2,if_neg fun h => hv h.2.2]
  · rfl

theorem BracketLayout.Layout.enter_named (h : t.IsIdle) (s : Layout) :
    s.enter (t.named w) = s.enter t := by
  rw [enter,enter,Token.startsStatement,Token.startsStatement,h.keyword]
  rfl

theorem BracketLayout.Layout.move_named (h : t.IsIdle) (s : Layout) (following : Option Token) :
    s.move i (t.named w) following = s.move i t following := by
  have hq : Keywords.queries.contains t.image = false := by simpa using h.opensNone
  rw [move,move]
  rw [h.after]
  simp only [Token.named,h.keyword,hq,Namespaces.after]
  rw [if_neg Bool.false_ne_true,if_neg h.endsNone]

theorem BracketLayout.Layout.move_following_named (h : t.IsIdle) (s : Layout) (u : Token) :
    s.move i u (some (t.named w)) = s.move i u (some t) := by
  refine s.move_congr i ?_ fun ns inLambda => ?_
  · simp only [Frame.roundRole,Option.any_some,Token.named,h.keyword]
    rfl
  · have hn : (t.named w).kind ≠ .string := by simp [Token.named]
    exact Namespaces.after_of_ne_string hn (by simp [h.keyword]) ns inLambda u

theorem getElem?_namedAt (w : Text) (j : Nat) :
    (namedAt tokens i w)[j]? = tokens[j]?.map fun t => if i = j then t.named w else t :=
  List.getElem?_modify _ _ _ _

theorem kindAt_namedAt {j : Nat} (hj : i ≠ j) (w : Text) :
    kindAt (namedAt tokens i w) j = kindAt tokens j := by
  simp only [kindAt,getElem?_namedAt,if_neg hj,Option.map_id']

/-- No layout tells an idle word from a name. -/
theorem reached_namedAt (ht : tokens[i]? = some t) (h : t.IsIdle) (s : Layout) (k : Nat) :
    reached 0 s (namedAt tokens i w) k = reached 0 s tokens k := by
  refine reached_of_moves (fun k => ?_) s k
  have hfollowing : ∀ (s : Layout) (u : Token), s.move (0 + k) u (namedAt tokens i w)[k + 1]? =
      s.move (0 + k) u tokens[k + 1]? := by
    intro s u
    rw [getElem?_namedAt]
    by_cases hk : i = k + 1
    · subst hk
      rw [ht,Option.map_some,if_pos rfl]
      exact s.move_following_named h u
    · simp only [if_neg hk,Option.map_id']
  rw [getElem?_namedAt w k]
  cases hu : tokens[k]? with
  | none => exact .none
  | some u =>
    refine .some fun s => ?_
    rw [hfollowing]
    dsimp only
    by_cases hk : i = k
    · subst hk
      obtain rfl : t = u := Option.some.inj (ht.symm.trans hu)
      rw [if_pos rfl,Layout.enter_named h,Layout.move_named h]
    · rw [if_neg hk]

end

namespace Linting
open Annotating

/-- A token is reported as a reserved word that is assigned to. -/
def Reported (tokens : List AnnotatedToken) (x : AnnotatedToken) : Prop :=
  (⟨x,.reservedWord x.image⟩ : Finding) ∈ lint [] tokens

/-- A token is the target of an assignment, and no parameter. -/
def IsTarget (u : AnnotatedToken) : Prop := u.flags.assigned = true ∧ u.flags.param = false

instance (tokens : List AnnotatedToken) (x : AnnotatedToken) : Decidable (Reported tokens x) :=
  inferInstanceAs (Decidable (_ ∈ lint [] tokens))

instance (u : AnnotatedToken) : Decidable (IsTarget u) :=
  inferInstanceAs (Decidable (u.flags.assigned = true ∧ u.flags.param = false))

section
variable {ns : Option Text} {tokens : List Token} {i : Nat} {t : Token} {w : Text}
  {x u : AnnotatedToken} {following : Option AnnotatedToken}

theorem mem_problems_reservedWord {found : List AnnotatedToken} {word : Text} :
    .reservedWord word ∈ problems found x following ↔
      reservedWord? x following = some (.reservedWord word) := by
  rw [mem_problems_assignReservedWord rfl]
  exact or_iff_left fun h => nomatch severity_reservedNamespace? h

/-- A word is reported in front of a plain or a double colon. -/
theorem reported_iff (hx : (annotateIn ns tokens)[i]? = some x) (hk : x.kind = .keyword) :
    Reported (annotateIn ns tokens) x ↔
      kindAt tokens (i + 1) = some .colon ∨ kindAt tokens (i + 1) = some .doubleColon := by
  have hword : ∀ following, reservedWord? x following = some (.reservedWord x.image) ↔
      following.map (·.kind) = some .colon ∨ following.map (·.kind) = some .doubleColon := by
    intro following
    cases following <;> simp [reservedWord?,hk,or_iff_not_imp_left]
  have hindex : ∀ j, (annotateIn ns tokens)[j]? = some x ↔ j = i := by
    intro j
    constructor
    · intro hj
      rw [← index_annotateIn hj,index_annotateIn hx]
    · rintro rfl
      exact hx
  have hkind : ((annotateIn ns tokens)[i + 1]?).map (·.kind) = kindAt tokens (i + 1) := by
    rw [kindAt,← List.getElem?_map,kinds_annotateIn,List.getElem?_map]
  rw [Reported,mem_lint]
  simp only [hindex,mem_problems_reservedWord,hword,exists_eq_left,hkind]
  exact and_iff_left List.not_mem_nil

/-- A plain or a double colon right behind a target assigns it alone and as a whole. -/
theorem single_iff (hu : (annotateIn ns tokens)[i]? = some u) (h : IsTarget u) :
    u.flags.amended = false ∧ u.group = [] ↔
      kindAt tokens (i + 1) = some .colon ∨ kindAt tokens (i + 1) = some .doubleColon := by
  rcases noted_or_untargeted hu with ⟨a,ha,hn⟩ | hn
  · obtain ⟨k,c,p,hm⟩ := made_of_mem ha.made
    have hmember := ha.member
    obtain ⟨-,-,hb⟩ := hm.endsAt.nameBehind (places_fits ns tokens) hmember
    have hc : c.kind = .colon ∨ c.kind = .doubleColon ∨ c.kind = .amend := by
      have hassign := hm.kind (places_fits ns tokens)
      revert hassign
      cases c.kind <;> decide
    have hamends := hm.amends
    rw [hn.flags,hn.group]
    dsimp only
    generalize a.target = target at hmember hb hamends
    cases hb with
    | colon hk =>
      subst hk
      rw [kindAt_eq_some hm.token,hamends]
      rcases hc with hc | hc | hc <;> simp [hc,Target.isItem,Target.shared]
    | bracket hbracket _ =>
      rw [hbracket,hamends]
      simp [Target.isItem]
    | @separator j is hseparator _ _ _ _ _ =>
      have his : is ≠ [] := List.ne_nil_of_mem hmember
      rcases hseparator with hs | hs <;> simp [hs,Target.shared,his]
  · obtain ⟨hassigned,hparam⟩ := h
    rw [hn.flags,hparam] at hassigned
    cases hassigned

end
end Linting

namespace Annotating
open Linting

/-- What is said of an idle word, and what a name in its place would be. A word that is reported
would be a target but for columns and parameter lists. One that would be a target is reported when
it would be assigned alone and as a whole. -/
structure WordsRead (tokens : List Token) : Prop where
  reported : ∀ (i : Nat) (w : Text) (x u : AnnotatedToken), (annotate tokens)[i]? = some x →
    x.toToken.IsIdle → (annotate (namedAt tokens i w))[i]? = some u →
    Reported (annotate tokens) x → (IsTarget u ↔
      ¬((∃ j ∈ level tokens i, OpensParams tokens j) ∨ InRememberedColumns tokens (i + 1)))
  target : ∀ (i : Nat) (w : Text) (x u : AnnotatedToken), (annotate tokens)[i]? = some x →
    x.toToken.IsIdle → (annotate (namedAt tokens i w))[i]? = some u → IsTarget u →
    (Reported (annotate tokens) x ↔ u.flags.amended = false ∧ u.group = [])

section
variable {ns : Option Text} {tokens : List Token} {i : Nat} {t c : Token} {w : Text}
  {u : AnnotatedToken}

/-- A name in front of a colon would be a target but for columns and parameter lists. -/
theorem isTarget_namedAt_iff (ht : tokens[i]? = some t) (h : t.IsIdle)
    (hc : tokens[i + 1]? = some c) (hk : c.kind.isAssign = true)
    (hu : (annotateIn ns (namedAt tokens i w))[i]? = some u) : IsTarget u ↔
      ¬((∃ j ∈ level tokens i, OpensParams tokens j) ∨ InRememberedColumns tokens (i + 1)) := by
  have ht' : (namedAt tokens i w)[i]? = some (t.named w) := by
    rw [getElem?_namedAt,ht,Option.map_some,if_pos rfl]
  have hc' : (namedAt tokens i w)[i + 1]? = some c := by
    rw [getElem?_namedAt,hc,Option.map_some,if_neg i.lt_succ_self.ne]
  have hi : u.kind = .identifier := by
    obtain ⟨v,hv,hvk⟩ := exists_getElem? ns ht'
    obtain rfl := Option.some.inj (hu.symm.trans hv)
    exact hvk
  have hparam : u.flags.param = true ↔ ∃ j ∈ level tokens i, OpensParams tokens j := by
    rw [param_iff_top? hu ht' hi,reached_namedAt ht h,Layout.enter_named h]
    exact (tracks_reached ns ht).params_iff (classified_reached ns ht _ List.mem_cons_self)
  rw [IsTarget,assigned_iff_admits hu hi hc' hk,reached_namedAt ht h,admits_reached_iff ns hc,
    ← hparam,not_or,Bool.not_eq_true]
  cases u.flags.param <;> simp

end

theorem annotate_wordsRead (tokens : List Token) : WordsRead tokens where
  reported i w x u hx hidle hu hreported := by
    obtain ⟨t,p,ht,-,rfl⟩ := annotated_of_getElem? hx
    obtain ⟨c,hc,hk⟩ : ∃ c, tokens[i + 1]? = some c ∧ c.kind.isAssign = true := by
      rcases (reported_iff hx hidle.keyword).mp hreported with hk | hk <;>
        obtain ⟨c,hc,hk⟩ := Option.map_eq_some_iff.mp hk <;> exact ⟨c,hc,by rw [hk]; rfl⟩
    have ht' : t.IsIdle := ⟨hidle.keyword,hidle.opensNone,hidle.endsNone,hidle.switchesNone⟩
    exact isTarget_namedAt_iff ht ht' hc hk hu
  target i w x u hx hidle hu htarget := by
    rw [annotate,reported_iff hx hidle.keyword,single_iff hu htarget,kindAt_namedAt i.lt_succ_self.ne]

/-! Words that are reported and would be no targets, and the other way round -/

def columnTokens : List Token := Lexing.tokenize [] "([]count:1 2)".toList

def amendedTokens : List Token := Lexing.tokenize [] "count+:1".toList

/-- The column of a table would be no target, and a word that would be amended is not reported. -/
theorem annotate_wordsRead_count :
    (∃ u, (annotate (namedAt columnTokens 3 "c".toList))[3]? = some u ∧ ¬IsTarget u) ∧
      ∃ x, (annotate amendedTokens)[0]? = some x ∧ ¬Reported (annotate amendedTokens) x := by
  obtain ⟨x,hx,u,hu,hidle,hreported,hcolumn⟩ : ∃ x ∈ (annotate columnTokens)[3]?,
      ∃ u ∈ (annotate (namedAt columnTokens 3 "c".toList))[3]?, x.toToken.IsIdle ∧
        Reported (annotate columnTokens) x ∧ InRememberedColumns columnTokens 4 := by
    decide +kernel
  obtain ⟨y,hy,v,hv,hidle',htarget,hamended⟩ : ∃ y ∈ (annotate amendedTokens)[0]?,
      ∃ v ∈ (annotate (namedAt amendedTokens 0 "c".toList))[0]?, y.toToken.IsIdle ∧
        IsTarget v ∧ v.flags.amended = true := by
    decide +kernel
  refine ⟨⟨u,hu,fun h => ?_⟩,y,hy,fun h => ?_⟩
  · exact ((annotate_wordsRead columnTokens).reported 3 _ x u hx hidle hu hreported).mp h
      (.inr hcolumn)
  · have hsingle := ((annotate_wordsRead amendedTokens).target 0 _ y v hy hidle' hv htarget).mp h
    exact absurd (hamended.symm.trans hsingle.1) nofun

/-- A word of a text and what a fresh name in its place would be. -/
structure Replaced (t w : Text) (i : Nat) (x u : AnnotatedToken) : Prop where
  word : (parse [] t)[i]? = some x
  idle : x.toToken.IsIdle
  fresh : ∀ y ∈ parse [] t, y.image ≠ w
  name : (annotate (namedAt (Lexing.tokenize [] t) i w))[i]? = some u

/-- The column of a table is reported, an amended word is not. -/
theorem words_differ_from_targets :
    (¬∀ (t w : Text) (i : Nat) (x u : AnnotatedToken), Replaced t w i x u →
        Reported (parse [] t) x → IsTarget u) ∧
      ¬∀ (t w : Text) (i : Nat) (x u : AnnotatedToken), Replaced t w i x u →
        IsTarget u → Reported (parse [] t) x := by
  constructor
  · intro h
    obtain ⟨x,hx,u,hu,hidle,hfresh,hreported,htarget⟩ : ∃ x ∈ (annotate columnTokens)[3]?,
        ∃ u ∈ (annotate (namedAt columnTokens 3 "c".toList))[3]?, x.toToken.IsIdle ∧
          (∀ y ∈ annotate columnTokens, y.image ≠ "c".toList) ∧
          Reported (annotate columnTokens) x ∧ ¬IsTarget u := by
      decide +kernel
    exact htarget (h _ _ 3 x u ⟨hx,hidle,hfresh,hu⟩ hreported)
  · intro h
    obtain ⟨x,hx,u,hu,hidle,hfresh,htarget,hreported⟩ : ∃ x ∈ (annotate amendedTokens)[0]?,
        ∃ u ∈ (annotate (namedAt amendedTokens 0 "c".toList))[0]?, x.toToken.IsIdle ∧
          (∀ y ∈ annotate amendedTokens, y.image ≠ "c".toList) ∧
          IsTarget u ∧ ¬Reported (annotate amendedTokens) x := by
      decide +kernel
    exact hreported (h _ _ 0 x u ⟨hx,hidle,hfresh,hu⟩ htarget)

end Annotating
end QScope
