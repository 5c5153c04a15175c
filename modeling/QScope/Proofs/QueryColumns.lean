import QScope.Proofs.OpenBrackets

/-! # Query columns: the one column list that a lambda remembers

The layout keeps one number for each lambda, how many brackets there are around the column list of
a query. So it remembers one column list at a time, the one of the query that has begun last. A
query inside the brackets of another one takes its place, and leaves nothing behind when it ends. -/
namespace QScope.BracketLayout
open Assignments (kindAt)

/-- A keyword that opens the column list of a query. -/
def IsQuery (tokens : List Token) (i : Nat) : Prop :=
  ∃ t ∈ tokens[i]?, t.kind = .keyword ∧ t.image ∈ Keywords.queries

/-- A `from` or a semicolon, which ends the column list directly inside the same bracket. -/
def EndsColumns (tokens : List Token) (i : Nat) : Prop :=
  ∃ t ∈ tokens[i]?, t.kind = .semicolon ∨ t.kind = .keyword ∧ t.image = "from".toList

/-- In front of index `i` a column list is open directly inside a bracket or brace `l`: in the same
statement a query has begun there, and nothing has ended its columns there. -/
def ColumnsOpen (tokens : List Token) (l : Option Nat) (i : Nat) : Prop :=
  ∃ q, q < i ∧ IsQuery tokens q ∧ level tokens q = l ∧ Unbroken tokens q (i + 1) ∧
    ∀ r, r < i → q < r → EndsColumns tokens r → level tokens r ≠ l

/-- A query that begins inside a bracket which stands, in the same lambda, directly inside `l`. -/
def NestedQuery (tokens : List Token) (l : Option Nat) (i : Nat) : Prop :=
  IsQuery tokens i ∧ ∃ j ∈ bracketsAround tokens i, level tokens j = l

/-- The layout in front of index `i` remembers an open column list directly inside `l`: since its
query no nested one has begun. -/
def ColumnsRemembered (tokens : List Token) (l : Option Nat) (i : Nat) : Prop :=
  ∃ q, q < i ∧ IsQuery tokens q ∧ level tokens q = l ∧ Unbroken tokens q (i + 1) ∧
    ∀ r, r < i → q < r → (EndsColumns tokens r → level tokens r ≠ l) ∧ ¬NestedQuery tokens l r

section
variable {tokens : List Token} {i j : Nat} {t u : Token} {l : Option Nat} {f g : Frame}
  {rest rest' : List (Nat × Role)}

/-! The contexts of given tokens can be computed -/

instance : Decidable (IsQuery tokens i) :=
  inferInstanceAs (Decidable (∃ t ∈ tokens[i]?, t.kind = .keyword ∧ t.image ∈ Keywords.queries))

instance : Decidable (EndsColumns tokens i) :=
  inferInstanceAs (Decidable (∃ t ∈ tokens[i]?,
    t.kind = .semicolon ∨ t.kind = .keyword ∧ t.image = "from".toList))

instance : Decidable (Unbroken tokens j i) :=
  decidable_of_iff (∀ r, r < i → j < r → opensStatement tokens r = false) <| by
    constructor
    · intro h r t hr hri ht
      rw [← opensStatement_eq ht]
      exact h r hri hr
    · intro h r hri hr
      rw [opensStatement]
      cases ht : tokens[r]? with
      | none => rfl
      | some t => exact h r t hr hri ht

instance : Decidable (ColumnsOpen tokens l i) :=
  inferInstanceAs (Decidable (∃ q, q < i ∧ IsQuery tokens q ∧ level tokens q = l ∧
    Unbroken tokens q (i + 1) ∧
    ∀ r, r < i → q < r → EndsColumns tokens r → level tokens r ≠ l))

instance : Decidable (NestedQuery tokens l i) :=
  inferInstanceAs (Decidable (IsQuery tokens i ∧
    ∃ j ∈ bracketsAround tokens i, level tokens j = l))

instance : Decidable (ColumnsRemembered tokens l i) :=
  inferInstanceAs (Decidable (∃ q, q < i ∧ IsQuery tokens q ∧ level tokens q = l ∧
    Unbroken tokens q (i + 1) ∧ ∀ r, r < i → q < r →
      (EndsColumns tokens r → level tokens r ≠ l) ∧ ¬NestedQuery tokens l r))

/-! Column lists, one token at a time -/

theorem isQuery_iff (ht : tokens[i]? = some t) :
    IsQuery tokens i ↔ t.kind = .keyword ∧ t.image ∈ Keywords.queries := by
  rw [IsQuery,ht]
  simp

theorem endsColumns_iff (ht : tokens[i]? = some t) : EndsColumns tokens i ↔
    t.kind = .semicolon ∨ t.kind = .keyword ∧ t.image = "from".toList := by
  rw [EndsColumns,ht]
  simp

theorem ColumnsRemembered.columnsOpen (h : ColumnsRemembered tokens l i) :
    ColumnsOpen tokens l i := by
  obtain ⟨q,hq,hquery,hl,hu,he⟩ := h
  exact ⟨q,hq,hquery,hl,hu,fun r hri hr => (he r hri hr).1⟩

theorem not_remembered_of_startsStatement (ht : tokens[i]? = some t)
    (hs : t.startsStatement = true) : ¬ColumnsRemembered tokens l i := by
  rintro ⟨q,hq,-,-,hu,-⟩
  rw [hu i t hq i.lt_succ_self ht] at hs
  cases hs

/-- Right behind a bracket or brace nothing has begun inside it. -/
theorem not_remembered_self : ¬ColumnsRemembered tokens (some i) (i + 1) := by
  rintro ⟨q,hq,-,hl,-⟩
  have := lt_of_mem_openBefore (List.mem_of_mem_head? hl)
  omega

theorem columnsRemembered_succ (hu : tokens[i + 1]? = some u) (hs : u.startsStatement = false) :
    ColumnsRemembered tokens l (i + 1) ↔ IsQuery tokens i ∧ level tokens i = l ∨
      ColumnsRemembered tokens l i ∧ ¬(EndsColumns tokens i ∧ level tokens i = l) ∧
        ¬NestedQuery tokens l i := by
  constructor
  · rintro ⟨q,hq,hquery,hl,hn,he⟩
    rcases Nat.lt_succ_iff_lt_or_eq.mp hq with hq | rfl
    · obtain ⟨hends,hnested⟩ := he i i.lt_succ_self hq
      refine .inr ⟨⟨q,hq,hquery,hl,((unbroken_succ (by omega) hu).mp hn).1,fun r hri => ?_⟩,?_,
        hnested⟩
      · exact he r (Nat.lt_succ_of_lt hri)
      · exact fun h => hends h.1 h.2
    · exact .inl ⟨hquery,hl⟩
  · rintro (⟨hquery,hl⟩ | ⟨⟨q,hq,hquery,hl,hn,he⟩,hi⟩)
    · refine ⟨i,i.lt_succ_self,hquery,hl,?_,fun r hri hr => by omega⟩
      exact (unbroken_succ i.lt_succ_self hu).mpr ⟨fun r v hr hri => by omega,hs⟩
    · refine ⟨q,Nat.lt_succ_of_lt hq,hquery,hl,(unbroken_succ (by omega) hu).mpr ⟨hn,hs⟩,?_⟩
      intro r hri hr
      rcases Nat.lt_succ_iff_lt_or_eq.mp hri with hri | rfl
      · exact he r hri hr
      · exact ⟨fun her hlr => hi.1 ⟨her,hlr⟩,hi.2⟩

/-- Neither a query nor an end of columns changes nothing. -/
theorem columnsRemembered_succ_of_other (hu : tokens[i + 1]? = some u)
    (hs : u.startsStatement = false) (hq : ¬IsQuery tokens i) (he : ¬EndsColumns tokens i) :
    ColumnsRemembered tokens l (i + 1) ↔ ColumnsRemembered tokens l i := by
  rw [columnsRemembered_succ hu hs,or_iff_right fun h => hq h.1]
  exact and_iff_left ⟨fun h => he h.1,fun h => hq h.1⟩

/-! Levels: the brackets and braces of a layout are different from each other -/

theorem openBefore_descending (tokens : List Token) (i : Nat) :
    (openBefore tokens i).Pairwise (· > ·) := by
  induction i with
  | zero => exact .nil
  | succ i ih =>
    refine List.Pairwise.sublist (openBefore_suffix tokens i).sublist ?_
    exact List.pairwise_cons.mpr ⟨fun j hj => lt_of_mem_openBefore hj,ih⟩

theorem Frame.mem_of_levelIn (h : f.levelIn rest = some j) :
    j ∈ rest.map (·.1) ++ f.brace.toList := by
  cases rest with
  | nil =>
    rw [List.map_nil,List.nil_append,Option.mem_toList]
    exact h
  | cons b rest =>
    obtain rfl := Option.some.inj h
    exact List.mem_cons_self

/-- What a level stands for is open in its frame. -/
theorem Frame.mem_opened_of_levelIn (hr : rest <:+ f.brackets) (h : f.levelIn rest = some j) :
    j ∈ f.opened := by
  rcases List.mem_append.mp (mem_of_levelIn h) with hj | hj
  · exact List.mem_append_left _ ((hr.map (·.1)).subset hj)
  · exact List.mem_append_right _ hj

theorem exists_cons_suffix {α : Type} {as bs : List α} (h : as <:+ bs) (hne : as ≠ bs) :
    ∃ a, a :: as <:+ bs := by
  induction bs with
  | nil => exact absurd (List.suffix_nil.mp h) hne
  | cons b bs ih =>
    have hs := (List.suffix_cons_iff.mp h).resolve_left hne
    by_cases he : as = bs
    · exact ⟨b,he ▸ List.suffix_rfl⟩
    · obtain ⟨a,ha⟩ := ih hs he
      exact ⟨a,ha.trans (List.suffix_cons b bs)⟩

namespace Layout.Tracks
variable {s : Layout}

/-- No level of an outer lambda is one of the innermost. -/
theorem levelIn_outer (h : s.Tracks tokens i) (hg : g ∈ s.outer) (hr : rest <:+ g.brackets)
    (hr' : rest' <:+ s.inner.brackets) : g.levelIn rest ≠ s.inner.levelIn rest' := by
  intro he
  have hd := openBefore_descending tokens i
  rw [← h.opened,Layout.opened,List.flatMap_cons,List.pairwise_append] at hd
  cases hl : s.inner.levelIn rest' with
  | none =>
    rw [Frame.levelIn,Option.or_eq_none_iff] at hl
    rw [h.outer_of_brace hl.2] at hg
    cases hg
  | some j =>
    have hinner := Frame.mem_opened_of_levelIn hr' hl
    have houter := Frame.mem_opened_of_levelIn hr (he.trans hl)
    exact lt_irrefl j (hd.2.2 j hinner j (List.mem_flatMap.mpr ⟨g,hg,houter⟩))

theorem levelIn_suffix (h : s.Tracks tokens i) (hr : rest <:+ s.inner.brackets)
    (hne : rest ≠ s.inner.brackets) : s.inner.levelIn rest ≠ level tokens i := by
  intro he
  have hd := openBefore_descending tokens i
  rw [← h.opened,opened_eq,← List.append_assoc,List.pairwise_append] at hd
  cases hb : s.inner.brackets with
  | nil =>
    rw [hb] at hr hne
    exact hne (List.suffix_nil.mp hr)
  | cons b bs =>
    rw [hb] at hr hne hd
    have hl : level tokens i = some b.1 := h.level_of_head? (by rw [hb]; rfl)
    have hsuffix := (List.suffix_cons_iff.mp hr).resolve_left hne
    have hmem : b.1 ∈ bs.map (·.1) ++ s.inner.brace.toList := by
      rcases List.mem_append.mp (Frame.mem_of_levelIn (he.trans hl)) with hj | hj
      · exact List.mem_append_left _ ((hsuffix.map (·.1)).subset hj)
      · exact List.mem_append_right _ hj
    exact lt_irrefl b.1 ((List.pairwise_cons.mp hd.1).1 b.1 hmem)

/-- An open bracket stands directly inside the next one outwards. -/
theorem level_of_bracket (h : s.Tracks tokens i) {b : Nat × Role}
    (hr : b :: rest <:+ s.inner.brackets) : level tokens b.1 = s.inner.levelIn rest := by
  obtain ⟨front,hf⟩ := hr
  have hs : b.1 :: (rest.map (·.1) ++ (s.inner.brace.toList ++ s.outer.flatMap Frame.opened)) <:+
      openBefore tokens i := by
    refine ⟨front.map (·.1),?_⟩
    rw [← h.opened,opened_eq,← hf,List.map_append,List.map_cons,List.append_assoc,List.cons_append]
  rw [level,openBefore_of_suffix hs,List.head?_append,List.head?_map,List.head?_append,
    Frame.levelIn]
  cases hb : s.inner.brace with
  | none =>
    rw [h.outer_of_brace hb]
    rfl
  | some j => rfl

/-- The brackets around a token in its lambda are those of the innermost frame. -/
theorem bracketsAround_eq (h : s.Tracks tokens i) :
    bracketsAround tokens i = s.inner.brackets.map (·.1) := by
  have hpos : ∀ j ∈ s.inner.brackets.map (·.1), (kindAt tokens j != some .openBrace) = true := by
    intro j hj
    obtain ⟨c,hc,rfl⟩ := List.mem_map.mp hj
    rw [h.shapes c hc,bne_iff_ne]
    exact fun he => shape_ne_openBrace _ (Option.some.inj he)
  rw [bracketsAround,← h.opened,opened_eq,List.takeWhile_append_of_pos hpos]
  cases hb : s.inner.brace with
  | none =>
    rw [h.outer_of_brace hb]
    exact List.append_nil _
  | some j =>
    rw [Option.toList_some,List.singleton_append,List.takeWhile_cons_of_neg,List.append_nil]
    rw [(h.sound.inner.brace j hb).2,bne_self_eq_false]
    exact Bool.false_ne_true

/-- In the innermost lambda a query is nested in every level but its own. -/
theorem nestedQuery_inner (h : s.Tracks tokens i) (hq : IsQuery tokens i)
    (hr : rest <:+ s.inner.brackets) (hne : rest ≠ s.inner.brackets) :
    NestedQuery tokens (s.inner.levelIn rest) i := by
  obtain ⟨b,hb⟩ := exists_cons_suffix hr hne
  refine ⟨hq,b.1,?_,h.level_of_bracket hb⟩
  rw [h.bracketsAround_eq]
  exact List.mem_map_of_mem (hb.subset List.mem_cons_self)

/-- No query is nested in the levels of the lambdas around its own. -/
theorem not_nestedQuery_outer (h : s.Tracks tokens i) (hg : g ∈ s.outer)
    (hr : rest <:+ g.brackets) : ¬NestedQuery tokens (g.levelIn rest) i := by
  rintro ⟨-,j,hj,hl⟩
  rw [h.bracketsAround_eq] at hj
  obtain ⟨b,hb,rfl⟩ := List.mem_map.mp hj
  obtain ⟨front,rest',hbs⟩ := List.append_of_mem hb
  have hsuffix : b :: rest' <:+ s.inner.brackets := ⟨front,hbs.symm⟩
  rw [h.level_of_bracket hsuffix] at hl
  exact h.levelIn_outer hg hr ((List.suffix_cons b rest').trans hsuffix) hl.symm

end Layout.Tracks

/-! The number of brackets around the columns, and the column lists -/

/-- The number in a frame stands for the column list that is open at its level, and no other level
of the frame has one. -/
structure Frame.Columns (isOpen : Option Nat → Prop) (f : Frame) : Prop where
  within : ∀ n, f.columns = some n → n ≤ f.brackets.length
  open_iff : ∀ rest, rest <:+ f.brackets →
    (f.columns = some rest.length ↔ isOpen (f.levelIn rest))

namespace Frame.Columns
variable {isOpen isOpen' : Option Nat → Prop}

theorem fresh {brace : Option Nat} (h : ¬isOpen brace) : (Frame.fresh brace).Columns isOpen := by
  refine ⟨nofun,fun rest hr => ?_⟩
  obtain rfl := List.suffix_nil.mp hr
  exact iff_of_false nofun h

theorem keep (h : f.Columns isOpen)
    (hsame : ∀ rest, rest <:+ f.brackets → (isOpen (f.levelIn rest) ↔ isOpen' (f.levelIn rest))) :
    f.Columns isOpen' :=
  ⟨h.within,fun rest hr => (h.open_iff rest hr).trans (hsame rest hr)⟩

theorem push (h : f.Columns isOpen) (hi : ¬isOpen (some i)) (role : Role) :
    (f.push i role).Columns isOpen := by
  refine ⟨fun n hn => Nat.le_succ_of_le (h.within n hn),fun rest hr => ?_⟩
  rcases List.suffix_cons_iff.mp hr with rfl | hr
  · exact iff_of_false (fun hn => Nat.not_succ_le_self _ (h.within _ hn)) hi
  · exact h.open_iff rest hr

theorem close (h : f.Columns isOpen) (round : Bool) : (f.close round).Columns isOpen := by
  rw [Frame.close]
  split
  · exact h
  · rename_i b bs hb
    have hsuffix : bs <:+ f.brackets :=
      (List.suffix_cons b bs).trans (hb ▸ List.dropWhile_suffix _)
    refine ⟨fun n hn => ?_,fun rest hr => ?_⟩
    · exact of_decide_eq_true (Option.filter_eq_some_iff.mp hn).2
    · refine Iff.trans ?_ (h.open_iff rest (hr.trans hsuffix))
      rw [Option.filter_eq_some_iff]
      exact and_iff_left (decide_eq_true hr.length_le)

/-- Within its brackets, a semicolon does what a `from` does. -/
theorem separate_eq (h : f.Columns isOpen) : f.separate = f.closeColumns := by
  rw [Frame.separate,Frame.closeColumns]
  cases hc : f.columns with
  | none => rfl
  | some n =>
    have hn := h.within n hc
    have hsame : decide (n < f.brackets.length) = (n != f.brackets.length) := by
      rw [Bool.eq_iff_iff,decide_eq_true_eq,bne_iff_ne]
      omega
    rw [Option.filter_some,Option.filter_some,hsame]

theorem closeColumns (h : f.Columns isOpen) (hclosed : ¬isOpen' (f.levelIn f.brackets))
    (hsame : ∀ rest, rest <:+ f.brackets → rest ≠ f.brackets →
      (isOpen (f.levelIn rest) ↔ isOpen' (f.levelIn rest))) : f.closeColumns.Columns isOpen' := by
  refine ⟨fun n hn => h.within n (Option.filter_eq_some_iff.mp hn).1,fun rest hr => ?_⟩
  change f.columns.filter _ = some rest.length ↔ isOpen' (f.levelIn rest)
  rw [Option.filter_eq_some_iff]
  by_cases hrest : rest = f.brackets
  · subst hrest
    exact iff_of_false (fun hc => bne_iff_ne.mp hc.2 rfl) hclosed
  · have hlength : rest.length ≠ f.brackets.length := fun h => hrest (hr.eq_of_length h)
    rw [and_iff_left (bne_iff_ne.mpr hlength),h.open_iff rest hr]
    exact hsame rest hr hrest

theorem openColumns (hopen : isOpen (f.levelIn f.brackets))
    (hclear : ∀ rest, rest <:+ f.brackets → rest ≠ f.brackets → ¬isOpen (f.levelIn rest)) :
    f.openColumns.Columns isOpen := by
  refine ⟨fun n hn => (Option.some.inj hn).ge,fun rest hr => ?_⟩
  change some f.brackets.length = some rest.length ↔ isOpen (f.levelIn rest)
  by_cases hrest : rest = f.brackets
  · subst hrest
    exact iff_of_true rfl hopen
  · refine iff_of_false (fun hc => hrest (hr.eq_of_length (Option.some.inj hc).symm)) ?_
    exact hclear rest hr hrest

theorem admitsAssignment_iff (h : f.Columns isOpen) : f.admitsAssignment = true ↔
    ¬(f.top? = some .table ∨ f.top? = some .keys ∨ f.top? = some .params) ∧
      ¬f.columns = some f.brackets.length := by
  rw [Frame.admitsAssignment,Bool.and_eq_true]
  refine and_congr ?_ ?_
  · cases f.top? with
    | none => simp
    | some role => cases role <;> simp
  · cases hc : f.columns with
    | none => simp
    | some n =>
      have := h.within n hc
      simp only [Option.all_some,decide_eq_true_eq,Option.some.injEq]
      omega

end Frame.Columns

section
variable {s : Layout} (hu : tokens[i + 1]? = some u) (hs : u.startsStatement = false)
include hu hs

/-! What a query, the end of a column list and any other token do to the number -/

theorem columns_kept (hc : f.Columns (ColumnsRemembered tokens · i)) (hq : ¬IsQuery tokens i)
    (he : ¬EndsColumns tokens i) : f.Columns (ColumnsRemembered tokens · (i + 1)) :=
  hc.keep fun _ _ => (columnsRemembered_succ_of_other hu hs hq he).symm

theorem columns_closed (h : s.Tracks tokens i)
    (hc : s.inner.Columns (ColumnsRemembered tokens · i)) (hq : ¬IsQuery tokens i)
    (he : EndsColumns tokens i) :
    s.inner.closeColumns.Columns (ColumnsRemembered tokens · (i + 1)) := by
  refine hc.closeColumns ?_ fun rest hr hrest => ?_
  · rw [columnsRemembered_succ hu hs,or_iff_right fun hi => hq hi.1]
    exact fun hi => hi.2.1 ⟨he,h.level_eq⟩
  · rw [columnsRemembered_succ hu hs,or_iff_right fun hi => hq hi.1]
    exact (and_iff_left ⟨fun hi => h.levelIn_suffix hr hrest hi.2.symm,fun hi => hq hi.1⟩).symm

/-- A query makes a lambda forget the columns that the query is nested in. -/
theorem columns_opened (h : s.Tracks tokens i) (hq : IsQuery tokens i) :
    s.inner.openColumns.Columns (ColumnsRemembered tokens · (i + 1)) := by
  refine .openColumns ?_ fun rest hr hrest => ?_
  · exact (columnsRemembered_succ hu hs).mpr (.inl ⟨hq,h.level_eq⟩)
  · rw [columnsRemembered_succ hu hs,
      or_iff_right fun hi => h.levelIn_suffix hr hrest hi.2.symm]
    exact fun hi => hi.2.2 (h.nestedQuery_inner hq hr hrest)

variable (h : s.Tracks tokens i) (ht : tokens[i]? = some t)
include h ht

/-- In the innermost lambda a token leaves the number right. -/
theorem columns_moved (hc : s.inner.Columns (ColumnsRemembered tokens · i))
    (following : Option Token) :
    (s.inner.moved i t following).Columns (ColumnsRemembered tokens · (i + 1)) := by
  have hkeep := columns_kept hu hs hc
  have hclose := columns_closed hu hs h hc
  have hopen := columns_opened hu hs h
  rw [isQuery_iff ht] at hkeep hclose hopen
  rw [endsColumns_iff ht] at hkeep hclose
  rw [Frame.moved]
  split
  · rename_i hk
    exact (hkeep (by simp [hk]) (by simp [hk])).push not_remembered_self _
  · rename_i hk
    exact (hkeep (by simp [hk]) (by simp [hk])).push not_remembered_self _
  · rename_i hk
    exact (hkeep (by simp [hk]) (by simp [hk])).close true
  · rename_i hk
    exact (hkeep (by simp [hk]) (by simp [hk])).close false
  · rename_i hk
    rw [hc.separate_eq]
    exact hclose (by simp [hk]) (.inl hk)
  · rename_i hk
    split
    · rename_i hq
      exact hopen ⟨hk,List.contains_iff_mem.mp hq⟩
    · rename_i hq
      have hquery := fun h : t.kind = .keyword ∧ t.image ∈ Keywords.queries =>
        hq (List.contains_iff_mem.mpr h.2)
      split
      · rename_i hfrom
        exact hclose hquery (.inr ⟨hk,hfrom⟩)
      · rename_i hfrom
        refine hkeep hquery fun he => ?_
        rcases he with he | he
        · rw [hk] at he
          cases he
        · exact hfrom he.2
  · rename_i hopen hround hsquare hclose hsemicolon hkeyword
    exact hkeep (fun hq => hkeyword hq.1) (fun he => he.elim hsemicolon fun he => hkeyword he.1)

/-- Every token leaves the numbers of all open lambdas right. -/
theorem columns_move
    (hc : ∀ f ∈ s.inner :: s.outer, f.Columns (ColumnsRemembered tokens · i)) :
    ∀ f ∈ (s.move i t tokens[i + 1]?).inner :: (s.move i t tokens[i + 1]?).outer,
      f.Columns (ColumnsRemembered tokens · (i + 1)) := by
  obtain ⟨hinner,houter⟩ := List.forall_mem_cons.mp hc
  have hbrace : t.kind = .openBrace ∨ t.kind = .closeBrace →
      ∀ f ∈ s.inner :: s.outer, f.Columns (ColumnsRemembered tokens · (i + 1)) := by
    intro hk f hf
    refine columns_kept hu hs (hc f hf) ?_ ?_
    · rw [isQuery_iff ht]
      rcases hk with hk | hk <;> simp [hk]
    · rw [endsColumns_iff ht]
      rcases hk with hk | hk <;> simp [hk]
  obtain ⟨hk,hm⟩ | ⟨hk,-,hm⟩ | ⟨hk,f,fs,ho,hm⟩ | ⟨-,-,hm⟩ := s.move_cases i t tokens[i + 1]?
  · rw [hm]
    exact List.forall_mem_cons.mpr ⟨.fresh not_remembered_self,hbrace (.inl hk)⟩
  · rw [hm]
    exact hbrace (.inr hk)
  · rw [hm,← ho]
    exact fun f hf => hbrace (.inr hk) f (List.mem_cons_of_mem _ hf)
  · rw [hm]
    refine List.forall_mem_cons.mpr ⟨columns_moved hu hs h ht hinner _,fun f hf => ?_⟩
    refine (houter f hf).keep fun rest hr => ?_
    -- what begins or ends in this lambda does so at a level of its own
    have hne : level tokens i ≠ f.levelIn rest := fun he =>
      h.levelIn_outer hf hr List.suffix_rfl (he.symm.trans h.level_eq)
    rw [columnsRemembered_succ hu hs,or_iff_right fun hi => hne hi.2]
    exact (and_iff_left ⟨fun hi => hne hi.2,h.not_nestedQuery_outer hf hr⟩).symm

end

/-- In every lambda that is open in front of a token the number stands for the column list that is
remembered. -/
theorem remembered_reached (ns : Option Text) (ht : tokens[i]? = some t) :
    ∀ f ∈ ((reached 0 (.start ns) tokens i).enter t).inner ::
      ((reached 0 (.start ns) tokens i).enter t).outer,
        f.Columns (ColumnsRemembered tokens · i) := by
  have hstart : ∀ {i} ns, ¬ColumnsRemembered tokens none i →
      ∀ f ∈ (Layout.start ns).inner :: (Layout.start ns).outer,
        f.Columns (ColumnsRemembered tokens · i) :=
    fun ns h => List.forall_mem_cons.mpr ⟨.fresh h,nofun⟩
  induction i generalizing t with
  | zero =>
    have hnone : ¬ColumnsRemembered tokens none 0 := fun ⟨q,hq,_⟩ => Nat.not_lt_zero q hq
    rw [reached,Layout.enter]
    split <;> exact hstart _ hnone
  | succ i ih =>
    have hi := Nat.lt_of_succ_lt (List.getElem?_eq_some_iff.mp ht).1
    have hprevious : tokens[i]? = some tokens[i] := List.getElem?_eq_getElem hi
    rw [Layout.enter]
    split
    · rename_i hs
      exact hstart _ (not_remembered_of_startsStatement ht hs)
    · rename_i hs
      rw [reached_succ hprevious,Nat.zero_add]
      exact columns_move ht (Bool.eq_false_iff.mpr hs) (tracks_reached ns hprevious) hprevious
        (ih hprevious)

end
end QScope.BracketLayout
