import QScope.Proofs.AssignmentLinks
import QScope.Proofs.ParsedTokens
import QScope.Proofs.Searches

/-! # Navigation: from each occurrence of a binding an editor is led to the same places

No two tokens share a position, so each range that an editor is shown leads it back to the token it
comes from, and to what is found of the binding of that. -/
namespace QScope.Editing
open Resolution Annotating

/-- What references, definitions and renames at a position have to do with each other, and with
those at the positions within the references. -/
structure Navigable (tokens : List AnnotatedToken) (p : Position) : Prop where
  nonempty : ∀ r ∈ locations .reference tokens p, r.Holds r.start
  references : ∀ r ∈ locations .reference tokens p, ∀ q, r.Holds q →
    locations .reference tokens q = locations .reference tokens p
  definitions : ∀ r ∈ locations .reference tokens p, ∀ q, r.Holds q →
    locations .definition tokens q = locations .definition tokens p
  renames : ∀ r ∈ locations .reference tokens p, ∀ q, r.Holds q → ∀ w,
    renameEdits tokens q w = renameEdits tokens p w
  edited : ∀ w, (renameEdits tokens p w).map (·.range) = locations .reference tokens p
  own : ∀ t, cursorToken tokens p = some t → t.isIdentifier = true →
    locations .reference tokens p ≠ [] → t.span.range ∈ locations .reference tokens p
  sublist : (locations .definition tokens p).Sublist (locations .reference tokens p)
  defined : locations .definition tokens p = [] ↔ locations .reference tokens p = []
  increasing : (locations .reference tokens p).Pairwise fun r s => r.start < s.start
  disjoint : (locations .reference tokens p).Pairwise fun r s => ∀ q, ¬(r.Holds q ∧ s.Holds q)

/-- The names that are bound to something have ranges of their own, each in one of the lists of
references, and nothing else is in these lists. -/
structure Partitioned (tokens : List AnnotatedToken) : Prop where
  distinct : tokens.Pairwise fun t u => t.span.range ≠ u.span.range
  bound : ∀ p, ∀ r ∈ locations .reference tokens p, ∃ t ∈ tokens,
    (Bindings.ofTokens tokens).resolve t ≠ none ∧ t.span.range = r
  covered : ∀ t ∈ tokens, (Bindings.ofTokens tokens).resolve t ≠ none →
    ∃! l : List Range, t.span.range ∈ l ∧ ∃ p, l = locations .reference tokens p

section
variable {tokens : List AnnotatedToken} {t u : AnnotatedToken} {p q : Position} {r : Range}
  {binding : Binding}

/-! Tokens by their positions -/

theorem range_start_lt (h : Spanned tokens) (ht : t ∈ tokens) :
    t.span.range.start < t.span.range.stop := by
  have hf := h.forward t ht
  rw [Span.range_of_isPositive (h.positive t ht).1 (h.positive t ht).2,Position.lt_iff]
  rw [Position.le_iff] at hf
  simp only [Position.zeroBased]
  omega

theorem holds_start (h : Spanned tokens) (ht : t ∈ tokens) :
    t.span.range.Holds t.span.range.start :=
  ⟨le_rfl,range_start_lt h ht⟩

/-- The ranges of tokens follow each other. -/
theorem ranges_ordered (h : Spanned tokens) :
    tokens.Pairwise fun t u => t.span.range.stop ≤ u.span.range.start :=
  h.ordered.imp_of_mem fun ht hu hlt => Span.range_stop_le (h.positive _ ht) (h.positive _ hu) hlt

theorem eq_of_contains (h : Spanned tokens) (ht : t ∈ tokens) (hu : u ∈ tokens)
    (hp : t.span.contains p = true) (hp' : u.span.contains p = true) : t = u := by
  have : Std.Symm fun t u : AnnotatedToken =>
      t.span.stop < u.span.start ∨ u.span.stop < t.span.start := ⟨fun _ _ => Or.symm⟩
  have hpair : tokens.Pairwise fun t u =>
      t.span.stop < u.span.start ∨ u.span.stop < t.span.start := h.ordered.imp Or.inl
  simp only [Span.contains,Bool.and_eq_true,decide_eq_true_eq] at hp hp'
  by_contra hne
  rcases hpair.forall ht hu hne with hlt | hlt
  · exact lt_irrefl _ ((hp'.1.trans hp.2).trans_lt hlt)
  · exact lt_irrefl _ ((hp.1.trans hp'.2).trans_lt hlt)

/-- Within the range of a token the cursor is on that token. -/
theorem cursorToken_of_holds (h : Spanned tokens) (ht : t ∈ tokens) (hq : t.span.range.Holds q) :
    cursorToken tokens q = some t := by
  rw [Span.holds_range_iff (h.positive t ht).1 (h.positive t ht).2] at hq
  have hfind : tokens.find? (·.span.contains q.oneBased) = some t :=
    (find?_eq_some_iff_of_unique fun x hx y hy hxp hyp => eq_of_contains h hx hy hxp hyp).mpr
      ⟨ht,hq⟩
  change (tokens.find? (·.span.contains q.oneBased)).or _ = some t
  rw [hfind,Option.some_or]

/-! Locations by the binding at the cursor -/

theorem definitions_eq : locations .definition tokens p =
    (((cursorBinding tokens p).elim [] (occurrences tokens)).filter (·.defines)).map
      (·.span.range) := by
  rw [locations,found_eq (show Search.definition ≠ .completion from nofun)]
  rfl

theorem references_eq : locations .reference tokens p =
    ((cursorBinding tokens p).elim [] (occurrences tokens)).map (·.span.range) := by
  rw [locations,found_eq (show Search.reference ≠ .completion from nofun),
    filter_keeps .reference nofun]

theorem renameEdits_eq_map (w : Text) : renameEdits tokens p w =
    ((cursorBinding tokens p).elim [] (occurrences tokens)).map
      fun t => ⟨t.span.range,replacement t w⟩ := by
  rw [renameEdits,found_eq (show Search.rename ≠ .completion from nofun),
    filter_keeps .rename nofun]

theorem mem_references : r ∈ locations .reference tokens p ↔
    ∃ binding, cursorBinding tokens p = some binding ∧
      ∃ t ∈ occurrences tokens binding, t.span.range = r := by
  rw [references_eq,List.mem_map]
  cases cursorBinding tokens p <;> simp

/-- A bound name is among the references of its binding. -/
theorem range_mem_references (hc : cursorToken tokens p = some t)
    (hb : (Bindings.ofTokens tokens).resolve t = some binding) :
    t.span.range ∈ locations .reference tokens p :=
  mem_references.mpr ⟨binding,by rw [cursorBinding,hc,Option.bind_some,hb],t,
    mem_occurrences.mpr ⟨mem_of_cursorToken hc,hb⟩,rfl⟩

/-- The binding is the same within all references. -/
theorem cursorBinding_of_holds (h : Spanned tokens) (hr : r ∈ locations .reference tokens p)
    (hq : r.Holds q) : cursorBinding tokens q = cursorBinding tokens p := by
  obtain ⟨binding,hb,t,ht,rfl⟩ := mem_references.mp hr
  obtain ⟨htm,htb⟩ := mem_occurrences.mp ht
  rw [cursorBinding,cursorToken_of_holds h htm hq,Option.bind_some,htb,hb]

/-- Something is defined wherever something is referred to. -/
theorem definitions_eq_nil :
    locations .definition tokens p = [] ↔ locations .reference tokens p = [] := by
  rw [references_eq,definitions_eq,List.map_eq_nil_iff,List.map_eq_nil_iff]
  cases hb : cursorBinding tokens p with
  | none => rfl
  | some binding =>
    obtain ⟨t,ht,htb⟩ := Option.bind_eq_some_iff.mp hb
    obtain ⟨u,hu,hd,hub⟩ := exists_defines htb
    have hmem : u ∈ occurrences tokens binding := mem_occurrences.mpr ⟨hu,hub⟩
    have hdef : u ∈ (occurrences tokens binding).filter (·.defines) :=
      List.mem_filter.mpr ⟨hmem,hd⟩
    exact iff_of_false (List.ne_nil_of_mem hdef) (List.ne_nil_of_mem hmem)

theorem references_ordered (h : Spanned tokens) :
    (locations .reference tokens p).Pairwise fun r s => r.stop ≤ s.start := by
  rw [references_eq,List.pairwise_map]
  cases cursorBinding tokens p with
  | none => exact .nil
  | some binding => exact (ranges_ordered h).sublist List.filter_sublist

theorem start_lt_of_mem (h : Spanned tokens) (hr : r ∈ locations .reference tokens p) :
    r.start < r.stop := by
  obtain ⟨binding,-,t,ht,rfl⟩ := mem_references.mp hr
  exact range_start_lt h (mem_occurrences.mp ht).1

theorem navigable_of_spanned (h : Spanned tokens) (p : Position) : Navigable tokens p where
  nonempty r hr := ⟨le_rfl,start_lt_of_mem h hr⟩
  references r hr q hq := by rw [references_eq,references_eq,cursorBinding_of_holds h hr hq]
  definitions r hr q hq := by
    rw [definitions_eq,definitions_eq,cursorBinding_of_holds h hr hq]
  renames r hr q hq w := by
    rw [renameEdits_eq_map,renameEdits_eq_map,cursorBinding_of_holds h hr hq]
  edited w := by
    rw [renameEdits_eq_map,references_eq,List.map_map]
    rfl
  own t hc hi hne := by
    cases hb : (Bindings.ofTokens tokens).resolve t with
    | some binding => exact range_mem_references hc hb
    | none =>
      refine absurd ?_ hne
      rw [references_eq,cursorBinding,hc,Option.bind_some,hb]
      rfl
  sublist := by
    rw [references_eq,definitions_eq]
    exact List.filter_sublist.map _
  defined := definitions_eq_nil
  increasing := (references_ordered h).imp_of_mem fun hr _ hle =>
    (start_lt_of_mem h hr).trans_le hle
  disjoint := (references_ordered h).imp fun hle q hq =>
    lt_irrefl q ((hq.1.2.trans_le hle).trans_le hq.2.1)

theorem partitioned_of_spanned (h : Spanned tokens) : Partitioned tokens where
  distinct := (ranges_ordered h).imp_of_mem fun ht _ hle he =>
    lt_irrefl _ ((range_start_lt h ht).trans_le (hle.trans_eq (congrArg Range.start he).symm))
  bound p r hr := by
    obtain ⟨binding,-,t,ht,rfl⟩ := mem_references.mp hr
    obtain ⟨htm,htb⟩ := mem_occurrences.mp ht
    exact ⟨t,htm,by rw [htb]; exact nofun,rfl⟩
  covered t ht hb := by
    have hstart := holds_start h ht
    obtain ⟨binding,hb⟩ := Option.ne_none_iff_exists'.mp hb
    refine ⟨_,⟨range_mem_references (cursorToken_of_holds h ht hstart) hb,_,rfl⟩,?_⟩
    rintro l ⟨hl,p,rfl⟩
    rw [references_eq,references_eq,cursorBinding_of_holds h hl hstart]

/-- An editor that goes to a reference is where it could have asked for the same references, and
each bound name of a text is in one list of references. -/
theorem parse_navigable (file t : Text) :
    (∀ p, Navigable (parse file t) p) ∧ Partitioned (parse file t) :=
  ⟨navigable_of_spanned (parse_spanned file t),partitioned_of_spanned (parse_spanned file t)⟩

end

end QScope.Editing
