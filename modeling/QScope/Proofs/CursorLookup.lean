import QScope.Proofs.AssignmentLinks
import QScope.Proofs.ParsedTokens
import QScope.Resolution

/-! # Cursor lookup: the token at a position is the one whose slice holds the offset there

Positions are in the order of the offsets that they come from. So the span of a token holds the
positions of its slice and no others, however many lines the slice extends over. -/
namespace QScope

/-- A span ends at the position in front of another one in its line. -/
def Span.endsBefore (s : Span) (p : Position) : Bool :=
  s.stop.line == p.line && s.stop.column + 1 == p.column

namespace Resolution
open Annotating Lexing

/-- The token at an index of a list, and the slice of the text that it is made of. -/
structure Takes (t : Text) (tokens : List AnnotatedToken) (i : Nat) (s : Nat × Nat)
    (x : AnnotatedToken) : Prop where
  slice : (slices t)[i]? = some s
  token : tokens[i]? = some x

/-- The token found at the position of an offset is the one whose slice holds the offset, or else
the one whose slice ends there, or else there is none; and no other token could be found. -/
structure LooksUp (file t : Text) (tokens : List AnnotatedToken) (o : Nat) : Prop where
  described : List.Forall₂ (Describes file t) (slices t) (tokens.map (·.toToken))
  inside : ∀ i s x, Takes t tokens i s x → s.1 ≤ o → o < s.2 →
    tokenAt tokens (.ofOffset t o) = some x
  behind : (∀ s ∈ slices t, ¬(s.1 ≤ o ∧ o < s.2)) → ∀ i s x, Takes t tokens i s x → s.2 = o →
    tokenAt tokens (.ofOffset t o) = some x
  nowhere : (∀ s ∈ slices t, ¬(s.1 ≤ o ∧ o < s.2)) → (∀ s ∈ slices t, s.2 ≠ o) →
    tokenAt tokens (.ofOffset t o) = none
  holding : ∀ (i k : Nat) (x y : AnnotatedToken), tokens[i]? = some x → tokens[k]? = some y →
    x.span.contains (.ofOffset t o) = true → y.span.contains (.ofOffset t o) = true → i = k
  ending : ∀ (i k : Nat) (x y : AnnotatedToken), tokens[i]? = some x → tokens[k]? = some y →
    x.span.endsBefore (.ofOffset t o) = true → y.span.endsBefore (.ofOffset t o) = true → i = k

section
variable {file t : Text} {tokens : List AnnotatedToken} {s r : Nat × Nat} {x y : AnnotatedToken}
  {token : Token} {i k o : Nat} {p : AnnotatedToken → Bool}

/-! Spans by the offsets of their slices -/

theorem contains_iff (hd : Describes file t s token) (hs : s.1 < s.2 ∧ s.2 ≤ t.length)
    (ho : o ≤ t.length) :
    token.span.contains (.ofOffset t o) = true ↔ s.1 ≤ o ∧ o < s.2 := by
  rw [Span.contains,Bool.and_eq_true,decide_eq_true_eq,decide_eq_true_eq,hd.start,hd.stop,
    Position.ofOffset_le_iff (by omega) ho,Position.ofOffset_le_iff ho (by omega)]
  omega

/-- The last character of a slice is in the line of what stands behind it. -/
theorem behind_stop (hd : Describes file t s token) :
    ⟨token.span.stop.line,token.span.stop.column + 1⟩ = Position.ofOffset t s.2 := by
  have hstart : token.span.start.IsPositive := hd.start ▸ Position.isPositive_ofOffset t s.1
  have hstop : token.span.stop.IsPositive := hd.stop ▸ Position.isPositive_ofOffset t (s.2 - 1)
  have hr := congrArg Range.stop hd.range
  rw [Span.range_of_isPositive hstart hstop] at hr
  obtain ⟨hline,hcolumn⟩ := Position.mk.inj hr
  rw [Position.mk.injEq]
  omega

theorem endsBefore_iff (hd : Describes file t s token) (hs : s.2 ≤ t.length) (ho : o ≤ t.length) :
    token.span.endsBefore (.ofOffset t o) = true ↔ s.2 = o := by
  rw [← Position.ofOffset_inj hs ho,← behind_stop hd,Span.endsBefore,Bool.and_eq_true,beq_iff_eq,
    beq_iff_eq,Position.mk.injEq]

/-! Tokens by their slices -/

theorem Takes.describes (h : Takes t tokens i s x)
    (hd : List.Forall₂ (Describes file t) (slices t) (tokens.map (·.toToken))) :
    Describes file t s x.toToken := by
  obtain ⟨hi,rfl⟩ := List.getElem?_eq_some_iff.mp h.slice
  obtain ⟨hk,rfl⟩ := List.getElem?_eq_some_iff.mp h.token
  have := hd.get hi (by rwa [List.length_map])
  simpa using this

theorem Takes.within (h : Takes t tokens i s x) : s.1 < s.2 ∧ s.2 ≤ t.length :=
  slices_within (List.mem_of_getElem? h.slice)

theorem exists_takes
    (hd : List.Forall₂ (Describes file t) (slices t) (tokens.map (·.toToken)))
    (hx : tokens[i]? = some x) : ∃ s, Takes t tokens i s x := by
  have hi := (List.getElem?_eq_some_iff.mp hx).1
  rw [← List.length_map (·.toToken),← hd.length_eq] at hi
  exact ⟨_,List.getElem?_eq_getElem hi,hx⟩

theorem slice_le (hs : (slices t)[i]? = some s) (hr : (slices t)[k]? = some r) (hik : i < k) :
    s.2 ≤ r.1 := by
  obtain ⟨hi,rfl⟩ := List.getElem?_eq_some_iff.mp hs
  obtain ⟨hk,rfl⟩ := List.getElem?_eq_some_iff.mp hr
  exact List.pairwise_iff_getElem.mp (slices_ordered t) i k hi hk hik

/-- A test of tokens that is one of their slices, and that no two slices pass unless they share
an offset. -/
structure Reads (t : Text) (tokens : List AnnotatedToken) (p : AnnotatedToken → Bool)
    (q : Nat × Nat → Prop) : Prop where
  takes : ∀ i x, tokens[i]? = some x → ∃ s, Takes t tokens i s x
  iff : ∀ i s x, Takes t tokens i s x → (p x = true ↔ q s)
  shared : ∀ s ∈ slices t, ∀ r ∈ slices t, q s → q r → s.1 < r.2 ∧ r.1 < s.2

namespace Reads
variable {q : Nat × Nat → Prop}

/-- One token at most passes the test. -/
theorem index_eq (h : Reads t tokens p q) (hx : tokens[i]? = some x) (hy : tokens[k]? = some y)
    (hpx : p x = true) (hpy : p y = true) : i = k := by
  obtain ⟨s,hs⟩ := h.takes i x hx
  obtain ⟨r,hr⟩ := h.takes k y hy
  have hsr := h.shared s (List.mem_of_getElem? hs.slice) r (List.mem_of_getElem? hr.slice)
    ((h.iff i s x hs).mp hpx) ((h.iff k r y hr).mp hpy)
  rcases lt_trichotomy i k with hlt | heq | hlt
  · have := slice_le hs.slice hr.slice hlt
    omega
  · exact heq
  · have := slice_le hr.slice hs.slice hlt
    omega

theorem find?_eq_some (h : Reads t tokens p q) (hx : Takes t tokens i s x) (hs : q s) :
    tokens.find? p = some x := by
  refine (find?_eq_some_iff_of_unique fun u hum v hvm hpu hpv => ?_).mpr
    ⟨List.mem_of_getElem? hx.token,(h.iff i s x hx).mpr hs⟩
  obtain ⟨j,hj⟩ := List.mem_iff_getElem?.mp hum
  obtain ⟨l,hl⟩ := List.mem_iff_getElem?.mp hvm
  rw [h.index_eq hj hl hpu hpv,hl] at hj
  exact (Option.some.inj hj).symm

theorem find?_eq_none (h : Reads t tokens p q) (hs : ∀ s ∈ slices t, ¬q s) :
    tokens.find? p = none := by
  refine List.find?_eq_none.mpr fun x hx hp => ?_
  obtain ⟨i,hi⟩ := List.mem_iff_getElem?.mp hx
  obtain ⟨s,ht⟩ := h.takes i x hi
  exact hs s (List.mem_of_getElem? ht.slice) ((h.iff i s x ht).mp hp)

end Reads

theorem reads_contains
    (hd : List.Forall₂ (Describes file t) (slices t) (tokens.map (·.toToken)))
    (ho : o ≤ t.length) :
    Reads t tokens (·.span.contains (.ofOffset t o)) fun s => s.1 ≤ o ∧ o < s.2 where
  takes _ _ := exists_takes hd
  iff _ _ _ h := contains_iff (h.describes hd) h.within ho
  shared s _ r _ hs hr := by omega

theorem reads_endsBefore
    (hd : List.Forall₂ (Describes file t) (slices t) (tokens.map (·.toToken)))
    (ho : o ≤ t.length) :
    Reads t tokens (·.span.endsBefore (.ofOffset t o)) fun s => s.2 = o where
  takes _ _ := exists_takes hd
  iff _ _ _ h := endsBefore_iff (h.describes hd) h.within.2 ho
  shared s hs r hr hso hro := by
    have := slices_within hs
    have := slices_within hr
    omega

theorem tokenAt_eq (tokens : List AnnotatedToken) (p : Position) : tokenAt tokens p =
    (tokens.find? (·.span.contains p)).or (tokens.find? (·.span.endsBefore p)) := rfl

/-- A text is looked up exactly, whatever is annotated to its tokens. -/
theorem tokenAt_looksUp (htokens : tokens.map (·.toToken) = tokenize file t) (ho : o ≤ t.length) :
    LooksUp file t tokens o := by
  have hd : List.Forall₂ (Describes file t) (slices t) (tokens.map (·.toToken)) :=
    htokens ▸ tokenize_described file t
  have hcontains := reads_contains hd ho
  have hends := reads_endsBefore hd ho
  constructor
  case described => exact hd
  case inside =>
    intro i s x h hs hr
    rw [tokenAt_eq,hcontains.find?_eq_some h ⟨hs,hr⟩,Option.some_or]
  case behind =>
    intro hout i s x h hs
    rw [tokenAt_eq,hcontains.find?_eq_none hout,Option.none_or,hends.find?_eq_some h hs]
  case nowhere =>
    intro hout hend
    rw [tokenAt_eq,hcontains.find?_eq_none hout,Option.none_or,hends.find?_eq_none hend]
  case holding => exact fun _ _ _ _ => hcontains.index_eq
  case ending => exact fun _ _ _ _ => hends.index_eq

end

/-- A string is found in its second line, too. -/
theorem tokenAt_looksUp_secondLine :
    (Annotating.parse [] "a \"b\nc\"d".toList).map (·.toToken) =
        tokenize [] "a \"b\nc\"d".toList ∧
      5 ≤ "a \"b\nc\"d".toList.length ∧
      tokenAt (Annotating.parse [] "a \"b\nc\"d".toList) ⟨2,1⟩ =
        some ((Annotating.parse [] "a \"b\nc\"d".toList).get ⟨1,by decide +kernel⟩) := by
  have htokens := Annotating.map_toToken_parse [] "a \"b\nc\"d".toList
  have hslice : (slices "a \"b\nc\"d".toList)[1]? = some (2,7) := by decide +kernel
  have hlooks := tokenAt_looksUp htokens (o := 5) (by decide)
  refine ⟨htokens,by decide,?_⟩
  exact hlooks.inside 1 (2,7) _ ⟨hslice,by decide +kernel⟩ (by decide) (by decide)

end Resolution
end QScope
