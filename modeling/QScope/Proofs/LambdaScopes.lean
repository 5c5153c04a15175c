import Mathlib.Data.List.Infix
import QScope.Proofs.LayoutRuns

/-! # Lambda scopes: the scope of a token is the innermost brace left open in its statement -/
namespace QScope.BracketLayout
open Assignments (kindAt)

/-- The number of lambdas that tokens open. -/
def opening (ts : List Token) : Nat := ts.countP (·.kind == .openBrace)

/-- The number of lambdas that tokens close. -/
def closing (ts : List Token) : Nat := ts.countP (·.kind == .closeBrace)

/-- No beginning of the tokens closes more lambdas than it opens. -/
def Sheltered (ts : List Token) : Prop := ∀ front, front <+: ts → closing front ≤ opening front

/-- The brace at index `j` opens a lambda that the token at index `i` stands in: no statement opens
behind the brace up to the token, and nothing in between closes the lambda. -/
structure Encloses (tokens : List Token) (j i : Nat) : Prop where
  before : j < i
  brace : kindAt tokens j = some .openBrace
  unbroken : Unbroken tokens j (i + 1)
  sheltered : Sheltered (between tokens j i)

/-- The last of the braces whose lambdas the token at index `i` stands in. -/
def Innermost (tokens : List Token) (i : Nat) : Option Nat → Prop
  | some j => Encloses tokens j i ∧ ∀ k, Encloses tokens k i → k ≤ j
  | none => ∀ k, ¬Encloses tokens k i

/-- The braces of the lambdas that the token at index `i` stands in, innermost first. -/
def enclosing (tokens : List Token) : Nat → List Nat
  | 0 => []
  | i + 1 =>
    if tokens[i + 1]?.any (·.startsStatement) then []
    else match kindAt tokens i with
      | some .openBrace => i :: enclosing tokens i
      | some .closeBrace => (enclosing tokens i).tail
      | _ => enclosing tokens i

section
variable {tokens : List Token} {ts : List Token} {i j k : Nat} {t u : Token}

/-! The counts of braces and the tokens in between, one token at a time -/

@[simp] theorem opening_concat (ts : List Token) (t : Token) :
    opening (ts ++ [t]) = opening ts + if t.kind = .openBrace then 1 else 0 := by
  simp [opening,List.countP_append,List.countP_cons]

@[simp] theorem closing_concat (ts : List Token) (t : Token) :
    closing (ts ++ [t]) = closing ts + if t.kind = .closeBrace then 1 else 0 := by
  simp [closing,List.countP_append,List.countP_cons]

theorem Sheltered.nil : Sheltered [] := by
  intro front hf
  rw [List.prefix_nil.mp hf]
  exact Nat.le_refl _

theorem Sheltered.closing_le (h : Sheltered ts) : closing ts ≤ opening ts :=
  h ts (List.prefix_refl ts)

theorem sheltered_iff_take :
    Sheltered ts ↔ ∀ k < ts.length + 1, closing (ts.take k) ≤ opening (ts.take k) := by
  constructor
  · intro h k _
    exact h _ (List.take_prefix k ts)
  · intro h front hf
    rw [List.prefix_iff_eq_take.mp hf]
    exact h _ (Nat.lt_succ_of_le hf.length_le)

instance (ts : List Token) : Decidable (Sheltered ts) := decidable_of_iff' _ sheltered_iff_take

theorem sheltered_concat :
    Sheltered (ts ++ [t]) ↔ Sheltered ts ∧ closing (ts ++ [t]) ≤ opening (ts ++ [t]) := by
  constructor
  · intro h
    exact ⟨fun front hf => h front (hf.trans (List.prefix_append ts [t])),h.closing_le⟩
  · rintro ⟨h,ht⟩ front hf
    rcases List.prefix_concat_iff.mp hf with rfl | hf
    · exact ht
    · exact h front hf

theorem between_self (tokens : List Token) (i : Nat) : between tokens i (i + 1) = [] :=
  List.drop_eq_nil_of_le (by rw [List.length_take]; omega)

theorem between_succ (hj : j < i) (ht : tokens[i]? = some t) :
    between tokens j (i + 1) = between tokens j i ++ [t] := by
  have hi := (List.getElem?_eq_some_iff.mp ht).1
  rw [between,between,List.take_add_one,ht,Option.toList_some,List.drop_append_of_le_length]
  rw [List.length_take]
  omega

theorem unbroken_succ (hj : j < i) (ht : tokens[i]? = some t) :
    Unbroken tokens j (i + 1) ↔ Unbroken tokens j i ∧ t.startsStatement = false := by
  constructor
  · intro h
    exact ⟨fun r u hr hi => h r u hr (Nat.lt_succ_of_lt hi),h i t hj i.lt_succ_self ht⟩
  · rintro ⟨h,hs⟩ r u hr hi hu
    rcases Nat.lt_succ_iff_lt_or_eq.mp hi with hi | rfl
    · exact h r u hr hi hu
    · rw [← Option.some.inj (ht.symm.trans hu)]
      exact hs

/-- Which lambdas a token stands in, from those that the token in front of it stands in. -/
theorem encloses_succ (ht : tokens[i]? = some t) (hu : tokens[i + 1]? = some u) :
    Encloses tokens j (i + 1) ↔ u.startsStatement = false ∧
      (j = i ∧ t.kind = .openBrace ∨ Encloses tokens j i ∧
        closing (between tokens j i ++ [t]) ≤ opening (between tokens j i ++ [t])) := by
  have hk := Assignments.kindAt_eq_some ht
  constructor
  · rintro ⟨hj,hb,hn,hs⟩
    obtain ⟨hn,hu⟩ := (unbroken_succ hj hu).mp hn
    refine ⟨hu,?_⟩
    rcases Nat.lt_succ_iff_lt_or_eq.mp hj with hj | rfl
    · rw [between_succ hj ht] at hs
      obtain ⟨hs,hc⟩ := sheltered_concat.mp hs
      exact .inr ⟨⟨hj,hb,hn,hs⟩,hc⟩
    · exact .inl ⟨rfl,Option.some.inj (hk.symm.trans hb)⟩
  · rintro ⟨hu',⟨rfl,hb⟩ | ⟨⟨hj,hb,hn,hs⟩,hc⟩⟩
    · refine ⟨j.lt_succ_self,hb ▸ hk,(unbroken_succ j.lt_succ_self hu).mpr ⟨?_,hu'⟩,?_⟩
      · intro r v hr hr' hv
        omega
      · rw [between_self]
        exact .nil
    · refine ⟨Nat.lt_succ_of_lt hj,hb,(unbroken_succ (Nat.lt_succ_of_lt hj) hu).mpr ⟨hn,hu'⟩,?_⟩
      rw [between_succ hj ht]
      exact sheltered_concat.mpr ⟨hs,hc⟩

/-! The stack of braces -/

/-- The braces of the lambdas around a token, the innermost first: the number of lambdas that are
still open behind a brace is its rank, and the braces outside are those around it. -/
structure Braces (tokens : List Token) (i : Nat) (js : List Nat) : Prop where
  mem : ∀ j, j ∈ js ↔ Encloses tokens j i
  descending : js.Pairwise (· > ·)
  rank : ∀ k j, js[k]? = some j →
    opening (between tokens j i) = closing (between tokens j i) + k
  outside : ∀ j rest, j :: rest <:+ js → enclosing tokens j = rest

theorem Braces.none (h : ∀ j, ¬Encloses tokens j i) : Braces tokens i [] :=
  ⟨fun j => ⟨nofun,fun hj => absurd hj (h j)⟩,.nil,by simp,by simp⟩

theorem Braces.before {js : List Nat} (h : Braces tokens i js) (hj : j ∈ js) : j < i :=
  ((h.mem j).mp hj).before

/-- Behind a brace that opens a lambda there is one more. -/
theorem Braces.opens (h : Braces tokens i (enclosing tokens i)) (ht : tokens[i]? = some t)
    (hu : tokens[i + 1]? = some u) (hs : u.startsStatement = false) (hk : t.kind = .openBrace) :
    Braces tokens (i + 1) (i :: enclosing tokens i) := by
  refine ⟨fun j => ?_,List.pairwise_cons.mpr ⟨fun j hj => h.before hj,h.descending⟩,?_,?_⟩
  · rw [encloses_succ ht hu,List.mem_cons,h.mem]
    constructor
    · rintro (rfl | hj)
      · exact ⟨hs,.inl ⟨rfl,hk⟩⟩
      · have := hj.sheltered.closing_le
        exact ⟨hs,.inr ⟨hj,by simp [hk]; omega⟩⟩
    · rintro ⟨-,⟨hj,-⟩ | ⟨hj,-⟩⟩
      · exact .inl hj
      · exact .inr hj
  · intro k j hj
    cases k with
    | zero =>
      obtain rfl : i = j := Option.some.inj hj
      rw [between_self]
      rfl
    | succ k =>
      have hr := h.rank k j hj
      rw [between_succ (h.before (List.mem_of_getElem? hj)) ht,opening_concat,closing_concat]
      simp only [hk,reduceCtorEq,↓reduceIte]
      omega
  · intro j rest hj
    rcases List.suffix_cons_iff.mp hj with hj | hj
    · obtain ⟨rfl,rfl⟩ := List.cons.inj hj
      rfl
    · exact h.outside j rest hj

/-- Behind a brace that closes a lambda there is one less. -/
theorem Braces.closes (h : Braces tokens i (enclosing tokens i)) (ht : tokens[i]? = some t)
    (hu : tokens[i + 1]? = some u) (hs : u.startsStatement = false) (hk : t.kind = .closeBrace) :
    Braces tokens (i + 1) (enclosing tokens i).tail := by
  have hlevel : ∀ k j, (enclosing tokens i)[k]? = some j →
      opening (between tokens j i ++ [t]) + 1 = closing (between tokens j i ++ [t]) + k := by
    intro k j hj
    have hr := h.rank k j hj
    rw [opening_concat,closing_concat]
    simp only [hk,reduceCtorEq,↓reduceIte]
    omega
  have htail : ∀ k : Nat, (enclosing tokens i).tail[k]? = (enclosing tokens i)[k + 1]? := by simp
  refine ⟨fun j => ?_,h.descending.tail,fun k j hj => ?_,fun j rest hj => ?_⟩
  · rw [encloses_succ ht hu,← h.mem]
    constructor
    · intro hj
      obtain ⟨k,hk⟩ := List.mem_iff_getElem?.mp hj
      have := hlevel (k + 1) j (htail k ▸ hk)
      exact ⟨hs,.inr ⟨List.mem_of_mem_tail hj,by omega⟩⟩
    · rintro ⟨-,⟨-,hb⟩ | ⟨hj,hc⟩⟩
      · exact absurd (hk.symm.trans hb) nofun
      · obtain ⟨k,hk⟩ := List.mem_iff_getElem?.mp hj
        have hl := hlevel k j hk
        cases k with
        | zero => omega
        | succ k => exact List.mem_of_getElem? ((htail k).trans hk)
  · rw [htail] at hj
    rw [between_succ (h.before (List.mem_of_getElem? hj)) ht]
    have := hlevel (k + 1) j hj
    omega
  · exact h.outside j rest (hj.trans (List.tail_suffix _))

/-- Behind any other token there are as many. -/
theorem Braces.stays (h : Braces tokens i (enclosing tokens i)) (ht : tokens[i]? = some t)
    (hu : tokens[i + 1]? = some u) (hs : u.startsStatement = false) (ho : t.kind ≠ .openBrace)
    (hc : t.kind ≠ .closeBrace) : Braces tokens (i + 1) (enclosing tokens i) := by
  refine ⟨fun j => ?_,h.descending,fun k j hj => ?_,h.outside⟩
  · rw [encloses_succ ht hu,← h.mem]
    constructor
    · intro hj
      have := ((h.mem j).mp hj).sheltered.closing_le
      exact ⟨hs,.inr ⟨hj,by simpa [ho,hc] using this⟩⟩
    · rintro ⟨-,⟨-,hb⟩ | ⟨hj,-⟩⟩
      · exact absurd hb ho
      · exact hj
  · rw [between_succ (h.before (List.mem_of_getElem? hj)) ht]
    simpa [ho,hc] using h.rank k j hj

theorem braces_enclosing (hi : i < tokens.length) : Braces tokens i (enclosing tokens i) := by
  induction i with
  | zero => exact .none fun j hj => absurd hj.before j.not_lt_zero
  | succ i ih =>
    have hu : tokens[i + 1]? = some tokens[i + 1] := List.getElem?_eq_getElem hi
    have ht : tokens[i]? = some tokens[i] := List.getElem?_eq_getElem (Nat.lt_of_succ_lt hi)
    have hk := Assignments.kindAt_eq_some ht
    have h := ih (Nat.lt_of_succ_lt hi)
    rw [enclosing,hu,Option.any_some,hk]
    cases hs : tokens[i + 1].startsStatement with
    | true =>
      refine .none fun j hj => ?_
      have := ((encloses_succ ht hu).mp hj).1
      simp [hs] at this
    | false =>
      rw [if_neg Bool.false_ne_true]
      split
      · rename_i hb
        exact h.opens ht hu hs (Option.some.inj hb)
      · rename_i hb
        exact h.closes ht hu hs (Option.some.inj hb)
      · rename_i ho hc
        exact h.stays ht hu hs (fun hb => ho (congrArg some hb)) fun hb => hc (congrArg some hb)

theorem Braces.innermost {js : List Nat} (h : Braces tokens i js) :
    Innermost tokens i js.head? := by
  cases js with
  | nil => exact fun j hj => absurd ((h.mem j).mpr hj) nofun
  | cons l js =>
    refine ⟨(h.mem l).mp List.mem_cons_self,fun j hj => ?_⟩
    rcases List.mem_cons.mp ((h.mem j).mpr hj) with rfl | hj
    · exact Nat.le_refl _
    · exact Nat.le_of_lt ((List.pairwise_cons.mp h.descending).1 j hj)

/-! The frames of a layout stand for the lambdas around a token -/

/-- Each frame has the brace of one lambda, the outermost frame has none. -/
def Layout.Nested (s : Layout) (js : List Nat) : Prop :=
  (s.inner :: s.outer).map (·.brace) = js.map some ++ [none]

theorem Frame.moved_brace (f : Frame) (i : Nat) (t : Token) (following : Option Token) :
    (f.moved i t following).brace = f.brace := by
  have hclose : ∀ round, (f.close round).brace = f.brace := by
    intro round
    rw [close]
    split <;> rfl
  rw [moved]
  split
  · rfl
  · rfl
  · exact hclose true
  · exact hclose false
  · rfl
  · split
    · rfl
    · split <;> rfl
  · rfl

section
variable {s : Layout} {js : List Nat}

theorem Layout.Nested.start (ns : Option Text) : (Layout.start ns).Nested [] := rfl

theorem Layout.Nested.eq_nil (h : s.Nested js) (ho : s.outer = []) : js = [] := by
  have hl := congrArg List.length h
  rw [ho] at hl
  simpa using hl

theorem Layout.Nested.enter (h : s.Nested js) (t : Token) :
    (s.enter t).Nested (if t.startsStatement then [] else js) := by
  rw [Layout.enter]
  split
  · rfl
  · exact h

theorem Layout.Nested.move (h : s.Nested js) (i : Nat) (t : Token) (following : Option Token) :
    (s.move i t following).Nested (match some t.kind with
      | some .openBrace => i :: js
      | some .closeBrace => js.tail
      | _ => js) := by
  obtain ⟨hk,hm⟩ | ⟨hk,ho,hm⟩ | ⟨hk,f,fs,ho,hm⟩ | ⟨hb,hc,hm⟩ := s.move_cases i t following
  · rw [hm,hk]
    exact congrArg (some i :: ·) h
  · rw [hm,hk]
    obtain rfl := h.eq_nil ho
    exact h
  · rw [hm,hk]
    rw [Nested,ho] at h
    cases js with
    | nil => simp at h
    | cons j js => exact (List.cons.inj h).2
  · rw [hm]
    have hn : Layout.Nested ⟨s.inner.moved i t following,s.outer,
        Namespaces.after s.ns (!s.outer.isEmpty) t following⟩ js := by
      rw [Nested,List.map_cons,Frame.moved_brace]
      exact h
    split
    · rename_i hk
      exact absurd (Option.some.inj hk) hb
    · rename_i hk
      exact absurd (Option.some.inj hk) hc
    · exact hn

theorem Layout.Nested.brace (h : s.Nested js) : s.inner.brace = js.head? := by
  cases js with
  | nil => exact (List.cons.inj h).1
  | cons j js => exact (List.cons.inj h).1

/-- A closing brace stands in the lambda around the one that it closes. -/
theorem Layout.Nested.scope (h : s.Nested js) (t : Token) :
    s.scope t = if t.kind = .closeBrace then js.tail.head? else js.head? := by
  rw [Layout.scope]
  cases js with
  | nil =>
    obtain ⟨hi,ho⟩ := List.cons.inj h
    rw [List.map_eq_nil_iff.mp ho]
    split <;> exact hi
  | cons j js =>
    obtain ⟨hi,ho⟩ := List.cons.inj h
    split
    · cases hs : s.outer with
      | nil => simp [hs] at ho
      | cons f fs =>
        rw [hs] at ho
        cases js with
        | nil => exact (List.cons.inj ho).1
        | cons l js => exact (List.cons.inj ho).1
    · exact hi

end

theorem nested_reached (ns : Option Text) (ht : tokens[i]? = some t) :
    ((reached 0 (.start ns) tokens i).enter t).Nested (enclosing tokens i) := by
  induction i generalizing t with
  | zero =>
    have h := (Layout.Nested.start ns).enter t
    rwa [ite_self] at h
  | succ i ih =>
    have hi := (List.getElem?_eq_some_iff.mp ht).1
    have hu : tokens[i]? = some tokens[i] := List.getElem?_eq_getElem (Nat.lt_of_succ_lt hi)
    have hk := Assignments.kindAt_eq_some hu
    rw [reached_succ hu,Nat.zero_add,enclosing,ht,Option.any_some,hk]
    exact ((ih hu).move i tokens[i] (some t)).enter t

/-- The scope of a token, from the braces around it. -/
theorem scope_eq (ns : Option Text) (ht : tokens[i]? = some t) :
    ((reached 0 (.start ns) tokens i).enter t).scope t =
      if t.kind = .closeBrace then (enclosing tokens i).tail.head?
      else (enclosing tokens i).head? :=
  (nested_reached ns ht).scope t

/-- A lambda around a token is around all tokens from its brace on. -/
theorem mem_enclosing_of_le (hi : i < tokens.length) (hj : j ∈ enclosing tokens i) (hjk : j < k)
    (hki : k ≤ i) : j ∈ enclosing tokens k := by
  have hk := braces_enclosing (Nat.lt_of_le_of_lt hki hi)
  have h := ((braces_enclosing hi).mem j).mp hj
  refine (hk.mem j).mpr ⟨hjk,h.brace,fun r t hr hrk => h.unbroken r t hr (by omega),?_⟩
  intro front hf
  refine h.sheltered front (hf.trans ?_)
  rw [between,between]
  exact (List.take_isPrefix_take.mpr (.inl hki)).drop (j + 1)

end

end QScope.BracketLayout

namespace QScope.Annotating
open BracketLayout

/-- The scopes of annotated tokens are the innermost lambdas that they stand in. A closing brace
has the scope of the brace that it closes. All tokens between a token and the brace of its scope
are in that lambda or in one inside it. -/
structure LambdaScopes (tokens : List Token) (found : List AnnotatedToken) : Prop where
  length : found.length = tokens.length
  innermost : ∀ i t a, tokens[i]? = some t → found[i]? = some a → t.kind ≠ .closeBrace →
    Innermost tokens i a.scope
  closing : ∀ i t a, tokens[i]? = some t → found[i]? = some a → t.kind = .closeBrace →
    ∃ b, Innermost tokens i b ∧ a.scope = b.bind fun j => found[j]?.bind (·.scope)
  laminar : ∀ (i : Nat) (a : AnnotatedToken) (s : Nat), found[i]? = some a → a.scope = some s →
    ∀ (k : Nat) (u : AnnotatedToken), s < k → k < i → found[k]? = some u →
      ∃ r, u.scope = some r ∧ s ≤ r

section
variable {ns : Option Text} {tokens : List Token} {i j k : Nat} {t : Token} {a : AnnotatedToken}

theorem scope_annotateIn (ht : tokens[i]? = some t) (ha : (annotateIn ns tokens)[i]? = some a) :
    a.scope =
      if t.kind = .closeBrace then (enclosing tokens i).tail.head?
      else (enclosing tokens i).head? := by
  rw [getElem?_annotateIn,ht] at ha
  obtain rfl := Option.some.inj ha
  exact scope_eq ns ht

theorem mem_enclosing_of_scope {s : Nat} (ht : tokens[i]? = some t)
    (ha : (annotateIn ns tokens)[i]? = some a) (hs : a.scope = some s) :
    s ∈ enclosing tokens i := by
  rw [scope_annotateIn ht ha] at hs
  split at hs
  · exact List.mem_of_mem_tail (List.mem_of_mem_head? hs)
  · exact List.mem_of_mem_head? hs

/-- The brace that a closing one closes stands in the lambdas behind both. -/
theorem scope_opening (hi : i < tokens.length) :
    (enclosing tokens i).tail.head? =
      (enclosing tokens i).head?.bind fun j => (annotateIn ns tokens)[j]?.bind (·.scope) := by
  have h := braces_enclosing hi
  cases hjs : enclosing tokens i with
  | nil => rfl
  | cons j js =>
    rw [hjs] at h
    have hj := (h.mem j).mp List.mem_cons_self
    obtain ⟨u,hu,hk⟩ := Option.map_eq_some_iff.mp hj.brace
    have hs := scope_eq ns hu
    rw [if_neg (by rw [hk]; exact nofun),h.outside j js (List.suffix_refl _)] at hs
    rw [List.head?_cons,Option.bind_some,getElem?_annotateIn,hu]
    exact hs.symm

theorem exists_head_of_mem {js : List Nat} {s : Nat} (h : js.Pairwise (· > ·)) (hs : s ∈ js) :
    ∃ r, js.head? = some r ∧ s ≤ r := by
  cases js with
  | nil => exact absurd hs nofun
  | cons r js =>
    refine ⟨r,rfl,?_⟩
    rcases List.mem_cons.mp hs with rfl | hs
    · exact Nat.le_refl _
    · exact Nat.le_of_lt ((List.pairwise_cons.mp h).1 s hs)

/-- Between a token and the brace of its scope no token leaves the lambda. -/
theorem scope_between {s : Nat} {u : AnnotatedToken} (ha : (annotateIn ns tokens)[i]? = some a)
    (hs : a.scope = some s) (hsk : s < k) (hki : k < i)
    (hu : (annotateIn ns tokens)[k]? = some u) : ∃ r, u.scope = some r ∧ s ≤ r := by
  have hi : i < tokens.length := by
    rw [← length_annotateIn ns]
    exact (List.getElem?_eq_some_iff.mp ha).1
  have ht : tokens[i]? = some tokens[i] := List.getElem?_eq_getElem hi
  have hv : tokens[k]? = some tokens[k] := List.getElem?_eq_getElem (hki.trans hi)
  have hmem := mem_enclosing_of_scope ht ha hs
  have hd := (braces_enclosing (hki.trans hi)).descending
  rw [scope_annotateIn hv hu]
  split
  · rename_i hc
    -- the lambda is still open behind a brace that closes one inside it
    have hk := mem_enclosing_of_le hi hmem (Nat.lt_succ_of_lt hsk) hki
    rw [enclosing,Assignments.kindAt,hv,Option.map_some,hc] at hk
    split at hk
    · cases hk
    · exact exists_head_of_mem hd.tail hk
  · exact exists_head_of_mem hd (mem_enclosing_of_le hi hmem hsk hki.le)

theorem annotate_lambdaScopes (tokens : List Token) : LambdaScopes tokens (annotate tokens) where
  length := length_annotateIn none tokens
  innermost i t a ht ha hk := by
    rw [scope_annotateIn ht ha,if_neg hk]
    exact (braces_enclosing (List.getElem?_eq_some_iff.mp ht).1).innermost
  closing i t a ht ha hk := by
    have hi := (List.getElem?_eq_some_iff.mp ht).1
    refine ⟨(enclosing tokens i).head?,(braces_enclosing hi).innermost,?_⟩
    rw [scope_annotateIn ht ha,if_pos hk]
    exact scope_opening hi
  laminar i a s ha hs k u hsk hki hu := scope_between ha hs hsk hki hu

end

end QScope.Annotating
