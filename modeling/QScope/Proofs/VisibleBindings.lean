import QScope.Proofs.LayoutRuns
import QScope.Proofs.Searches

/-! # Visible bindings: completion lists each of them once, by its first definition

The loop for completion drops what it has seen. The search for definitions looks for one binding at
a time, and what it finds first of each is what the loop keeps. -/
namespace QScope.Resolution

section
variable {κ α : Type} [DecidableEq κ] [DecidableEq α]

/-- The first element of a list with its key, where that is not among the keys seen before. -/
def leads (key? : α → Option κ) (seen : List κ) (l : List α) (a : α) : Bool :=
  (key? a).any fun k => decide (k ∉ seen) && (l.find? (key? · == some k) == some a)

variable {key? : α → Option κ} {seen : List κ} {l : List α} {a b : α} {k : κ}

theorem leads_cons_of_none (ha : key? a = none) :
    leads key? seen (a :: l) b = leads key? seen l b := by
  simp [leads,ha]

theorem leads_cons_of_mem (ha : key? a = some k) (hk : k ∈ seen) :
    leads key? seen (a :: l) b = leads key? seen l b := by
  cases hb : key? b with
  | none => simp [leads,hb]
  | some j =>
    by_cases hj : k = j
    · simp [leads,hb,← hj,hk]
    · simp [leads,hb,ha,hj]

/-- Behind the first element with a key there is no other. -/
theorem leads_cons_of_notMem (ha : key? a = some k) (hb : a ≠ b) :
    leads key? seen (a :: l) b = leads key? (k :: seen) l b := by
  cases hkb : key? b with
  | none => simp [leads,hkb]
  | some j =>
    by_cases hj : k = j
    · simp [leads,hkb,ha,hj,hb]
    · simp [leads,hkb,ha,hj,Ne.symm hj]

/-- The first elements of all keys are those that a search for their key finds. -/
theorem firsts_filterMap (key? : α → Option κ) (seen : List κ) (hl : l.Nodup) :
    firsts seen (l.filterMap fun a => (key? a).map (·,a)) = l.filter (leads key? seen l) := by
  induction l generalizing seen with
  | nil => rfl
  | cons a l ih =>
    obtain ⟨ha,hl⟩ := List.nodup_cons.mp hl
    cases hk : key? a with
    | none =>
      have hlead : leads key? seen (a :: l) a = false := by simp [leads,hk]
      rw [List.filterMap_cons_none (by rw [hk]; rfl),ih seen hl,
        List.filter_cons_of_neg (by simp [hlead])]
      exact List.filter_congr fun b _ => (leads_cons_of_none hk).symm
    | some k =>
      rw [List.filterMap_cons_some (by rw [hk]; rfl),firsts]
      split
      · rename_i hs
        have hlead : leads key? seen (a :: l) a = false := by simp [leads,hk,hs]
        rw [ih seen hl,List.filter_cons_of_neg (by simp [hlead])]
        exact List.filter_congr fun b _ => (leads_cons_of_mem hk hs).symm
      · rename_i hs
        have hlead : leads key? seen (a :: l) a = true := by simp [leads,hk,hs]
        rw [ih (k :: seen) hl,List.filter_cons_of_pos hlead]
        refine congrArg _ (List.filter_congr fun b hb => ?_)
        exact (leads_cons_of_notMem hk fun hab => ha (hab ▸ hb)).symm

end

end QScope.Resolution

namespace QScope.Editing
open Resolution Annotating

/-- A token that comes first of all that a search for its definitions finds. -/
def isFirstDefinition (tokens : List AnnotatedToken) (d : AnnotatedToken) : Bool :=
  (find .definition tokens d).head? == some d

/-- A list of the bindings that a scope sees, each by its first definition: the globals, and of the
locals those of the scope's own lambda. -/
structure Completes (tokens : List AnnotatedToken) (scope : Option Nat)
    (items : List AnnotatedToken) : Prop where
  listed : items = tokens.filter fun d => isFirstDefinition tokens d &&
    ((Bindings.ofTokens tokens).resolve d).any (·.visibleFrom scope)
  globals : ∀ t ∈ tokens, ∀ name, (Bindings.ofTokens tokens).resolve t = some (.inNamespace name) →
    ∃ d ∈ items, (find .definition tokens t).head? = some d
  locals : ∀ t ∈ tokens, ∀ brace name, scope = some brace →
    (Bindings.ofTokens tokens).resolve t = some (.inLambda brace name) →
    ∃ d ∈ items, (find .definition tokens t).head? = some d
  distinct : items.Pairwise fun d e =>
    (Bindings.ofTokens tokens).resolve d ≠ (Bindings.ofTokens tokens).resolve e
  confined : ∀ d ∈ items, ∀ brace name,
    (Bindings.ofTokens tokens).resolve d = some (.inLambda brace name) → scope = some brace

section
variable {tokens : List AnnotatedToken} {scope : Option Nat} {t d e : AnnotatedToken}
  {binding : Binding}

/-- The binding that a token defines, if a scope sees it. -/
def definedIn (b : Bindings) (scope : Option Nat) (t : AnnotatedToken) : Option Binding :=
  if t.defines then (b.resolve t).filter (·.visibleFrom scope) else none

theorem visible_eq_firsts (b : Bindings) (tokens : List AnnotatedToken) (scope : Option Nat) :
    visible b tokens scope =
      firsts [] (tokens.filterMap fun t => (definedIn b scope t).map (·,t)) := by
  rw [visible,List.filterMap_filter]
  refine congrArg _ (List.filterMap_congr fun t _ => ?_)
  rw [definedIn]
  cases t.defines with
  | false => rfl
  | true =>
    cases b.resolve t with
    | none => rfl
    | some binding =>
      simp only [Option.filter,if_pos]
      split <;> rfl

theorem definedIn_eq_some {b : Bindings} : definedIn b scope t = some binding ↔
    t.defines = true ∧ b.resolve t = some binding ∧ binding.visibleFrom scope = true := by
  rw [definedIn]
  split
  · rename_i h
    simp [h]
  · rename_i h
    simp [h]

theorem head?_definition (hb : (Bindings.ofTokens tokens).resolve t = some binding) :
    (find .definition tokens t).head? = tokens.find? fun u =>
      u.defines && (Bindings.ofTokens tokens).resolve u == some binding := by
  have hs : Search.definition ≠ .completion := nofun
  rw [find_of_resolve hs hb,occurrences,List.filter_filter,List.head?_filter]
  rfl

/-- For a visible binding the loop stops where the search for definitions does. -/
theorem find?_definedIn (hb : (Bindings.ofTokens tokens).resolve t = some binding)
    (hv : binding.visibleFrom scope = true) :
    tokens.find? (definedIn (.ofTokens tokens) scope · == some binding) =
      (find .definition tokens t).head? := by
  rw [head?_definition hb]
  congr 1
  funext u
  rw [Bool.eq_iff_iff,beq_iff_eq,definedIn_eq_some,Bool.and_eq_true,beq_iff_eq,hv]
  simp only [and_true]

theorem leads_definedIn (d : AnnotatedToken) :
    leads (definedIn (.ofTokens tokens) scope) [] tokens d =
      (isFirstDefinition tokens d &&
        ((Bindings.ofTokens tokens).resolve d).any (·.visibleFrom scope)) := by
  rw [Bool.eq_iff_iff,leads,isFirstDefinition,Bool.and_eq_true,beq_iff_eq,Option.any_eq_true,
    Option.any_eq_true]
  constructor
  · rintro ⟨binding,hk,hfind⟩
    obtain ⟨-,hb,hv⟩ := definedIn_eq_some.mp hk
    rw [find?_definedIn hb hv] at hfind
    exact ⟨by simpa using hfind,binding,hb,hv⟩
  · rintro ⟨hfirst,binding,hb,hv⟩
    have hk := hfirst
    rw [← find?_definedIn hb hv] at hk
    exact ⟨binding,by simpa using List.find?_some hk,by simpa using hk⟩

theorem visible_eq_filter (hn : tokens.Nodup) (scope : Option Nat) :
    visible (.ofTokens tokens) tokens scope = tokens.filter fun d => isFirstDefinition tokens d &&
      ((Bindings.ofTokens tokens).resolve d).any (·.visibleFrom scope) := by
  rw [visible_eq_firsts,firsts_filterMap _ _ hn]
  exact List.filter_congr fun d _ => leads_definedIn d

theorem mem_visible (hn : tokens.Nodup) : d ∈ visible (.ofTokens tokens) tokens scope ↔
    d ∈ tokens ∧ (find .definition tokens d).head? = some d ∧
      ∃ binding, (Bindings.ofTokens tokens).resolve d = some binding ∧
        binding.visibleFrom scope = true := by
  rw [visible_eq_filter hn,List.mem_filter,isFirstDefinition,Bool.and_eq_true,beq_iff_eq,
    Option.any_eq_true]

/-- What defines a visible binding first is listed. -/
theorem exists_listed (hn : tokens.Nodup)
    (hb : (Bindings.ofTokens tokens).resolve t = some binding)
    (hv : binding.visibleFrom scope = true) :
    ∃ d ∈ visible (.ofTokens tokens) tokens scope, (find .definition tokens t).head? = some d := by
  obtain ⟨u,hu,hd,hub⟩ := exists_defines hb
  have hfound : (tokens.find? fun u =>
      u.defines && (Bindings.ofTokens tokens).resolve u == some binding).isSome = true :=
    List.find?_isSome.mpr ⟨u,hu,by simp [hd,hub]⟩
  obtain ⟨d,hd⟩ := Option.isSome_iff_exists.mp hfound
  have hdb := List.find?_some hd
  rw [Bool.and_eq_true,beq_iff_eq] at hdb
  refine ⟨d,(mem_visible hn).mpr ⟨List.mem_of_find?_eq_some hd,?_,binding,hdb.2,hv⟩,?_⟩
  · rw [head?_definition hdb.2,hd]
  · rw [head?_definition hb,hd]

/-- Tokens with one binding have one first definition. -/
theorem eq_of_isFirst (hb : (Bindings.ofTokens tokens).resolve d = some binding)
    (he : (Bindings.ofTokens tokens).resolve e = some binding)
    (hd : (find .definition tokens d).head? = some d)
    (hd' : (find .definition tokens e).head? = some e) : d = e := by
  rw [head?_definition hb,← head?_definition he,hd'] at hd
  exact (Option.some.inj hd).symm

/-- Completion lists every visible binding once, by its first definition. -/
theorem find_completion_completes (ns : Option Text) (tokens : List Token)
    {source : AnnotatedToken} (hi : source.isIdentifier = true) :
    Completes (annotateIn ns tokens) source.scope
      (find .completion (annotateIn ns tokens) source) := by
  have hn := nodup_annotateIn ns tokens
  rw [find,if_pos hi]
  constructor
  case listed => exact visible_eq_filter hn source.scope
  case globals => exact fun t _ name hb => exists_listed hn hb rfl
  case locals => exact fun t _ brace name hs hb => exists_listed hn hb (beq_iff_eq.mpr hs)
  case distinct =>
    have hp := hn.sublist (visible_eq_filter hn source.scope ▸ List.filter_sublist)
    refine hp.imp_of_mem fun {d e} hd he hne heq => hne ?_
    obtain ⟨-,hfirst,binding,hb,-⟩ := (mem_visible hn).mp hd
    obtain ⟨-,hfirst',-⟩ := (mem_visible hn).mp he
    exact eq_of_isFirst hb (heq ▸ hb) hfirst hfirst'
  case confined =>
    intro d hd brace name hb
    obtain ⟨-,-,binding,hb',hv⟩ := (mem_visible hn).mp hd
    obtain rfl := Option.some.inj (hb.symm.trans hb')
    exact beq_iff_eq.mp hv

end

/-- In a lambda: a local and a global of one name, and no second definition of either. -/
theorem find_completion_completes_inLambda :
    ∃ source ∈ parse [] "x:1\nf:{[p]x:2;x:3;g::p}\nx:4".toList,
      source.isIdentifier = true ∧ source.scope = some 5 ∧
      Completes (parse [] "x:1\nf:{[p]x:2;x:3;g::p}\nx:4".toList) (some 5)
        (find .completion (parse [] "x:1\nf:{[p]x:2;x:3;g::p}\nx:4".toList) source) ∧
      (find .completion (parse [] "x:1\nf:{[p]x:2;x:3;g::p}\nx:4".toList) source).map (·.index) =
        [0,3,7,9,17] := by
  have hsource : ((parse [] "x:1\nf:{[p]x:2;x:3;g::p}\nx:4".toList).get
      ⟨19,by decide +kernel⟩).isIdentifier = true := by decide +kernel
  have hscope : ((parse [] "x:1\nf:{[p]x:2;x:3;g::p}\nx:4".toList).get
      ⟨19,by decide +kernel⟩).scope = some 5 := by decide +kernel
  have hcompletes := find_completion_completes none
    (Lexing.tokenize [] "x:1\nf:{[p]x:2;x:3;g::p}\nx:4".toList) hsource
  rw [hscope] at hcompletes
  exact ⟨_,List.get_mem _ _,hsource,hscope,hcompletes,by decide +kernel⟩

end QScope.Editing
