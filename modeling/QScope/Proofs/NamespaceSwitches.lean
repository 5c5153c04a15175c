import QScope.Proofs.BindingLookup
import QScope.Proofs.LambdaNamespaces
import QScope.Proofs.TokenImages

/-! # Namespace switches: the last switch in front of a token decides its namespace

A call switches from its own argument on, a command from the next line on. Neither can switch
inside a lambda, so that the names of a lambda have one canonical prefix. -/
namespace QScope
open CharacterClasses

/-! The texts that name a namespace -/

namespace Namespaces

/-- The texts that switch to a namespace: a `d`, blanks, and the name of the namespace behind a dot.
The dot alone stands for the root. -/
inductive Switch : Text → Option Text → Prop
  | root (blanks : Text) (hne : blanks ≠ []) (hb : ∀ c ∈ blanks, isBlank c = true) :
      Switch ('d' :: (blanks ++ ['.'])) none
  | path (blanks : Text) (hne : blanks ≠ []) (hb : ∀ c ∈ blanks, isBlank c = true) (c : Char)
      (name : Text) (hc : isNameStart c = true)
      (hn : ∀ d ∈ name, isWordChar d = true ∨ d = '.') :
      Switch ('d' :: (blanks ++ '.' :: c :: name)) (some (c :: name))

section
variable {s t : Text} {ns : Option Text}

theorem isPath_cons {c : Char} : isPath (c :: t) = true ↔
    isNameStart c = true ∧ ∀ d ∈ t, isWordChar d = true ∨ d = '.' := by
  simp [isPath]

/-- Blanks that stop at a dot. -/
theorem trimLeft_blanks {blanks : Text} (hb : ∀ c ∈ blanks, isBlank c = true) (t : Text) :
    Texts.trimLeft (blanks ++ '.' :: t) = '.' :: t := by
  rw [Texts.trimLeft,List.dropWhile_append_of_pos hb]
  exact List.dropWhile_cons_of_neg (by decide)

theorem exists_blanks (h : t.head?.any isBlank = true) :
    ∃ blanks, blanks ≠ [] ∧ (∀ c ∈ blanks, isBlank c = true) ∧ t = blanks ++ Texts.trimLeft t := by
  refine ⟨t.takeWhile isBlank,?_,fun c hc => List.mem_takeWhile_imp hc,
    List.takeWhile_append_dropWhile.symm⟩
  cases t with
  | nil => cases h
  | cons c t =>
    have hc : isBlank c = true := h
    rw [List.takeWhile_cons_of_pos hc]
    exact List.cons_ne_nil _ _

theorem switch_of_switched? (h : switched? t = some ns) : Switch t ns := by
  unfold switched? at h
  split at h
  · rename_i t
    split at h
    · rename_i hhead
      obtain ⟨blanks,hne,hb,ht⟩ := exists_blanks hhead
      rw [ht]
      split at h
      · rename_i hd
        obtain rfl := Option.some.inj h
        rw [hd]
        exact .root blanks hne hb
      · rename_i name _ hd
        rw [hd]
        split at h
        · rename_i hp
          obtain rfl := Option.some.inj h
          cases name with
          | nil => cases hp
          | cons c name => exact .path blanks hne hb c name (isPath_cons.mp hp).1 (isPath_cons.mp hp).2
        · cases h
      · cases h
    · cases h
  · cases h

theorem switched?_blanks {blanks : Text} (hne : blanks ≠ [])
    (hb : ∀ c ∈ blanks, isBlank c = true) (t : Text) :
    switched? ('d' :: (blanks ++ '.' :: t)) =
      match t with
      | [] => some none
      | name => if isPath name then some (some name) else none := by
  have hhead : (blanks ++ '.' :: t).head?.any isBlank = true := by
    obtain ⟨c,cs,rfl⟩ := List.exists_cons_of_ne_nil hne
    exact hb c List.mem_cons_self
  rw [switched?,if_pos hhead,trimLeft_blanks hb]
  cases t <;> rfl

/-- A switch is read as the namespace that it names, and nothing else is read. -/
theorem switched?_eq_some : switched? t = some ns ↔ Switch t ns := by
  refine ⟨switch_of_switched?,?_⟩
  rintro (⟨blanks,hne,hb⟩ | ⟨blanks,hne,hb,c,name,hc,hn⟩)
  · exact switched?_blanks hne hb []
  · rw [switched?_blanks hne hb]
    exact if_pos (isPath_cons.mpr ⟨hc,hn⟩)

theorem Switch.unique {ns' : Option Text} (h : Switch t ns) (h' : Switch t ns') : ns = ns' :=
  Option.some.inj ((switched?_eq_some.mpr h).symm.trans (switched?_eq_some.mpr h'))

theorem ofCommand?_eq_some (ht : Texts.trim t = t) :
    ofCommand? t = some ns ↔ ∃ s, t = '\\' :: s ∧ Switch s ns := by
  rw [ofCommand?,ht]
  cases t with
  | nil => simp
  | cons c t =>
    by_cases hc : c = '\\'
    · subst hc
      simp [switched?_eq_some]
    · simp [hc]

theorem ofString?_eq_some : ofString? t = some ns ↔
    ∃ s, t = '"' :: (s ++ ['"']) ∧ Switch s ns := by
  constructor
  · intro h
    unfold ofString? at h
    split at h
    · rename_i t
      split at h
      · rename_i hlast
        refine ⟨t.dropLast,?_,switched?_eq_some.mp h⟩
        rw [List.dropLast_append_getLast? '"' hlast]
      · cases h
    · cases h
  · rintro ⟨s,rfl,hs⟩
    rw [ofString?]
    simp [switched?_eq_some.mpr hs]

end
end Namespaces

/-! Commands as they are lexed -/

namespace Lexing
open TokenExtents Texts

/-- The image of a command is its line without the blanks at the end. -/
theorem exists_line_of_command {file t : Text} {token : Token} (h : token ∈ tokenize file t)
    (hk : token.kind = .command) : ∃ line u, token.image = '\\' :: line ∧
      trimRight u = token.image := by
  obtain ⟨q,c,x,u,he,hn⟩ := exists_lexeme (mem_of_locate h)
  obtain ⟨hs,hi⟩ := Lexeme.mk.inj he
  rw [hk] at hs
  have hlex : lexeme q c (x ++ u) = ⟨.token .command token.error,x.length⟩ := by rw [hs,← hn]
  obtain ⟨-,-,rfl,b,-,-,-,-,-,-,htrim⟩ := line_of_command hlex
  exact ⟨x,_,hi,htrim.trans hi.symm⟩

theorem trim_of_command {file t : Text} {token : Token} (h : token ∈ tokenize file t)
    (hk : token.kind = .command) : trim token.image = token.image := by
  obtain ⟨line,u,hi,hu⟩ := exists_line_of_command h hk
  have hleft : trimLeft token.image = token.image := by
    rw [hi]
    exact List.dropWhile_cons_of_neg (by decide)
  rw [trim,hleft,← hu,trimRight_trimRight]

end Lexing

/-! The switch in effect at a token -/

namespace BracketLayout
open Namespaces

/-- The token at an index switches to a namespace: a command, or outside of every lambda the
keyword in front of the string that names it. -/
inductive Switches (tokens : List Token) (i : Nat) (ns : Option Text) : Prop
  | command (t : Token) (s : Text) (ht : tokens[i]? = some t) (hk : t.kind = .command)
      (hi : t.image = '\\' :: s) (hs : Switch s ns)
  | call (t u : Token) (s : Text) (ht : tokens[i]? = some t) (hk : t.kind = .keyword)
      (hi : t.image = "system".toList) (outside : ∀ j, ¬Encloses tokens j i)
      (hu : tokens[i + 1]? = some u) (hku : u.kind = .string) (hiu : u.image = '"' :: (s ++ ['"']))
      (hs : Switch s ns)

/-- The namespace that the last switch in front of the token at an index has left. -/
inductive InEffect (tokens : List Token) (i : Nat) : Option Text → Prop
  | root (never : ∀ k < i, ∀ ns, ¬Switches tokens k ns) : InEffect tokens i none
  | switched (j : Nat) (ns : Option Text) (hj : j < i) (hs : Switches tokens j ns)
      (last : ∀ k, j < k → k < i → ∀ ns', ¬Switches tokens k ns') : InEffect tokens i ns

section
variable {tokens : List Token} {i : Nat} {t : Token} {ns ns' : Option Text}

/-- What a given token switches to. -/
theorem switches_iff (ht : tokens[i]? = some t) : Switches tokens i ns ↔
    (t.kind = .command ∧ ∃ s, t.image = '\\' :: s ∧ Switch s ns) ∨
    (t.kind = .keyword ∧ ∃ u, tokens[i + 1]? = some u ∧
      (t.image = "system".toList ∧ (∀ j, ¬Encloses tokens j i) ∧ u.kind = .string) ∧
      ofString? u.image = some ns) := by
  simp only [ofString?_eq_some]
  constructor
  · rintro (⟨t',s,ht',hk,hi,hs⟩ | ⟨t',u,s,ht',hk,hi,ho,hu,hku,hiu,hs⟩) <;>
      obtain rfl : t = t' := Option.some.inj (ht.symm.trans ht')
    · exact .inl ⟨hk,s,hi,hs⟩
    · exact .inr ⟨hk,u,hu,⟨hi,ho,hku⟩,s,hiu,hs⟩
  · rintro (⟨hk,s,hi,hs⟩ | ⟨hk,u,hu,⟨hi,ho,hku⟩,s,hiu,hs⟩)
    · exact .command t s ht hk hi hs
    · exact .call t u s ht hk hi ho hu hku hiu hs

theorem switches_of_command (ht : tokens[i]? = some t) (hk : t.kind = .command)
    (htrim : Texts.trim t.image = t.image) :
    Switches tokens i ns ↔ ofCommand? t.image = some ns := by
  simp [switches_iff ht,hk,ofCommand?_eq_some htrim]

theorem switches_of_keyword (ht : tokens[i]? = some t) (hk : t.kind = .keyword) :
    Switches tokens i ns ↔ ∃ u, tokens[i + 1]? = some u ∧
      (t.image = "system".toList ∧ (∀ j, ¬Encloses tokens j i) ∧ u.kind = .string) ∧
      ofString? u.image = some ns := by
  simp only [switches_iff ht,hk,true_and,reduceCtorEq,false_and,false_or]

theorem not_switches (ht : tokens[i]? = some t) (hc : t.kind ≠ .command)
    (hk : t.kind ≠ .keyword) : ¬Switches tokens i ns := by
  simp [switches_iff ht,hc,hk]

theorem Switches.unique (h : Switches tokens i ns) (h' : Switches tokens i ns') : ns = ns' := by
  rcases h with ⟨t,s,ht,hk,hi,hs⟩ | ⟨t,u,s,ht,hk,-,-,hu,-,hi,hs⟩ <;>
    rcases h' with ⟨t',s',ht',hk',hi',hs'⟩ | ⟨t',u',s',ht',hk',-,-,hu',-,hi',hs'⟩ <;>
    obtain rfl : t = t' := Option.some.inj (ht.symm.trans ht')
  · obtain ⟨-,rfl⟩ := List.cons.inj (hi.symm.trans hi')
    exact hs.unique hs'
  · cases hk.symm.trans hk'
  · cases hk.symm.trans hk'
  · obtain rfl : u = u' := Option.some.inj (hu.symm.trans hu')
    obtain ⟨-,hi⟩ := List.cons.inj (hi.symm.trans hi')
    obtain rfl := List.append_cancel_right hi
    exact hs.unique hs'

/-- The namespace behind a token is the one that it switches to, or else the one in front. -/
theorem after_cases {inLambda : Bool} (ht : tokens[i]? = some t)
    (htrim : t.kind = .command → Texts.trim t.image = t.image)
    (ho : inLambda = false ↔ ∀ j, ¬Encloses tokens j i) (ns : Option Text) :
    Switches tokens i (after ns inLambda t tokens[i + 1]?) ∨
      (∀ ns', ¬Switches tokens i ns') ∧ after ns inLambda t tokens[i + 1]? = ns := by
  cases hk : t.kind with
  | command =>
    simp only [switches_of_command ht hk (htrim hk),after,hk]
    cases ofCommand? t.image with
    | none => exact .inr ⟨by simp,rfl⟩
    | some ns' => exact .inl rfl
  | keyword =>
    simp only [switches_of_keyword ht hk,after,hk,← ho]
    cases tokens[i + 1]? with
    | none => exact .inr ⟨by simp,rfl⟩
    | some u =>
      simp only [Option.some.injEq,exists_eq_left']
      split
      · rename_i h
        cases ofString? u.image with
        | none => exact .inr ⟨by simp,rfl⟩
        | some ns' => exact .inl ⟨h,rfl⟩
      · rename_i h
        exact .inr ⟨fun ns' hs => h hs.1,rfl⟩
  | _ =>
    refine .inr ⟨fun ns' => not_switches ht (by simp [hk]) (by simp [hk]),?_⟩
    simp only [after,hk]

theorem InEffect.unique (h : InEffect tokens i ns) (h' : InEffect tokens i ns') : ns = ns' := by
  rcases h with never | ⟨j,_,hj,hs,last⟩ <;> rcases h' with never' | ⟨j',_,hj',hs',last'⟩
  · rfl
  · exact absurd hs' (never j' hj' ns')
  · exact absurd hs (never' j hj ns)
  · rcases lt_trichotomy j j' with hlt | rfl | hlt
    · exact absurd hs' (last j' hlt hj' ns')
    · exact hs.unique hs'
    · exact absurd hs (last' j hlt hj ns)

theorem InEffect.switch (h : Switches tokens i ns) : InEffect tokens (i + 1) ns :=
  .switched i ns i.lt_succ_self h fun k hik hki => absurd hik (by omega)

theorem InEffect.keep (h : InEffect tokens i ns) (hn : ∀ ns', ¬Switches tokens i ns') :
    InEffect tokens (i + 1) ns := by
  cases h with
  | root never =>
    refine .root fun k hk => ?_
    rcases Nat.lt_succ_iff_lt_or_eq.mp hk with hk | rfl
    · exact never k hk
    · exact hn
  | switched j ns hj hs last =>
    refine .switched j ns (Nat.lt_succ_of_lt hj) hs fun k hjk hk => ?_
    rcases Nat.lt_succ_iff_lt_or_eq.mp hk with hk | rfl
    · exact last k hjk hk
    · exact hn

end

section
variable {tokens : List Token} {i j : Nat} {t : Token} {ns ns' : Option Text}

/-- Outside of every lambda there is no frame around the innermost one. -/
theorem isEmpty_outer_iff (ns : Option Text) (ht : tokens[i]? = some t) :
    (!((reached 0 (.start ns) tokens i).enter t).outer.isEmpty) = false ↔
      ∀ j, ¬Encloses tokens j i := by
  have hn := nested_reached ns ht
  have hmem := (braces_enclosing (List.getElem?_eq_some_iff.mp ht).1).mem
  rw [Bool.not_eq_false',List.isEmpty_iff]
  constructor
  · intro ho j hj
    have hj := (hmem j).mpr hj
    rw [hn.eq_nil ho] at hj
    cases hj
  · intro h
    have he : enclosing tokens i = [] :=
      List.eq_nil_iff_forall_not_mem.mpr fun j hj => h j ((hmem j).mp hj)
    rw [Layout.Nested,he] at hn
    exact List.map_eq_nil_iff.mp (List.cons.inj hn).2

/-- Every token finds the namespace of the last switch in front of it. -/
theorem inEffect_reached
    (hc : ∀ t ∈ tokens, t.kind = .command → Texts.trim t.image = t.image)
    (hi : i ≤ tokens.length) : InEffect tokens i (reached 0 (.start none) tokens i).ns := by
  induction i with
  | zero => exact .root fun k hk => absurd hk k.not_lt_zero
  | succ i ih =>
    have ht : tokens[i]? = some tokens[i] := List.getElem?_eq_getElem hi
    have ih := ih (Nat.le_of_succ_le hi)
    rw [reached_succ ht,Layout.move_ns,Layout.enter_ns]
    rcases after_cases ht (hc _ (List.mem_of_getElem? ht)) (isEmpty_outer_iff none ht)
      (reached 0 (.start none) tokens i).ns with hs | ⟨hn,hs⟩
    · exact .switch hs
    · rw [hs]
      exact ih.keep hn

end
end BracketLayout

namespace Annotating
open BracketLayout Lexing Resolution

/-- The tokens of a text are in the namespaces that its switches leave, but for the identifiers
that carry their own. A lambda stays in the namespace of its brace, and with it every binding in
the lambda. -/
structure NamespacesKept (file t : Text) : Prop where
  switched : ∀ x ∈ parse file t, ¬(x.kind = .identifier ∧ x.image.head? = some '.') →
    ∀ ns, x.ns = ns ↔ InEffect (tokenize file t) x.index ns
  lambda : ∀ brace ∈ parse file t, brace.kind = .openBrace → ∀ x ∈ parse file t,
    x.scope = some brace.index → ¬(x.kind = .identifier ∧ x.image.head? = some '.') →
    x.ns = brace.ns
  binding : ∀ x ∈ parse file t, ∀ y ∈ parse file t, ∀ brace name,
    (Bindings.ofTokens (parse file t)).resolve x = some (.inLambda brace name) →
    (Bindings.ofTokens (parse file t)).resolve y = some (.inLambda brace name) →
    x.ns = y.ns ∧ x.canonicalName = y.canonicalName

section
variable {file t : Text} {x : AnnotatedToken}

theorem ns_of_index (hx : x ∈ parse file t) :
    x.ns = Namespaces.ofToken (reached 0 (.start none) (tokenize file t) x.index).ns x.toToken :=
  ns_annotateIn (getElem?_index hx)

theorem index_lt (hx : x ∈ parse file t) : x.index < (tokenize file t).length := by
  rw [← map_toToken_parse,List.length_map]
  exact (List.getElem?_eq_some_iff.mp (getElem?_index hx)).1

end

theorem parse_namespacesKept (file t : Text) : NamespacesKept file t where
  switched x hx hd ns := by
    have h := inEffect_reached (fun _ hu => trim_of_command hu) (index_lt hx).le
    rw [ns_of_index hx,Namespaces.ofToken,if_neg hd]
    exact ⟨fun hns => hns ▸ h,h.unique⟩
  lambda brace hb hk x hx hs hd := by
    have hlt := index_lt hx
    have hb' : (tokenize file t)[brace.index]? = some brace.toToken := by
      rw [← map_toToken_parse,List.getElem?_map,getElem?_index hb,Option.map_some]
    have hmem := mem_enclosing_of_scope (List.getElem?_eq_getElem hlt) (getElem?_index hx) hs
    rw [ns_of_index hx,Namespaces.ofToken,if_neg hd,
      reached_ns_of_enclosing (fun _ => startsStatement_of_command) hlt hmem,reached_succ hb',
      Layout.move_ns,Layout.enter_ns,ns_of_index hb]
    simp only [Namespaces.after,Namespaces.ofToken,hk]
    rfl
  binding x hx y hy brace name hbx hby := by
    obtain ⟨hix,hkx,-⟩ := Bindings.resolve_eq_inLambda.mp hbx
    obtain ⟨hiy,hky,-⟩ := Bindings.resolve_eq_inLambda.mp hby
    obtain ⟨hqx,hsx,hnx⟩ := localKey?_eq_some.mp hkx
    obtain ⟨hqy,hsy,hny⟩ := localKey?_eq_some.mp hky
    obtain ⟨ns,hx,hy⟩ := ns_of_scope hx hy hsx hsy
    -- Both are identifiers with one image, and so carry a namespace both or not.
    have hns : x.ns = y.ns := by
      have hk : x.kind = .identifier := eq_of_beq hix
      have hk' : y.kind = .identifier := eq_of_beq hiy
      rw [hx,hy,Namespaces.ofToken,Namespaces.ofToken,hk,hk',hnx,hny]
    refine ⟨hns,?_⟩
    rw [AnnotatedToken.canonicalName_of_plain hix hqx,AnnotatedToken.canonicalName_of_plain hiy hqy,
      hns,hnx,hny]

end Annotating
end QScope
