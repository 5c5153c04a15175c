import QScope.Proofs.EditedNames
import QScope.Proofs.LambdaNamespaces
import QScope.Proofs.VisibleBindings

/-! # Completions: what is inserted for an item means what the item was offered for

An item is spelled for the namespace of the token at the cursor. That is all it is spelled for: its
text may be no name at all, or one that the lambda around the cursor has given to a local. -/
namespace QScope.AnnotatedToken
open DottedNames
variable {t : AnnotatedToken}

/-- A global of a namespace is written by its canonical name or, at home, by what stands behind the
namespace in that. -/
theorem nameIn_cases (hi : t.isIdentifier = true)
    (hn : ∃ ns, t.ns = Namespaces.ofToken ns t.toToken)
    (hc : DottedNames.isQualified t.canonicalName = true) (viewer : Option Text) :
    t.nameIn viewer = t.canonicalName ∨
      ∃ path, viewer = some path ∧ t.canonicalName = qualify path (t.nameIn viewer) ∧
        (t.nameIn viewer).head? ≠ some '.' := by
  cases hq : t.isQualified with
  | true =>
    rw [canonicalName_of_isQualified hq]
    rw [isQualified_eq hi] at hq
    obtain ⟨path,name,himage,hname⟩ := exists_qualify hq
    rw [nameIn,if_pos hi,himage,relative,split_qualify path hname]
    dsimp only
    split
    · rename_i hv
      exact .inr ⟨path,hv.symm,rfl,head?_ne_of_notMem hname⟩
    · exact .inl rfl
  | false =>
    rw [nameIn_of_not_isQualified hi hq]
    rw [canonicalName_of_plain hi hq] at hc ⊢
    rw [isQualified_eq hi] at hq
    cases hns : t.ns with
    | none =>
      rw [hns,hq] at hc
      cases hc
    | some path =>
      dsimp only [prefixed]
      split
      · rename_i hv
        refine .inr ⟨path,hv.symm,rfl,fun hd => ?_⟩
        obtain ⟨ns,ht⟩ := hn
        rw [Namespaces.ofToken_of_dotted (beq_iff_eq.mp hi) hd hq,hns] at ht
        cases ht
      · exact .inl rfl

end QScope.AnnotatedToken

namespace QScope.Editing
open Resolution Annotating Lexing

/-- An item that is offered for a binding at a cursor on a name that assigns nothing. -/
structure Offered (file t : Text) (p : Position) (c : AnnotatedToken) (binding : Binding)
    (item : CompletionItem) : Prop where
  cursor : cursorToken (parse file t) p = some c
  identifier : c.isIdentifier = true
  unassigned : c.isAssigned = false
  listed : ∃ (k : Nat) (u : AnnotatedToken), (found .completion (parse file t) p)[k]? = some u ∧
    (completions (parse file t) p)[k]? = some item ∧
    (Bindings.ofTokens (parse file t)).resolve u = some binding

/-- The item at an index of those offered, with the cursor's token and the binding. -/
def offer? (file t : Text) (p : Position) (k : Nat) :
    Option (AnnotatedToken × Binding × CompletionItem) := do
  let tokens := parse file t
  let c ← cursorToken tokens p
  let u ← (found .completion tokens p)[k]?
  let item ← (completions tokens p)[k]?
  let binding ← (Bindings.ofTokens tokens).resolve u
  if c.isIdentifier && !c.isAssigned then some (c,binding,item) else none

/-- What lets the text of an item mean its binding at the cursor's token. The text for a local is
its name. The text for a global has to be a name, and one that the lambda there has not taken; and
it has to be a global of some namespace. Where a dotted name is replaced, it is by another. -/
inductive Fits (b : Bindings) (c : AnnotatedToken) (insert : Text) : Binding → Prop
  | inLambda {brace : Nat} {name : Text} (dots : c.image.head? = some '.' → name.head? = some '.') :
      Fits b c insert (.inLambda brace name)
  | inNamespace {name : Text} (qualified : DottedNames.isQualified name = true)
      (replaces : Replaces insert c)
      (unshadowed : ∀ brace, c.scope = some brace → (brace,insert) ∉ b.locals) :
      Fits b c insert (.inNamespace name)

/-- A local, or a global of a namespace other than the root: there is a text for it wherever it can
be seen. -/
def isSpellable : Binding → Bool
  | .inLambda _ _ => true
  | .inNamespace name => DottedNames.isQualified name

/-- In the place of a token a text is one identifier, and bound to what it is to mean. -/
def Means (file t : Text) (c : AnnotatedToken) (insert : Text) (binding : Binding) : Prop :=
  ∃ c', (parse file (replaced t c insert))[c.index]? = some c' ∧
    c'.span.start = c.span.start ∧ c'.image = insert ∧ c'.isIdentifier = true ∧
    (Bindings.ofTokens (parse file (replaced t c insert))).resolve c' = some binding

section
variable {file t insert : Text} {p : Position} {c c' u : AnnotatedToken} {binding : Binding}
  {item : CompletionItem} {brace : Nat} {name : Text}

theorem offered_of_offer? {k : Nat} (h : offer? file t p k = some (c,binding,item)) :
    Offered file t p c binding item := by
  simp only [offer?,Option.bind_eq_bind,Option.bind_eq_some_iff] at h
  obtain ⟨c,hc,u,hu,item,hitem,binding,hb,h⟩ := h
  split at h
  · rename_i hi
    obtain ⟨rfl,rfl,rfl⟩ := Option.some.inj h
    rw [Bool.and_eq_true,Bool.not_eq_true'] at hi
    exact ⟨hc,hi.1,hi.2,k,u,hu,hitem,hb⟩
  · cases h

/-- An item has the name of a visible definition, as the token at the cursor writes it. -/
theorem Offered.exists_visible (h : Offered file t p c binding item) :
    ∃ u ∈ parse file t, (Bindings.ofTokens (parse file t)).resolve u = some binding ∧
      binding.visibleFrom c.scope = true ∧ item.insert = u.nameIn c.ns := by
  obtain ⟨k,u,hu,hitem,hb⟩ := h.listed
  rw [completions,List.getElem?_map,hu,h.cursor] at hitem
  obtain rfl := Option.some.inj hitem
  rw [found,h.cursor] at hu
  dsimp only at hu
  rw [find,if_pos h.identifier] at hu
  obtain ⟨hm,-,binding',hb',hv⟩ :=
    (mem_visible (nodup_annotateIn none _)).mp (List.mem_of_getElem? hu)
  obtain rfl := Option.some.inj (hb.symm.trans hb')
  exact ⟨u,hm,hb,hv,rfl⟩

/-- The locals of a lambda are written there by their names. -/
theorem nameIn_of_inLambda (hc : c ∈ parse file t) (hu : u ∈ parse file t)
    (hb : (Bindings.ofTokens (parse file t)).resolve u = some (.inLambda brace name))
    (hs : c.scope = some brace) (hd : c.image.head? = some '.' → name.head? = some '.') :
    u.nameIn c.ns = name := by
  obtain ⟨hi,hk,-⟩ := Bindings.resolve_eq_inLambda.mp hb
  obtain ⟨hq,hsu,rfl⟩ := localKey?_eq_some.mp hk
  obtain ⟨ns,hcns,huns⟩ := ns_of_scope hc hu hs hsu
  rw [AnnotatedToken.nameIn_of_not_isQualified hi hq]
  by_cases hdu : u.image.head? = some '.'
  · rw [AnnotatedToken.isQualified_eq hi] at hq
    rw [huns,Namespaces.ofToken_of_dotted (beq_iff_eq.mp hi) hdu hq,DottedNames.prefixed_none]
  · rw [huns,hcns,Namespaces.ofToken_of_undotted hdu,
      Namespaces.ofToken_of_undotted fun hdc => hdu (hd hdc),DottedNames.prefixed_self]

theorem Offered.replaces (h : Offered file t p c binding item)
    (hf : Fits (.ofTokens (parse file t)) c item.insert binding) : Replaces item.insert c := by
  cases hf with
  | inNamespace _ replaces _ => exact replaces
  | @inLambda brace name dots =>
    obtain ⟨u,hu,hb,hv,hinsert⟩ := h.exists_visible
    have hs : c.scope = some brace := beq_iff_eq.mp hv
    have hc := mem_of_cursorToken h.cursor
    rw [hinsert,nameIn_of_inLambda hc hu hb hs dots]
    obtain ⟨hi,hk,-⟩ := Bindings.resolve_eq_inLambda.mp hb
    obtain rfl : name = u.image := image_of_localKey? hk
    obtain ⟨-,hn,hfree⟩ := isName_of_parse hu hi
    exact ⟨hn,hfree,dots⟩

/-- A qualified text means the global of that name, wherever it stands. -/
theorem resolve_of_qualified {b : Bindings} (hi : c'.isIdentifier = true)
    (hq : DottedNames.isQualified c'.image = true) (hm : c'.image ∈ b.globals) :
    b.resolve c' = some (.inNamespace c'.image) := by
  rw [← AnnotatedToken.isQualified_eq hi] at hq
  refine Bindings.resolve_eq_inNamespace.mpr
    ⟨hi,?_,AnnotatedToken.canonicalName_of_isQualified hq,hm⟩
  refine Bindings.local?_eq_none.mpr fun k hk => ?_
  rw [not_isQualified_of_localKey? hk] at hq
  cases hq

/-- A plain text means the global of its namespace, where no local has its name. -/
theorem resolve_of_undotted {b : Bindings} {path : Text} (hi : c'.isIdentifier = true)
    (hd : c'.image.head? ≠ some '.') (hn : c'.ns = some path)
    (hm : DottedNames.qualify path c'.image ∈ b.globals)
    (hl : ∀ brace, c'.scope = some brace → (brace,c'.image) ∉ b.locals) :
    b.resolve c' = some (.inNamespace (DottedNames.qualify path c'.image)) := by
  have hq : c'.isQualified = false := by
    rw [AnnotatedToken.isQualified_eq hi,DottedNames.isQualified_of_head? hd]
  refine Bindings.resolve_eq_inNamespace.mpr ⟨hi,?_,?_,hm⟩
  · refine Bindings.local?_eq_none.mpr fun k hk hkm => ?_
    obtain ⟨-,hs,himage⟩ := localKey?_eq_some.mp hk
    exact hl k.1 hs (by rwa [himage])
  · rw [AnnotatedToken.canonicalName_of_plain hi hq,hn]

/-- What takes the cursor's place is bound as the item promises. -/
theorem Offered.resolve (h : Offered file t p c binding item)
    (hf : Fits (.ofTokens (parse file t)) c item.insert binding) (hp : c.Parallel c')
    (himage : c'.image = item.insert) :
    (Bindings.ofTokens (parse file t)).resolve c' = some binding := by
  have hc := mem_of_cursorToken h.cursor
  have hi' := hp.isIdentifier.trans h.identifier
  obtain ⟨u,hu,hb,hv,hinsert⟩ := h.exists_visible
  have hi := Bindings.isIdentifier_of_resolve hb
  cases hf with
  | @inLambda brace name dots =>
    have hs : c.scope = some brace := beq_iff_eq.mp hv
    rw [hinsert,nameIn_of_inLambda hc hu hb hs dots] at himage
    obtain ⟨-,hk,hm⟩ := Bindings.resolve_eq_inLambda.mp hb
    obtain ⟨hq,-,himage'⟩ := localKey?_eq_some.mp hk
    rw [AnnotatedToken.isQualified_eq hi,himage',← himage,← AnnotatedToken.isQualified_eq hi'] at hq
    exact Bindings.resolve_eq_inLambda.mpr
      ⟨hi',localKey?_eq_some.mpr ⟨hq,hp.scope.trans hs,himage⟩,hm⟩
  | @inNamespace name qualified replaces unshadowed =>
    obtain ⟨-,-,hname,hm⟩ := Bindings.resolve_eq_inNamespace.mp hb
    rcases AnnotatedToken.nameIn_cases hi (ns_of_parse hu) (hname ▸ qualified) c.ns with
      heq | ⟨path,hns,heq,hd⟩
    · obtain rfl : c'.image = name := himage.trans (hinsert.trans (heq.trans hname))
      exact resolve_of_qualified hi' qualified hm
    · rw [← hinsert,← himage] at heq hd
      obtain rfl := hname.symm.trans heq
      obtain ⟨ns,hcns,hcns'⟩ := hp.ns
      rw [Namespaces.ofToken_of_undotted fun hcd => hd (himage ▸ replaces.dots hcd)] at hcns
      rw [Namespaces.ofToken_of_undotted hd] at hcns'
      refine resolve_of_undotted hi' hd (hcns'.trans (hcns.symm.trans hns)) hm fun brace hs => ?_
      rw [himage]
      exact unshadowed brace (hp.scope.symm.trans hs)

/-- Some item offered at a position, for a binding that has a text there, does not mean it. -/
def Misleads (t : Text) (p : Position) : Prop :=
  ∃ c binding item, Offered [] t p c binding item ∧ isSpellable binding = true ∧
    ¬Means [] t c item.insert binding

/-- The binding of what a text makes in the place of a token. -/
def meaning (t : Text) (c : AnnotatedToken) (insert : Text) : Option Binding :=
  (parse [] (replaced t c insert))[c.index]?.bind
    (Bindings.ofTokens (parse [] (replaced t c insert))).resolve

theorem misleads_of_offer? {k : Nat} (h : (offer? [] t p k).any (fun (c,binding,item) =>
    isSpellable binding && meaning t c item.insert != some binding) = true) : Misleads t p := by
  cases ho : offer? [] t p k with
  | none =>
    rw [ho] at h
    cases h
  | some x =>
    obtain ⟨c,binding,item⟩ := x
    rw [ho,Option.any_some,Bool.and_eq_true,bne_iff_ne] at h
    refine ⟨c,binding,item,offered_of_offer? ho,h.1,?_⟩
    rintro ⟨c',hget,-,-,-,hb⟩
    exact h.2 (by rw [meaning,hget,Option.bind_some,hb])

end

end QScope.Editing
