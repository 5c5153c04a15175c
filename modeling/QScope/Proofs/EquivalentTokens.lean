import Mathlib.Data.List.Forall2
import QScope.Proofs.LayoutRuns

/-! # Equivalent tokens: other names for identifiers leave all annotations as they are

Of an identifier annotating reads only whether it carries a namespace of its own, and that counts
for no other annotation. -/
namespace QScope
open BracketLayout Assignments

/-- Tokens that annotating cannot tell apart, but for namespaces that they carry themselves. -/
structure Token.Equivalent (t t' : Token) : Prop where
  kind : t'.kind = t.kind
  margin : t'.startsStatement = t.startsStatement
  image : t.kind ≠ .identifier → t'.image = t.image

/-- The same annotations for tokens of the same kind. -/
structure AnnotatedToken.Agrees (a a' : AnnotatedToken) : Prop where
  kind : a'.kind = a.kind
  scope : a'.scope = a.scope
  ns : a'.ns = a.ns
  tangled : a'.tangled = a.tangled
  group : a'.group = a.group
  order : a'.order = a.order
  flags : a'.flags = a.flags

/-- The same annotations for tokens of the same kind in one namespace, which each may leave for one
of its own. -/
structure AnnotatedToken.Parallel (a a' : AnnotatedToken) : Prop where
  kind : a'.kind = a.kind
  scope : a'.scope = a.scope
  ns : ∃ ns, a.ns = Namespaces.ofToken ns a.toToken ∧ a'.ns = Namespaces.ofToken ns a'.toToken
  tangled : a'.tangled = a.tangled
  group : a'.group = a.group
  order : a'.order = a.order
  flags : a'.flags = a.flags

section
variable {t t' : Token}

theorem Namespaces.after_equivalent {f f' : Option Token} (h : t.Equivalent t')
    (hf : Option.Rel Token.Equivalent f f') (ns : Option Text) (inLambda : Bool) :
    after ns inLambda t' f' = after ns inLambda t f := by
  unfold after
  rw [h.kind]
  split
  · rename_i hk
    rw [h.image (by rw [hk]; exact nofun)]
  · rename_i hk
    rw [h.image (by rw [hk]; exact nofun)]
    cases hf with
    | none => rfl
    | some hu =>
      dsimp only
      rw [hu.kind]
      split
      · rename_i hs
        rw [hu.image (by rw [hs.2.2]; exact nofun)]
      · rfl
  · rfl

theorem BracketLayout.Layout.move_equivalent {f f' : Option Token} (h : t.Equivalent t')
    (hf : Option.Rel Token.Equivalent f f') (s : Layout) (i : Nat) :
    s.move i t' f' = s.move i t f := by
  have hr : Frame.roundRole f' = Frame.roundRole f := by
    cases hf with
    | none => rfl
    | some hu => simp only [Frame.roundRole,Option.any_some,hu.kind]
  rw [move,move]
  rw [h.kind,hr,Namespaces.after_equivalent h hf]
  cases hk : t.kind with
  | keyword => rw [h.image (by rw [hk]; rintro ⟨⟩)]
  | _ => rfl

theorem BracketLayout.Layout.enter_equivalent (h : t.Equivalent t') (s : Layout) :
    s.enter t' = s.enter t := by
  rw [enter,enter,h.margin]

/-- A place without its namespace. -/
def BracketLayout.Place.anonymous (p : Place) : Place := {p with ns := none}

theorem BracketLayout.Layout.place_equivalent (h : t.Equivalent t') (s : Layout) :
    (s.place t').anonymous = (s.place t).anonymous := by
  simp only [place,Place.anonymous,scope,opener?,h.kind]

end

section
variable {ts ts' : List Token}

theorem Token.equivalent_getElem? (h : List.Forall₂ Token.Equivalent ts ts') (k : Nat) :
    Option.Rel Token.Equivalent ts[k]? ts'[k]? := by
  induction h generalizing k with
  | nil => exact .none
  | cons ht h ih =>
    cases k with
    | zero => exact .some ht
    | succ k => exact ih k

/-- Tokens that move every layout alike lead to the same ones. -/
theorem BracketLayout.reached_of_moves {i : Nat}
    (h : ∀ k, Option.Rel (fun t t' => ∀ s : Layout, (s.enter t').move (i + k) t' ts'[k + 1]? =
      (s.enter t).move (i + k) t ts[k + 1]?) ts[k]? ts'[k]?) (s : Layout) (k : Nat) :
    reached i s ts' k = reached i s ts k := by
  induction k with
  | zero => rfl
  | succ k ih =>
    have hk := h k
    rw [reached,reached]
    rw [ih]
    generalize ts[k]? = x, ts'[k]? = x' at hk
    cases hk with
    | none => rfl
    | some hm => exact hm _

theorem BracketLayout.reached_equivalent (h : List.Forall₂ Token.Equivalent ts ts') (i : Nat)
    (s : Layout) (k : Nat) : reached i s ts' k = reached i s ts k := by
  refine reached_of_moves (fun k => ?_) s k
  have ht := Token.equivalent_getElem? h k
  have hf := Token.equivalent_getElem? h (k + 1)
  generalize ts[k]? = x, ts'[k]? = x' at ht
  cases ht with
  | none => exact .none
  | some ht => exact .some fun s => by rw [Layout.enter_equivalent ht,Layout.move_equivalent ht hf]

theorem BracketLayout.places_equivalent (h : List.Forall₂ Token.Equivalent ts ts') (i : Nat)
    (s : Layout) :
    (places i s ts').map Place.anonymous = (places i s ts).map Place.anonymous := by
  apply List.ext_getElem?
  intro k
  have ht := Token.equivalent_getElem? h k
  rw [List.getElem?_map,List.getElem?_map,getElem?_places,getElem?_places,
    reached_equivalent h i s k]
  generalize ts[k]? = x, ts'[k]? = x' at ht
  cases ht with
  | none => rfl
  | some ht =>
    simp only [Option.map_some,Layout.enter_equivalent ht,Layout.place_equivalent ht]

/-- No assignment depends on a namespace. -/
theorem Assignments.assignment?_anonymous (ts : List Token) (found : List Place) (i : Nat)
    (t : Token) (p : Place) :
    assignment? ts (found.map Place.anonymous) i t p.anonymous = assignment? ts found i t p := by
  have htarget : ∀ joined k,
      target? ts (found.map Place.anonymous) joined k = target? ts found joined k := by
    intro joined k
    simp only [target?,List.getElem?_map,Option.bind_map]
    rfl
  simp only [assignment?,htarget]
  rfl

theorem Assignments.assignments_anonymous (ts : List Token) (found : List Place) :
    assignments ts (found.map Place.anonymous) = assignments ts found := by
  rw [assignments,assignments,List.zip_map_right,List.zipIdx_map,List.filterMap_map]
  apply List.filterMap_congr
  rintro ⟨⟨t,p⟩,i⟩ -
  exact assignment?_anonymous ts found i t p

/-- Assignments depend on kinds only. -/
theorem Assignments.assignment?_of_kinds (h : ts'.map (·.kind) = ts.map (·.kind))
    (found : List Place) (i : Nat) {t t' : Token} (ht : t'.kind = t.kind) (p : Place) :
    assignment? ts' found i t' p = assignment? ts found i t p := by
  have hkind : ∀ j, kindAt ts' j = kindAt ts j := by
    intro j
    rw [kindAt,kindAt,← List.getElem?_map,← List.getElem?_map,h]
  have hlength : ts'.length = ts.length := by
    have := congrArg List.length h
    rwa [List.length_map,List.length_map] at this
  have htarget : ∀ joined k, target? ts' found joined k = target? ts found joined k := by
    intro joined k
    simp only [target?,hkind,List.map_drop,List.map_take,h]
  simp only [assignment?,htarget,hkind,hlength,ht]

theorem Assignments.assignments_of_kinds (h : List.Forall₂ (fun t t' => t'.kind = t.kind) ts ts')
    (found : List Place) : assignments ts' found = assignments ts found := by
  have hk : ts'.map (·.kind) = ts.map (·.kind) := by
    induction h with
    | nil => rfl
    | cons ht h ih => rw [List.map_cons,List.map_cons,ht,ih]
  have hall : ∀ {us us' : List Token}, List.Forall₂ (fun t t' => t'.kind = t.kind) us us' →
      ∀ (ps : List Place) (i : Nat),
        ((us'.zip ps).zipIdx i).filterMap (fun x => assignment? ts' found x.2 x.1.1 x.1.2) =
          ((us.zip ps).zipIdx i).filterMap (fun x => assignment? ts found x.2 x.1.1 x.1.2) := by
    intro us us' h
    induction h with
    | nil => exact fun _ _ => rfl
    | cons ht h ih =>
      intro ps i
      cases ps with
      | nil => rfl
      | cons p ps =>
        simp only [List.zip_cons_cons,List.zipIdx_cons,List.filterMap_cons,
          assignment?_of_kinds hk found i ht p,ih]
  exact hall h found 0

theorem Assignments.assignments_equivalent (h : List.Forall₂ Token.Equivalent ts ts') (i : Nat)
    (s : Layout) : assignments ts' (places i s ts') = assignments ts (places i s ts) := by
  rw [← assignments_anonymous ts',places_equivalent h,assignments_anonymous,
    assignments_of_kinds (h.imp fun _ _ ht => ht.kind)]

theorem Annotating.annotated_equivalent (made : List Assignment) (i : Nat) (s : Layout)
    {t t' : Token} (h : t.Equivalent t') :
    (annotated made i t (s.place t)).Parallel (annotated made i t' (s.place t')) := by
  have hp := Layout.place_equivalent h s
  simp only [Place.anonymous,Place.mk.injEq] at hp
  exact {
    kind := h.kind
    scope := hp.1
    ns := ⟨s.ns,rfl,rfl⟩
    tangled := rfl
    group := rfl
    order := rfl
    flags := by simp only [annotated,hp.2.2.1] }

/-- Equivalent tokens are annotated in parallel. -/
theorem Annotating.annotateIn_equivalent (ns : Option Text)
    (h : List.Forall₂ Token.Equivalent ts ts') :
    List.Forall₂ AnnotatedToken.Parallel (annotateIn ns ts) (annotateIn ns ts') := by
  rw [List.forall₂_iff_get]
  refine ⟨by rw [length_annotateIn,length_annotateIn,h.length_eq],fun i hi hi' => ?_⟩
  have ha := List.getElem?_eq_getElem hi
  have ha' := List.getElem?_eq_getElem hi'
  rw [length_annotateIn] at hi hi'
  have ht := h.get hi hi'
  rw [getElem?_annotateIn,List.getElem?_eq_getElem hi] at ha
  rw [getElem?_annotateIn,List.getElem?_eq_getElem hi',Assignments.assignments_equivalent h,
    reached_equivalent h] at ha'
  rw [List.get_eq_getElem,List.get_eq_getElem] at ht ⊢
  rw [← Option.some.inj ha,← Option.some.inj ha']
  dsimp only
  rw [Layout.enter_equivalent ht]
  exact annotated_equivalent _ i _ ht

section
variable {a a' : AnnotatedToken}

theorem AnnotatedToken.Parallel.isIdentifier (h : a.Parallel a') :
    a'.isIdentifier = a.isIdentifier := by
  rw [AnnotatedToken.isIdentifier,AnnotatedToken.isIdentifier,h.kind]

theorem AnnotatedToken.Parallel.defines (h : a.Parallel a') : a'.defines = a.defines := by
  rw [AnnotatedToken.defines,AnnotatedToken.defines,isAssigned,isAssigned,h.isIdentifier,h.flags]

/-- Where the tokens are in the same namespace, too, their annotations agree. -/
theorem AnnotatedToken.Parallel.agrees (h : a.Parallel a')
    (hn : ∀ ns, Namespaces.ofToken ns a'.toToken = Namespaces.ofToken ns a.toToken) :
    a.Agrees a' := by
  obtain ⟨hk,hs,⟨ns,ha,ha'⟩,ht,hg,ho,hf⟩ := h
  exact ⟨hk,hs,by rw [ha',hn,ha],ht,hg,ho,hf⟩

end

/-- Annotating leaves tokens that are numbered from zero as they are. -/
theorem Annotating.map_toToken_annotateIn (ns : Option Text) {ts : List Token}
    (h : ∀ (i : Nat) (t : Token), ts[i]? = some t → t.index = i) :
    (annotateIn ns ts).map (·.toToken) = ts := by
  have hmap : (annotateIn ns ts).map (·.toToken) =
      ((ts.zip (places 0 (.start ns) ts)).zipIdx).map (·.1.1) := by
    rw [annotateIn,List.map_map]
    apply List.map_congr_left
    intro x hx
    obtain ⟨ht,-⟩ := List.getElem?_zip_eq_some.mp (List.mem_zipIdx_iff_getElem?.mp hx)
    have hi := h _ _ ht
    simp only [Function.comp,annotated,← hi]
  have hzip : ((ts.zip (places 0 (.start ns) ts)).zipIdx).map (·.1.1) =
      (ts.zip (places 0 (.start ns) ts)).map (·.1) := by
    conv_rhs => rw [← List.zipIdx_map_fst 0 (ts.zip _),List.map_map]
    rfl
  rw [hmap,hzip,List.map_fst_zip (Nat.le_of_eq (places_length 0 _ ts).symm)]

end
end QScope
