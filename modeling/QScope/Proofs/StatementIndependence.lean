import QScope.Proofs.Renumbering

/-! # Statement independence: a statement at the left margin is annotated as if it stood alone -/
namespace QScope
open BracketLayout Assignments

namespace Namespaces

theorem after_some {a b : Token} (ns : Option Text) (inLambda : Bool)
    (ha : ¬(a.kind = .keyword ∧ a.image = "system".toList)) :
    after ns inLambda a (some b) = after ns inLambda a none := by
  rw [after,after]
  split
  · rfl
  · rename_i hk
    exact if_neg fun h => ha ⟨hk,h.1⟩
  · rfl

end Namespaces

/-! Layouts, places and assignments of tokens with more tokens in front -/

namespace BracketLayout

/-- The layout behind all of the tokens that begin at index `i`. -/
def final (i : Nat) (s : Layout) : List Token → Layout
  | [] => s
  | t :: ts => final (i + 1) ((s.enter t).move i t ts.head?) ts

def Frame.shifted (n : Nat) (f : Frame) : Frame :=
  ⟨f.brace.map (· + n),f.brackets.map fun b => (b.1 + n,b.2),f.columns⟩

def Layout.shifted (n : Nat) (s : Layout) : Layout :=
  ⟨s.inner.shifted n,s.outer.map (·.shifted n),s.ns⟩

def Place.shifted (n : Nat) (p : Place) : Place :=
  {p with scope := p.scope.map (· + n), opener := p.opener.map (· + n)}

theorem places_shifted (n i : Nat) (s : Layout) (ts : List Token) :
    places (i + n) (s.shifted n) ts = (places i s ts).map (·.shifted n) := by
  apply List.ext_getElem?
  intro k
  have hr : reached (i + n) (s.shifted n) ts k = (reached i s ts k).shifted n :=
    reached_renumbered ts (fun j _ => ⟨Nat.add_right_comm i j n,adjacent_add n _⟩) s
  rw [getElem?_places,List.getElem?_map,getElem?_places,hr,Option.map_map]
  congr 1
  funext t
  exact (congrArg (·.place t) (Layout.renumbered_enter _ t)).trans (Layout.renumbered_place _ t)

/-- Tokens in front of one at the left margin that opens a statement. Nothing reaches across: no
colon or call of `system` at the end, no colon or square bracket at the beginning. -/
structure Separate (front : List Token) (b : Token) : Prop where
  margin : b.startsStatement = true
  value : ∀ a ∈ front.getLast?, a.kind.isAssign = false
  system : ∀ a ∈ front.getLast?, ¬(a.kind = .keyword ∧ a.image = "system".toList)
  target : b.kind.isAssign = false
  bracket : b.kind ≠ .openBracket

theorem Separate.tail {a b : Token} {front : List Token} (h : Separate (a :: front) b) :
    Separate front b := by
  cases front with
  | nil => exact ⟨h.margin,by simp,by simp,h.target,h.bracket⟩
  | cons c cs => exact ⟨h.margin,h.value,h.system,h.target,h.bracket⟩

theorem Layout.enter_of_startsStatement {b : Token} (s : Layout) (hb : b.startsStatement = true) :
    s.enter b = start s.ns :=
  if_pos hb

theorem Layout.move_some {a b : Token} (s : Layout) (i : Nat)
    (ha : ¬(a.kind = .keyword ∧ a.image = "system".toList)) (hb : b.kind ≠ .openBracket) :
    s.move i a (some b) = s.move i a none := by
  have hr : Frame.roundRole (some b) = Frame.roundRole none := by simp [Frame.roundRole,hb]
  exact s.move_congr i hr fun ns inLambda => Namespaces.after_some ns inLambda ha

/-- Of the layout behind the tokens in front only the namespace goes on. -/
theorem places_append {front : List Token} {b : Token} (h : Separate front b) (i : Nat) (s : Layout)
    (rest : List Token) :
    places i s (front ++ b :: rest) =
      places i s front ++ places (i + front.length) (.start (final i s front).ns) (b :: rest) := by
  induction front generalizing i s with
  | nil =>
    have he := s.enter_of_startsStatement h.margin
    have hs := (Layout.start s.ns).enter_of_startsStatement h.margin
    simp only [List.nil_append,places,final,List.length_nil,Nat.add_zero,he]
    rw [hs,show (Layout.start s.ns).ns = s.ns from rfl]
  | cons a front ih =>
    have hm : (s.enter a).move i a (front ++ b :: rest).head? =
        (s.enter a).move i a front.head? := by
      cases front with
      | nil => exact Layout.move_some _ i (h.system a rfl) h.bracket
      | cons c cs => rfl
    have hl : i + (a :: front).length = i + 1 + front.length := Nat.add_right_comm i front.length 1
    rw [List.cons_append,places,hm,ih h.tail,hl]
    rfl

end BracketLayout

namespace Assignments

def Target.shifted (n : Nat) : Target → Target
  | name i => name (i + n)
  | item i => item (i + n)
  | group is => group (is.map (· + n))

def Assignment.shifted (n : Nat) (a : Assignment) : Assignment :=
  {a with
    colon := a.colon + n
    target := a.target.shifted n
    value := a.value.map (· + n)}

theorem Target.shifted_eq_renumbered (n : Nat) : Target.shifted n = Target.renumbered (· + n) := by
  funext x
  cases x <;> rfl

theorem Assignment.shifted_eq_renumbered (n : Nat) :
    Assignment.shifted n = Assignment.renumbered (· + n) := by
  funext a
  rw [shifted,Target.shifted_eq_renumbered]
  rfl

theorem Target.members_shifted (n : Nat) (x : Target) :
    (x.shifted n).members = x.members.map (· + n) := by
  rw [shifted_eq_renumbered,members_renumbered]

/-- The names of a group stand between its brackets. -/
theorem lt_of_names? {i : Nat} {kinds : List Kind} {is : List Nat} (h : names? i kinds = some is)
    {m : Nat} (hm : m ∈ is) : m < i + kinds.length := by
  obtain ⟨r,rfl,hr,-⟩ := mem_names? h hm
  exact Nat.add_lt_add_left (List.getElem?_eq_some_iff.mp hr).1 i

theorem kindAt_append_left {i : Nat} {front : List Token} (h : i < front.length)
    (back : List Token) : kindAt (front ++ back) i = kindAt front i := by
  rw [kindAt,List.getElem?_append_left h,kindAt]

theorem kindAt_append_right (front back : List Token) (i : Nat) :
    kindAt (front ++ back) (i + front.length) = kindAt back i := by
  rw [kindAt,List.getElem?_append_right (Nat.le_add_left _ _),Nat.add_sub_cancel,kindAt]

theorem target?_members_lt {tokens : List Token} {places : List Place} {joined : Bool} {i m : Nat}
    {x : Target} (h : target? tokens places joined i = some x) (hm : m ∈ x.members) :
    m < tokens.length := by
  simp only [target?] at h
  split at h
  · rename_i hk
    obtain rfl := Option.some.inj h
    obtain rfl := List.mem_singleton.mp hm
    exact lt_length_of_kindAt hk
  · split_ifs at h with hk
    obtain rfl := Option.some.inj h
    obtain rfl := List.mem_singleton.mp hm
    exact lt_length_of_kindAt hk
  · rename_i j hk _
    have hi := lt_length_of_kindAt hk
    split at h
    · rename_i a b more hn
      split_ifs at h
      obtain rfl := Option.some.inj h
      have := lt_of_names? hn hm
      simp only [List.length_map,List.length_drop,List.length_take] at this
      by_cases hj : j + 1 ≤ i
      · omega
      · rw [List.drop_eq_nil_of_le (by simp; omega)] at hn
        cases hn
    · cases h
  · cases h

section
variable {front back : List Token} {found own : List Place} {i : Nat} {t : Token} {p : Place}

theorem target?_append_left (back : List Token) (more : List Place) (joined : Bool)
    (hf : Fits front found) (hi : i < front.length) :
    target? (front ++ back) (found ++ more) joined i = target? front found joined i := by
  have hl : i < found.length := hf.length ▸ hi
  have hp : (found ++ more)[i]? = found[i]? := List.getElem?_append_left hl
  have ht : (front ++ back).take i = front.take i :=
    List.take_append_of_le_length (Nat.le_of_lt hi)
  simp only [target?,hp,ht,kindAt_append_left hi]
  rw [List.getElem?_eq_getElem hl,Option.bind_some]
  cases hk : kindAt front i with
  | none => rfl
  | some k =>
    cases k with
    | closeBracket =>
      cases ho : found[i].opener with
      | none => rfl
      | some j =>
        have hj := ((hf.sound (List.getElem?_eq_getElem hi) (List.getElem?_eq_getElem hl)).opener
          j ho).1
        cases j with
        | zero => rfl
        | succ j => simp only [kindAt_append_left (show j < front.length by omega)]
    | closeParen => cases found[i].opener <;> rfl
    | _ => rfl

/-- A square bracket that is not the first token has one in front that may be a target. -/
theorem targetCarried_append (hl : found.length = front.length)
    (ho : kindAt back i = some .closeBracket → openerAt own i ≠ some 0) :
    TargetCarried (· + front.length) back own (front ++ back)
      (found ++ own.map (·.shifted front.length)) i := by
  have hp : openerAt (found ++ own.map (·.shifted front.length)) (i + front.length) =
      (openerAt own i).map (· + front.length) := by
    rw [openerAt,openerAt,← hl,List.getElem?_append_right (Nat.le_add_left _ _),Nat.add_sub_cancel,
      List.getElem?_map]
    cases own[i]? <;> rfl
  refine ⟨kindAt_append_right front back i,fun _ => hp,fun j hk hj => ?_,fun j _ _ => ?_⟩
  · cases j with
    | zero => exact absurd hj (ho hk)
    | succ l => exact .inr ⟨l,rfl,Nat.add_right_comm l 1 _,kindAt_append_right front back l⟩
  · have hb : between (front ++ back) (j + front.length) (i + front.length) =
        between back j i := by
      rw [between,between,Nat.add_comm i,List.take_length_add_append,
        show j + front.length + 1 = front.length + (j + 1) by omega,List.drop_length_add_append]
    rw [hb]
    exact names?_renumbered fun r _ => by omega

theorem assignment?_append_left (back : List Token) (more : List Place) (hf : Fits front found)
    (ht : front[i]? = some t) (hp : found[i]? = some p)
    (hv : ∀ a ∈ front.getLast?, a.kind.isAssign = false) :
    assignment? (front ++ back) (found ++ more) i t p = assignment? front found i t p := by
  have hi := (List.getElem?_eq_some_iff.mp ht).1
  unfold assignment?
  cases ha : p.admits with
  | false => rfl
  | true =>
    cases i with
    | zero => rfl
    | succ k =>
      have hn : k + 1 + 1 < front.length := by
        by_contra hn
        have hlast : front.getLast? = some t := by
          rw [List.getLast?_eq_getElem?,show front.length - 1 = k + 1 by omega,ht]
        simpa [hv t hlast] using (hf.sound ht hp).admits ha
      have hb : k + 1 + 1 < (front ++ back).length := by
        rw [List.length_append]
        omega
      simp only [target?_append_left back more _ hf (Nat.lt_of_succ_lt hi),kindAt_append_left hn,
        if_pos hn,if_pos hb]

theorem assignment?_append_right {b : Token} {rest : List Token} (hl : found.length = front.length)
    (hf : Fits (b :: rest) own) (ht : (b :: rest)[i]? = some t) (hp : own[i]? = some p)
    (hb : b.kind.isAssign = false) (hq : b.kind ≠ .openBracket) :
    assignment? (front ++ b :: rest) (found ++ own.map (·.shifted front.length))
        (i + front.length) t (p.shifted front.length) =
      (assignment? (b :: rest) own i t p).map (·.shifted front.length) := by
  simp only [Assignment.shifted_eq_renumbered]
  cases i with
  | zero =>
    obtain rfl : b = t := Option.some.inj ht
    have ha : p.admits = false := Bool.eq_false_iff.mpr fun ha =>
      absurd (((hf.sound ht hp).admits ha).symm.trans hb) nofun
    simp [assignment?,Place.shifted,ha]
  | succ k =>
    have ho : kindAt (b :: rest) k = some .closeBracket → openerAt own k ≠ some 0 := by
      intro hk hj
      obtain ⟨-,⟨hc,-⟩ | ⟨-,hc⟩⟩ := opener_of_openerAt hf hj
      · exact absurd (hk.symm.trans hc) nofun
      · exact hq (Option.some.inj hc)
    exact assignment?_renumbered (targetCarried_append hl ho) (Nat.add_right_comm k 1 _)
      (Nat.add_right_comm k 2 _) (kindAt_append_right front (b :: rest) (k + 2)) p.ns

/-- The tokens in front keep their numbers, those behind are numbered on. -/
theorem zipIdx_zip_append (hl : found.length = front.length) (back : List Token)
    (own : List Place) :
    ((front ++ back).zip (found ++ own.map (·.shifted front.length))).zipIdx =
      (front.zip found).zipIdx ++ ((back.zip own).zipIdx).map fun x =>
        ((x.1.1,x.1.2.shifted front.length),x.2 + front.length) := by
  have hn : 0 + (front.zip found).length = front.length := by simp [hl]
  rw [List.zip_append hl.symm,List.zipIdx_append,hn,List.zip_map_right,List.zipIdx_map,
    List.zipIdx_eq_map_add (i := front.length),List.map_map]
  congr 2
  funext x
  simp [Prod.map,Nat.add_comm]

theorem assignments_append {b : Token} {rest : List Token} (hf : Fits front found)
    (hb : Fits (b :: rest) own) (h : Separate front b) :
    assignments (front ++ b :: rest) (found ++ own.map (·.shifted front.length)) =
      assignments front found ++ (assignments (b :: rest) own).map (·.shifted front.length) := by
  unfold assignments
  rw [zipIdx_zip_append hf.length,List.filterMap_append,List.filterMap_map,List.map_filterMap]
  congr 1
  · apply List.filterMap_congr
    intro x hx
    obtain ⟨ht,hp⟩ := List.getElem?_zip_eq_some.mp (List.mem_zipIdx_iff_getElem?.mp hx)
    exact assignment?_append_left _ _ hf ht hp h.value
  · apply List.filterMap_congr
    intro x hx
    obtain ⟨ht,hp⟩ := List.getElem?_zip_eq_some.mp (List.mem_zipIdx_iff_getElem?.mp hx)
    exact assignment?_append_right hf.length hb ht hp h.target h.bracket

/-- An assignment among the first `n` tokens. -/
structure Assignment.Within (n : Nat) (a : Assignment) : Prop where
  colon : a.colon < n
  members : ∀ m ∈ a.target.members, m < n

theorem within_of_mem {tokens : List Token} {a : Assignment} (h : a ∈ assignments tokens found) :
    a.Within tokens.length := by
  obtain ⟨⟨⟨t,p⟩,i⟩,hx,ha⟩ := List.mem_filterMap.mp h
  obtain ⟨ht,-⟩ := List.getElem?_zip_eq_some.mp (List.mem_zipIdx_iff_getElem?.mp hx)
  have hi := (List.getElem?_eq_some_iff.mp ht).1
  dsimp only [assignment?] at ha
  split at ha
  · obtain ⟨x,hx,rfl⟩ := Option.map_eq_some_iff.mp ha
    exact ⟨hi,fun m hm => target?_members_lt hx hm⟩
  · exact absurd ha nofun

end

end Assignments

/-- A token with more tokens in front. -/
def AnnotatedToken.shifted (n : Nat) (t : AnnotatedToken) : AnnotatedToken :=
  {t with
    index := t.index + n
    scope := t.scope.map (· + n)
    tangled := t.tangled.map (· + n)
    group := t.group.map (· + n)}

namespace Annotating

section
variable {n i : Nat} {made : List Assignment}

theorem annotated_append_left (more : List Assignment) (hi : i < n) (t : Token) (p : Place) :
    annotated (made ++ more.map (·.shifted n)) i t p = annotated made i t p := by
  have hm : (more.map (·.shifted n)).find? (·.target.members.contains i) = none := by
    refine List.find?_eq_none.mpr fun a ha => ?_
    obtain ⟨a,-,rfl⟩ := List.mem_map.mp ha
    simp only [Assignment.shifted,Target.members_shifted,List.contains_iff_mem,List.mem_map]
    rintro ⟨m,-,hm⟩
    omega
  have hc : (more.map (·.shifted n)).find? (·.colon == i) = none := by
    refine List.find?_eq_none.mpr fun a ha => ?_
    obtain ⟨a,-,rfl⟩ := List.mem_map.mp ha
    simp only [Assignment.shifted,beq_iff_eq]
    omega
  simp only [annotated,List.find?_append,hm,hc,Option.or_none]

theorem annotated_append_right (hw : ∀ a ∈ made, a.Within n) (own : List Assignment) (i : Nat)
    (t : Token) (p : Place) :
    annotated (made ++ own.map (·.shifted n)) (i + n) t (p.shifted n) =
      (annotated own i t p).shifted n := by
  have hm : made.find? (·.target.members.contains (i + n)) = none := by
    refine List.find?_eq_none.mpr fun a ha => ?_
    rw [List.contains_iff_mem]
    intro hm
    have := (hw a ha).members _ hm
    omega
  have hc : made.find? (·.colon == i + n) = none := by
    refine List.find?_eq_none.mpr fun a ha => ?_
    have := (hw a ha).colon
    simp only [beq_iff_eq]
    omega
  have hm' : (fun a : Assignment => a.target.members.contains (i + n)) ∘
      Assignment.renumbered (· + n) = fun a => a.target.members.contains i := by
    funext a
    exact Bool.eq_iff_iff.mpr (by simp [Assignment.renumbered])
  have hc' : (fun a : Assignment => a.colon == i + n) ∘ Assignment.renumbered (· + n) =
      fun a => a.colon == i := by
    funext a
    exact Bool.eq_iff_iff.mpr (by simp [Assignment.renumbered])
  rw [Assignment.shifted_eq_renumbered]
  refine annotated_renumbered (fun j k h => Nat.add_right_cancel h) ?_ ?_ t p p.ns
  · rw [List.find?_append,hm,Option.none_or,List.find?_map,hm']
  · rw [List.find?_append,hc,Option.none_or,List.find?_map,hc']

end

/-- The namespace in effect behind the tokens of a text that begins in the namespace `ns`. -/
def namespaceBehind (ns : Option Text) (tokens : List Token) : Option Text :=
  (final 0 (.start ns) tokens).ns

/-- Whatever brackets, lambdas and column lists are left open in front: a statement at the left
margin is annotated as it is alone, in the namespace that is in effect there. -/
theorem annotateIn_append (ns : Option Text) {front : List Token} {b : Token} (rest : List Token)
    (h : Separate front b) :
    annotateIn ns (front ++ b :: rest) =
      annotateIn ns front ++
        (annotateIn (namespaceBehind ns front) (b :: rest)).map (·.shifted front.length) := by
  have hp : places 0 (.start ns) (front ++ b :: rest) = places 0 (.start ns) front ++
      (places 0 (.start (namespaceBehind ns front)) (b :: rest)).map (·.shifted front.length) := by
    rw [places_append h,← places_shifted]
    rfl
  have hf := places_fits ns front
  have hb := places_fits (namespaceBehind ns front) (b :: rest)
  unfold annotateIn
  rw [hp]
  simp only [assignments_append hf hb h,zipIdx_zip_append hf.length,List.map_append,List.map_map]
  congr 1
  · apply List.map_congr_left
    intro x hx
    have hi := (List.getElem?_eq_some_iff.mp (List.mem_zipIdx_iff_getElem?.mp hx)).1
    rw [List.length_zip] at hi
    exact annotated_append_left _ (Nat.lt_of_lt_of_le hi (Nat.min_le_left _ _)) x.1.1 x.1.2
  · apply List.map_congr_left
    intro x hx
    exact annotated_append_right (fun a ha => within_of_mem ha) _ x.2 x.1.1 x.1.2

theorem annotate_behind_open_lambda :
    Separate (Lexing.tokenize [] "f:\x7b(a;".toList)
        ⟨.identifier,['x'],⟨[],⟨2,1⟩,⟨2,1⟩⟩,6,none⟩ ∧
      annotate (Lexing.tokenize [] "f:\x7b(a;".toList ++
          [⟨.identifier,['x'],⟨[],⟨2,1⟩,⟨2,1⟩⟩,6,none⟩,⟨.colon,[':'],⟨[],⟨2,2⟩,⟨2,2⟩⟩,7,none⟩]) =
        annotate (Lexing.tokenize [] "f:\x7b(a;".toList) ++
          (annotateIn (namespaceBehind none (Lexing.tokenize [] "f:\x7b(a;".toList))
            [⟨.identifier,['x'],⟨[],⟨2,1⟩,⟨2,1⟩⟩,6,none⟩,
              ⟨.colon,[':'],⟨[],⟨2,2⟩,⟨2,2⟩⟩,7,none⟩]).map
            (·.shifted (Lexing.tokenize [] "f:\x7b(a;".toList).length) := by
  have h : Separate (Lexing.tokenize [] "f:\x7b(a;".toList)
      ⟨.identifier,['x'],⟨[],⟨2,1⟩,⟨2,1⟩⟩,6,none⟩ :=
    ⟨rfl,by decide +kernel,by decide +kernel,rfl,nofun⟩
  exact ⟨h,annotateIn_append none _ h⟩

end Annotating
end QScope
