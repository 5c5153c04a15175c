import Mathlib.Data.List.Basic
import Mathlib.Order.Basic
import Mathlib.Order.Nat
import QScope.Annotating

/-! # Layout runs: the layout that each token finds, and the brackets and braces open in it -/
namespace QScope

theorem Assignments.kindAt_eq_some {tokens : List Token} {i : Nat} {t : Token}
    (ht : tokens[i]? = some t) : kindAt tokens i = some t.kind := by
  rw [kindAt,ht,Option.map_some]

theorem Assignments.lt_length_of_kindAt {tokens : List Token} {i : Nat} {k : Kind}
    (h : kindAt tokens i = some k) : i < tokens.length := by
  obtain ⟨t,ht,-⟩ := Option.map_eq_some_iff.mp h
  exact (List.getElem?_eq_some_iff.mp ht).1

/-- Inside a lambda only a command switches the namespace. -/
theorem Namespaces.after_inLambda {t : Token} (ns : Option Text) (ht : t.kind ≠ .command)
    (following : Option Token) : after ns true t following = ns := by
  cases hk : t.kind with
  | command => exact absurd hk ht
  | keyword =>
    cases following with
    | none => simp only [after,hk]
    | some u =>
      simp only [after,hk]
      exact if_neg fun h => Bool.noConfusion h.2.1
  | _ => simp only [after,hk]

namespace BracketLayout
open Assignments (kindAt)

/-- The brackets and the column list behind a token that is no brace. -/
def Frame.moved (f : Frame) (i : Nat) (t : Token) (following : Option Token) : Frame :=
  match t.kind with
  | .openParen => f.push i (Frame.roundRole following)
  | .openBracket => f.push i (f.squareRole i)
  | .closeParen => f.close true
  | .closeBracket => f.close false
  | .semicolon => f.separate
  | .keyword =>
    if Keywords.queries.contains t.image then f.openColumns
    else if t.image = "from".toList then f.closeColumns
    else f
  | _ => f

/-- Braces open and leave frames, every other token stays in its own. -/
theorem Layout.move_cases (s : Layout) (i : Nat) (t : Token) (following : Option Token) :
    t.kind = .openBrace ∧ s.move i t following = ⟨.fresh (some i),s.inner :: s.outer,s.ns⟩ ∨
    t.kind = .closeBrace ∧ s.outer = [] ∧ s.move i t following = s ∨
    t.kind = .closeBrace ∧
      (∃ f fs, s.outer = f :: fs ∧ s.move i t following = ⟨f,fs,s.ns⟩) ∨
    t.kind ≠ .openBrace ∧ t.kind ≠ .closeBrace ∧
      s.move i t following = ⟨s.inner.moved i t following,s.outer,
        Namespaces.after s.ns (!s.outer.isEmpty) t following⟩ := by
  cases hk : t.kind with
  | openBrace => exact .inl ⟨rfl,by simp only [move,hk,Namespaces.after]⟩
  | closeBrace =>
    cases ho : s.outer with
    | nil => exact .inr (.inl ⟨rfl,rfl,by simp only [move,hk,ho]⟩)
    | cons f fs =>
      exact .inr (.inr (.inl ⟨rfl,f,fs,rfl,by simp only [move,hk,ho,Namespaces.after]⟩))
  | keyword =>
    refine .inr (.inr (.inr ⟨nofun,nofun,?_⟩))
    simp only [move,Frame.moved,hk]
    split
    · rfl
    · split <;> rfl
  | _ => exact .inr (.inr (.inr ⟨nofun,nofun,by simp only [move,Frame.moved,hk]⟩))

/-- The next token counts for the role of a round bracket and as the argument of a call only. -/
theorem Layout.move_congr (s : Layout) (i : Nat) {t : Token} {x y : Option Token}
    (hr : Frame.roundRole x = Frame.roundRole y)
    (hn : ∀ ns inLambda, Namespaces.after ns inLambda t x = Namespaces.after ns inLambda t y) :
    s.move i t x = s.move i t y := by
  rw [move,move]
  rw [hn,hr]

/-- The layout behind the first `k` of the tokens that begin at index `i`. -/
def reached (i : Nat) (s : Layout) (ts : List Token) : Nat → Layout
  | 0 => s
  | k + 1 =>
    match ts[k]? with
    | some t => ((reached i s ts k).enter t).move (i + k) t ts[k + 1]?
    | none => reached i s ts k

section
variable {i k : Nat} {s : Layout} {ts : List Token} {t : Token}

theorem reached_succ (ht : ts[k]? = some t) :
    reached i s ts (k + 1) = ((reached i s ts k).enter t).move (i + k) t ts[k + 1]? := by
  rw [reached,ht]

theorem reached_add (i : Nat) (s : Layout) (ts : List Token) (a k : Nat) :
    reached i s ts (a + k) = reached (i + a) (reached i s ts a) (ts.drop a) k := by
  induction k with
  | zero => rfl
  | succ k ih =>
    rw [← Nat.add_assoc,reached,reached]
    rw [List.getElem?_drop,List.getElem?_drop,ih,Nat.add_assoc i,Nat.add_assoc a k 1]

/-- A layout depends on the tokens in front of it and on the next one. -/
theorem reached_congr {us : List Token} (h : ∀ j ≤ k, us[j]? = ts[j]?) :
    reached i s us k = reached i s ts k := by
  induction k with
  | zero => rfl
  | succ k ih =>
    rw [reached,reached]
    rw [ih fun j hj => h j (Nat.le_succ_of_le hj),h k k.le_succ,h (k + 1) (Nat.le_refl _)]

/-- Each token has its place in the layout that it finds. -/
theorem getElem?_places (i : Nat) (s : Layout) (ts : List Token) (k : Nat) :
    (places i s ts)[k]? = ts[k]?.map fun t => ((reached i s ts k).enter t).place t := by
  induction ts generalizing i s k with
  | nil => rfl
  | cons t ts ih =>
    cases k with
    | zero => rfl
    | succ k =>
      have hr : reached i s (t :: ts) (k + 1) =
          reached (i + 1) ((s.enter t).move i t ts.head?) ts k := by
        rw [Nat.add_comm,reached_add,List.head?_eq_getElem?]
        rfl
      rw [places,List.getElem?_cons_succ,List.getElem?_cons_succ,ih,hr]

/-- What the first layout has and every token keeps holds of every layout. -/
theorem reached_induction {P : Nat → Layout → Prop} (start : P 0 s)
    (step : ∀ k t s', ts[k]? = some t → P k s' →
      P (k + 1) ((s'.enter t).move (i + k) t ts[k + 1]?)) (hk : k ≤ ts.length) :
    P k (reached i s ts k) := by
  induction k with
  | zero => exact start
  | succ k ih =>
    have ht : ts[k]? = some ts[k] := List.getElem?_eq_getElem hk
    rw [reached_succ ht]
    exact step k _ _ ht (ih (Nat.le_of_succ_le hk))

end

/-! The stack of open brackets and braces -/

/-- The indices of the brackets open in one lambda and of its brace, innermost first. -/
def Frame.opened (f : Frame) : List Nat := f.brackets.map (·.1) ++ f.brace.toList

/-- The indices of all open brackets and braces, innermost first. -/
def Layout.opened (s : Layout) : List Nat := (s.inner :: s.outer).flatMap Frame.opened

section
variable {s : Layout} {i j k : Nat} {t : Token} {following : Option Token}

/-- A closing bracket closes its partner and all that was opened behind it. -/
theorem Frame.opened_close {f : Frame} {round : Bool} (h : f.nearest? round = some j) :
    ∃ closed, f.opened = closed ++ j :: (f.close round).opened := by
  obtain ⟨b,hb,rfl⟩ := Option.map_eq_some_iff.mp h
  obtain ⟨rest,hr⟩ := List.head?_eq_some_iff.mp hb
  have hs : f.brackets.takeWhile (fun b => b.2.isRound != round) ++ b :: rest = f.brackets := by
    rw [← hr]
    exact List.takeWhile_append_dropWhile
  refine ⟨(f.brackets.takeWhile fun b => b.2.isRound != round).map (·.1),?_⟩
  rw [opened,opened,close,hr]
  conv_lhs => rw [← hs]
  simp

/-- Without a partner nothing is closed. -/
theorem Frame.close_of_nearest?_eq_none {f : Frame} {round : Bool} (h : f.nearest? round = none) :
    f.close round = f := by
  rw [close,List.head?_eq_none_iff.mp (Option.map_eq_none_iff.mp h)]

theorem Frame.opened_moved (f : Frame) (i : Nat) (t : Token) (following : Option Token) :
    (f.moved i t following).opened.Sublist (i :: f.opened) := by
  have hclose : ∀ round, (f.close round).opened.Sublist (i :: f.opened) := by
    intro round
    refine .cons i ?_
    cases hn : f.nearest? round with
    | none =>
      rw [f.close_of_nearest?_eq_none hn]
    | some j =>
      obtain ⟨closed,hc⟩ := f.opened_close hn
      rw [hc]
      exact (List.sublist_cons_self _ _).trans (List.sublist_append_right _ _)
  have hsame : f.opened.Sublist (i :: f.opened) := List.sublist_cons_self i _
  rw [moved]
  split
  · exact .refl _
  · exact .refl _
  · exact hclose true
  · exact hclose false
  · exact hsame
  · split
    · exact hsame
    · split <;> exact hsame
  · exact hsame

/-- The partner of a closing bracket is open in front of it, and behind it only what was opened
in front of its partner. -/
theorem Layout.opened_closing (h : s.opener? t = some j) :
    ∃ closed, s.opened = closed ++ j :: (s.move i t following).opened := by
  have hclose : ∀ round ns, s.inner.nearest? round = some j →
      ∃ closed, s.opened = closed ++ j :: Layout.opened ⟨s.inner.close round,s.outer,ns⟩ := by
    intro round ns hj
    obtain ⟨closed,hc⟩ := s.inner.opened_close hj
    refine ⟨closed,?_⟩
    rw [opened,opened,List.flatMap_cons,List.flatMap_cons,hc,List.append_assoc,List.cons_append]
  rw [opener?] at h
  split at h
  · rename_i hk
    simp only [move,hk]
    exact hclose true _ h
  · rename_i hk
    simp only [move,hk]
    exact hclose false _ h
  · exact absurd h nofun

/-- A token opens at most itself. -/
theorem Layout.opened_move (s : Layout) (i : Nat) (t : Token) (following : Option Token) :
    (s.move i t following).opened.Sublist (i :: s.opened) := by
  obtain ⟨-,hm⟩ | ⟨-,-,hm⟩ | ⟨-,f,fs,ho,hm⟩ | ⟨-,-,hm⟩ := s.move_cases i t following
  · rw [hm]
    exact .refl _
  · rw [hm]
    exact List.sublist_cons_self i _
  · rw [hm,opened,opened,ho]
    exact (List.sublist_append_right _ _).trans (List.sublist_cons_self i _)
  · rw [hm]
    exact (s.inner.opened_moved i t following).append_right _

theorem Layout.opened_enter_of_startsStatement (s : Layout) (ht : t.startsStatement = true) :
    (s.enter t).opened = [] := by
  rw [enter,if_pos ht]
  rfl

theorem Layout.enter_of_not_startsStatement (s : Layout) (ht : t.startsStatement = false) :
    s.enter t = s := by
  rw [enter,ht]
  rfl

theorem Layout.opened_enter (s : Layout) (t : Token) : (s.enter t).opened.Sublist s.opened := by
  cases ht : t.startsStatement with
  | true =>
    rw [s.opened_enter_of_startsStatement ht]
    exact List.nil_sublist _
  | false =>
    rw [s.enter_of_not_startsStatement ht]

/-- The open brackets and braces stand in front of index `i`, the inner ones behind the outer. -/
structure Layout.Stacked (i : Nat) (s : Layout) : Prop where
  before : ∀ j ∈ s.opened, j < i
  descending : s.opened.Pairwise (· > ·)

theorem Layout.Stacked.start (ns : Option Text) : (Layout.start ns).Stacked i := ⟨nofun,.nil⟩

theorem Layout.Stacked.enter (h : s.Stacked i) (t : Token) : (s.enter t).Stacked i :=
  ⟨fun j hj => h.before j ((s.opened_enter t).subset hj),h.descending.sublist (s.opened_enter t)⟩

theorem Layout.Stacked.move (h : s.Stacked i) (t : Token) (following : Option Token) :
    (s.move i t following).Stacked (i + 1) := by
  have hs := s.opened_move i t following
  refine ⟨fun j hj => ?_,(List.pairwise_cons.mpr ⟨h.before,h.descending⟩).sublist hs⟩
  rcases List.mem_cons.mp (hs.subset hj) with rfl | hj
  · exact j.lt_succ_self
  · exact Nat.lt_succ_of_lt (h.before j hj)

end

/-! What is open in front of a token of a text -/

/-- The tokens behind index `j` and in front of index `i`. -/
def between (tokens : List Token) (j i : Nat) : List Token := (tokens.take i).drop (j + 1)

/-- No statement opens behind index `j` and in front of index `i`. -/
def Unbroken (tokens : List Token) (j i : Nat) : Prop :=
  ∀ r t, j < r → r < i → tokens[r]? = some t → t.startsStatement = false

section
variable {ns : Option Text} {tokens : List Token} {i j k : Nat} {t : Token} {p : Place}

theorem reached_stacked (ns : Option Text) (hk : k ≤ tokens.length) :
    (reached 0 (.start ns) tokens k).Stacked k := by
  refine reached_induction (.start ns) (fun k t s _ h => ?_) hk
  rw [Nat.zero_add]
  exact (h.enter t).move t _

/-- What is open was open before, or it stands in between. -/
theorem mem_opened_reached (hij : i ≤ j) (h : k ∈ (reached 0 (.start ns) tokens j).opened) :
    i ≤ k ∨ k ∈ (reached 0 (.start ns) tokens i).opened := by
  induction j, hij using Nat.le_induction with
  | base => exact .inr h
  | succ j hij ih =>
    rw [reached] at h
    split at h
    · rename_i t ht
      rw [Nat.zero_add] at h
      rcases List.mem_cons.mp ((Layout.opened_move _ j t _).subset h) with rfl | h
      · exact .inl hij
      · exact ih ((Layout.opened_enter _ t).subset h)
    · exact ih h

/-- A new statement leaves nothing open. -/
theorem unbroken_of_opened (hk : k ≤ tokens.length)
    (h : j ∈ (reached 0 (.start ns) tokens k).opened) : Unbroken tokens j k := by
  have hall : ∀ j ∈ (reached 0 (.start ns) tokens k).opened, Unbroken tokens j k := by
    refine reached_induction (P := fun k s => ∀ j ∈ s.opened, Unbroken tokens j k) nofun ?_ hk
    intro k t s ht h j hj r u hr hrk hu
    rw [Nat.zero_add] at hj
    rcases List.mem_cons.mp ((Layout.opened_move _ k t _).subset hj) with rfl | hj
    · omega
    · cases hs : t.startsStatement with
      | true => simp [s.opened_enter_of_startsStatement hs] at hj
      | false =>
        rw [s.enter_of_not_startsStatement hs] at hj
        rcases Nat.lt_succ_iff_lt_or_eq.mp hrk with hrk | rfl
        · exact h j hj r u hr hrk hu
        · obtain rfl : t = u := Option.some.inj (ht.symm.trans hu)
          exact hs
  exact hall j h

/-- The place of a token of a text that begins in the namespace `ns`. -/
theorem place_of_getElem? (ht : tokens[i]? = some t)
    (hp : (places 0 (.start ns) tokens)[i]? = some p) :
    p = ((reached 0 (.start ns) tokens i).enter t).place t := by
  rw [getElem?_places,ht] at hp
  exact (Option.some.inj hp).symm

/-- The partner of a closing bracket is open in front of it, and behind it only what was opened
in front of its partner. -/
theorem opened_of_opener (ht : tokens[i]? = some t)
    (hp : (places 0 (.start ns) tokens)[i]? = some p) (hj : p.opener = some j) :
    ∃ closed, ((reached 0 (.start ns) tokens i).enter t).opened =
      closed ++ j :: (reached 0 (.start ns) tokens (i + 1)).opened := by
  rw [place_of_getElem? ht hp] at hj
  rw [reached_succ ht]
  exact Layout.opened_closing hj

theorem mem_opened_of_opener (ht : tokens[i]? = some t)
    (hp : (places 0 (.start ns) tokens)[i]? = some p) (hj : p.opener = some j) :
    j ∈ ((reached 0 (.start ns) tokens i).enter t).opened := by
  obtain ⟨closed,hc⟩ := opened_of_opener ht hp hj
  rw [hc]
  exact List.mem_append_right closed List.mem_cons_self

/-- From the partner of a closing bracket up to that bracket there is one statement. -/
theorem unbroken_of_opener (ht : tokens[i]? = some t)
    (hp : (places 0 (.start ns) tokens)[i]? = some p) (hj : p.opener = some j) :
    Unbroken tokens j (i + 1) := by
  have hmem := mem_opened_of_opener ht hp hj
  have hi := (List.getElem?_eq_some_iff.mp ht).1
  intro r u hr hri hu
  rcases Nat.lt_succ_iff_lt_or_eq.mp hri with hri | rfl
  · exact unbroken_of_opened hi.le ((Layout.opened_enter _ t).subset hmem) r u hr hri hu
  · obtain rfl : t = u := Option.some.inj (ht.symm.trans hu)
    cases hs : t.startsStatement with
    | true => simp [Layout.opened_enter_of_startsStatement _ hs] at hmem
    | false => rfl

/-- Behind a closing bracket its partner is no longer open. -/
theorem not_mem_opened_of_opener (ht : tokens[i]? = some t)
    (hp : (places 0 (.start ns) tokens)[i]? = some p) (hj : p.opener = some j) (hik : i < k) :
    j ∉ (reached 0 (.start ns) tokens k).opened := by
  intro hmem
  obtain ⟨closed,hc⟩ := opened_of_opener ht hp hj
  have hi := (List.getElem?_eq_some_iff.mp ht).1
  have hs := (reached_stacked ns hi.le).enter t
  have hlt := hs.before j (mem_opened_of_opener ht hp hj)
  rcases mem_opened_reached hik hmem with hk | hmem
  · omega
  · have hd := hs.descending
    rw [hc] at hd
    exact lt_irrefl j ((List.pairwise_cons.mp (List.pairwise_append.mp hd).2.1).1 j hmem)

/-- No opening bracket has two partners. -/
theorem opener_injective {i' : Nat} {t' : Token} {p' : Place} (ht : tokens[i]? = some t)
    (hp : (places 0 (.start ns) tokens)[i]? = some p) (hj : p.opener = some j)
    (ht' : tokens[i']? = some t') (hp' : (places 0 (.start ns) tokens)[i']? = some p')
    (hj' : p'.opener = some j) : i = i' := by
  have hopen := (Layout.opened_enter _ t).subset (mem_opened_of_opener ht hp hj)
  have hopen' := (Layout.opened_enter _ t').subset (mem_opened_of_opener ht' hp' hj')
  rcases lt_trichotomy i i' with h | h | h
  · exact absurd hopen' (not_mem_opened_of_opener ht hp hj h)
  · exact h
  · exact absurd hopen (not_mem_opened_of_opener ht' hp' hj' h)

end

end BracketLayout

namespace Annotating
open BracketLayout Assignments

theorem length_annotateIn (ns : Option Text) (tokens : List Token) :
    (annotateIn ns tokens).length = tokens.length := by
  simp [annotateIn,places_length]

/-- Each token is annotated in the layout that it finds. -/
theorem getElem?_annotateIn (ns : Option Text) (tokens : List Token) (i : Nat) :
    (annotateIn ns tokens)[i]? = tokens[i]?.map fun t =>
      annotated (assignments tokens (places 0 (.start ns) tokens)) i t
        (((reached 0 (.start ns) tokens i).enter t).place t) := by
  have hz : (tokens.zip (places 0 (.start ns) tokens))[i]? = tokens[i]?.map fun t =>
      (t,((reached 0 (.start ns) tokens i).enter t).place t) := by
    rw [List.zip,List.getElem?_zipWith,getElem?_places]
    cases tokens[i]? <;> rfl
  rw [annotateIn,List.getElem?_map,List.getElem?_zipIdx,hz,Nat.zero_add]
  cases tokens[i]? <;> rfl

theorem index_annotateIn {ns : Option Text} {tokens : List Token} {i : Nat} {a : AnnotatedToken}
    (h : (annotateIn ns tokens)[i]? = some a) : a.index = i := by
  rw [getElem?_annotateIn] at h
  obtain ⟨t,-,rfl⟩ := Option.map_eq_some_iff.mp h
  rfl

theorem nodup_annotateIn (ns : Option Text) (tokens : List Token) :
    (annotateIn ns tokens).Nodup := by
  refine List.pairwise_iff_getElem.mpr fun i k hi hk hik heq => hik.ne ?_
  rw [← index_annotateIn (List.getElem?_eq_getElem hi),heq,
    index_annotateIn (List.getElem?_eq_getElem hk)]

end Annotating
end QScope
