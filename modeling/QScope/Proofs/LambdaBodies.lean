import QScope.Proofs.LambdaScopes
import QScope.Proofs.Renumbering

/-! # Lambda bodies: a body runs on frames of its own, whatever is open around its lambda -/
namespace QScope

namespace BracketLayout
open Assignments (kindAt)

/-- The body of a lambda: its braces match, no statement opens in it and no command switches the
namespace. Its round and square brackets need not match. -/
structure Body where
  tokens : List Token
  sheltered : Sheltered tokens
  closed : closing tokens = opening tokens
  plain : ∀ t ∈ tokens, t.kind ≠ .command ∧ t.startsStatement = false

example : Body :=
  ⟨Lexing.tokenize [] " (x]".toList,by decide +kernel,by decide +kernel,by decide +kernel⟩

def Body.empty : Body := ⟨[],.nil,rfl,List.forall_mem_nil _⟩

/-- A text with a hole between the braces of one lambda. -/
structure Hole where
  front : List Token
  opens : Token
  closes : Token
  back : List Token
  opens_kind : opens.kind = .openBrace
  closes_kind : closes.kind = .closeBrace

def Hole.fill (h : Hole) (tokens : List Token) : List Token :=
  h.front ++ h.opens :: (tokens ++ h.closes :: h.back)

/-! Frames below those of a run -/

/-- A layout inside the lambdas of other frames, in the namespace `ns`. -/
def Layout.onto (s : Layout) (below : List Frame) (ns : Option Text) : Layout :=
  ⟨s.inner,s.outer ++ below,ns⟩

section
variable {s : Layout} {below : List Frame} {ns : Option Text} {t : Token}

theorem Layout.onto_enter (ht : t.startsStatement = false) :
    (s.onto below ns).enter t = (s.enter t).onto below ns := by
  rw [enter_of_not_startsStatement _ ht,enter_of_not_startsStatement _ ht]

/-- A token that leaves none of the frames below moves in the frames above as without them. -/
theorem Layout.onto_move (hb : below ≠ []) (ht : t.kind ≠ .command)
    (hc : t.kind = .closeBrace → s.outer ≠ []) (i : Nat) (following : Option Token) :
    (s.onto below ns).move i t following = (s.move i t following).onto below ns := by
  have hns : Namespaces.after ns (!(s.onto below ns).outer.isEmpty) t following = ns := by
    have he : (s.onto below ns).outer.isEmpty = false :=
      List.isEmpty_eq_false_iff.mpr (List.append_ne_nil_of_right_ne_nil s.outer hb)
    rw [he]
    exact Namespaces.after_inLambda ns ht following
  rw [move,move]
  simp only [show (s.onto below ns).ns = ns from rfl,hns]
  cases hk : t.kind with
  | closeBrace =>
    cases ho : s.outer with
    | nil => exact absurd ho (hc hk)
    | cons f fs => simp only [onto,ho,List.cons_append]
  | keyword =>
    simp only [onto]
    split_ifs <;> rfl
  | _ => rfl

theorem Layout.onto_place (hc : t.kind = .closeBrace → s.outer ≠ []) :
    (s.onto below ns).place t = {s.place t with ns := Namespaces.ofToken ns t} := by
  have hs : (s.onto below ns).scope t = s.scope t := by
    rw [scope,scope]
    split
    · rename_i hk
      cases ho : s.outer with
      | nil => exact absurd ho (hc hk)
      | cons f fs => simp only [onto,ho,List.cons_append,List.headD_cons]
    · rfl
  rw [place,hs]
  rfl

/-- A closing brace behind a token counts as nothing. -/
theorem Layout.move_of_closeBrace {c : Token} (hc : c.kind = .closeBrace) (i : Nat) :
    s.move i t (some c) = s.move i t none := by
  have hr : Frame.roundRole (some c) = Frame.roundRole none := by simp [Frame.roundRole,hc]
  refine s.move_congr i hr fun ns inLambda => ?_
  rw [Namespaces.after,Namespaces.after]
  split <;> simp [hc]

end

/-! The run over a body -/

/-- The layout behind the first `k` tokens of a body whose brace has index `i`, by itself. -/
def bodyRun (i : Nat) (tokens : List Token) (k : Nat) : Layout :=
  reached (i + 1) ⟨.fresh (some i),[],none⟩ tokens k

section
variable {i k : Nat} {t c : Token} {b : Body} {below : List Frame} {ns : Option Text}

theorem bodyRun_succ (ht : b.tokens[k]? = some t) : bodyRun i b.tokens (k + 1) =
    ((bodyRun i b.tokens k).enter t).move (i + 1 + k) t b.tokens[k + 1]? :=
  reached_succ ht

/-- Each lambda left open in the beginning of a body has its frame. -/
theorem bodyRun_depth (i : Nat) (hk : k ≤ b.tokens.length) :
    (bodyRun i b.tokens k).outer.length + closing (b.tokens.take k) =
      opening (b.tokens.take k) := by
  induction k with
  | zero => rfl
  | succ k ih =>
    have ht : b.tokens[k]? = some b.tokens[k] := List.getElem?_eq_getElem hk
    have hd := ih (Nat.le_of_succ_le hk)
    have hle := b.sheltered _ (List.take_prefix (k + 1) b.tokens)
    have hs := (b.plain _ (List.getElem_mem hk)).2
    rw [bodyRun_succ ht,Layout.enter_of_not_startsStatement _ hs]
    rw [List.take_add_one,ht,Option.toList_some,opening_concat,closing_concat] at hle ⊢
    obtain ⟨hb,hm⟩ | ⟨hb,ho,-⟩ | ⟨hb,f,fs,ho,hm⟩ | ⟨hb,hb',hm⟩ :=
      (bodyRun i b.tokens k).move_cases (i + 1 + k) b.tokens[k] b.tokens[k + 1]?
    · simp only [hm,hb,List.length_cons,reduceCtorEq,↓reduceIte]
      omega
    · rw [ho] at hd
      simp only [hb,reduceCtorEq,↓reduceIte,List.length_nil] at hd hle
      omega
    · rw [ho,List.length_cons] at hd
      simp only [hm,hb,reduceCtorEq,↓reduceIte]
      omega
    · simp only [hm,hb,hb',↓reduceIte]
      omega

/-- A brace in a body closes a lambda that was opened in the body. -/
theorem bodyRun_outer_ne_nil (i : Nat) (ht : b.tokens[k]? = some t) (hc : t.kind = .closeBrace) :
    (bodyRun i b.tokens k).outer ≠ [] := by
  intro ho
  have hk := (List.getElem?_eq_some_iff.mp ht).1
  have hd := bodyRun_depth i hk.le
  have hle := b.sheltered _ (List.take_prefix (k + 1) b.tokens)
  rw [List.take_add_one,ht,Option.toList_some,opening_concat,closing_concat] at hle
  simp only [ho,List.length_nil,hc,reduceCtorEq,↓reduceIte] at hd hle
  omega

theorem bodyRun_length_outer (i : Nat) (b : Body) :
    (bodyRun i b.tokens b.tokens.length).outer = [] := by
  have hd := bodyRun_depth i (Nat.le_refl b.tokens.length)
  rw [List.take_length,b.closed] at hd
  exact List.eq_nil_of_length_eq_zero (by omega)

/-- Inside other lambdas a body runs as by itself. -/
theorem reached_onto (hb : below ≠ []) (hc : c.kind = .closeBrace) (rest : List Token)
    (hk : k ≤ b.tokens.length) :
    reached (i + 1) ⟨.fresh (some i),below,ns⟩ (b.tokens ++ c :: rest) k =
      (bodyRun i b.tokens k).onto below ns := by
  induction k with
  | zero => rfl
  | succ k ih =>
    have ht : b.tokens[k]? = some b.tokens[k] := List.getElem?_eq_getElem hk
    have ht' : (b.tokens ++ c :: rest)[k]? = some b.tokens[k] := by
      rw [List.getElem?_append_left hk,ht]
    obtain ⟨hcommand,hstart⟩ := b.plain _ (List.getElem_mem hk)
    have hnext : ∀ s : Layout, s.move (i + 1 + k) b.tokens[k] (b.tokens ++ c :: rest)[k + 1]? =
        s.move (i + 1 + k) b.tokens[k] b.tokens[k + 1]? := by
      intro s
      rcases Nat.lt_or_eq_of_le (Nat.succ_le_of_lt hk) with hlt | heq
      · rw [List.getElem?_append_left hlt]
      · have hlast : b.tokens[k + 1]? = none := List.getElem?_eq_none heq.ge
        have hclose : (b.tokens ++ c :: rest)[k + 1]? = some c := by
          rw [List.getElem?_append_right heq.ge,heq,Nat.sub_self]
          rfl
        rw [hlast,hclose,Layout.move_of_closeBrace hc]
    rw [reached_succ ht',ih (Nat.le_of_succ_le hk),hnext]
    rw [bodyRun_succ ht,Layout.onto_enter hstart,Layout.enter_of_not_startsStatement _ hstart]
    exact Layout.onto_move hb hcommand (bodyRun_outer_ne_nil i ht) _ _

/-- A body runs alike behind every brace. -/
theorem bodyRun_renumbered (n i k : Nat) (tokens : List Token) :
    bodyRun (i + n) tokens k = (bodyRun i tokens k).renumbered (· + n) := by
  rw [bodyRun,bodyRun]
  rw [← reached_renumbered (l := i + n + 1) tokens fun j _ => ⟨by omega,adjacent_add n _⟩]
  rfl

end

/-! Texts around a body -/

namespace Hole
variable {h : Hole} {ns : Option Text} {tokens : List Token} {b : Body} {i k n : Nat} {t : Token}

theorem drop_fill (h : Hole) (tokens : List Token) :
    (h.fill tokens).drop (h.front.length + 1) = tokens ++ h.closes :: h.back := by
  rw [fill,List.drop_length_add_append,List.drop_one,List.tail_cons]

theorem drop_back (h : Hole) (tokens : List Token) :
    (h.fill tokens).drop (h.front.length + 2 + tokens.length) = h.back := by
  rw [show h.front.length + 2 + tokens.length = h.front.length + 1 + (tokens.length + 1) by omega,
    ← List.drop_drop,drop_fill,List.drop_length_add_append,List.drop_one,List.tail_cons]

theorem getElem?_front (h : Hole) (tokens : List Token) (hk : k ≤ h.front.length) :
    (h.fill tokens)[k]? = (h.front ++ [h.opens])[k]? := by
  have hlength : k < (h.front ++ [h.opens]).length := by
    rw [List.length_append]
    exact Nat.lt_succ_of_le hk
  rw [fill,List.append_cons,List.getElem?_append_left hlength]

theorem getElem?_opens (h : Hole) (tokens : List Token) :
    (h.fill tokens)[h.front.length]? = some h.opens := by
  rw [h.getElem?_front tokens (Nat.le_refl _),List.getElem?_concat_length]

theorem getElem?_body (h : Hole) (hk : k < tokens.length) :
    (h.fill tokens)[h.front.length + 1 + k]? = tokens[k]? := by
  rw [← List.getElem?_drop,drop_fill,List.getElem?_append_left hk]

theorem getElem?_closes (h : Hole) (tokens : List Token) :
    (h.fill tokens)[h.front.length + 1 + tokens.length]? = some h.closes := by
  rw [← List.getElem?_drop,drop_fill,List.getElem?_append_right (Nat.le_refl _),Nat.sub_self]
  rfl

theorem getElem?_back (h : Hole) (tokens : List Token) (k : Nat) :
    (h.fill tokens)[h.front.length + 2 + k + tokens.length]? = h.back[k]? := by
  rw [Nat.add_right_comm,← List.getElem?_drop,drop_back]

theorem closes_startsStatement (h : Hole) : h.closes.startsStatement = false := by
  rw [Token.startsStatement,h.closes_kind]
  exact Bool.and_false _

/-- The layout around the lambda. -/
def layout (h : Hole) (ns : Option Text) : Layout :=
  (reached 0 (.start ns) (h.front ++ [h.opens]) h.front.length).enter h.opens

theorem reached_front (tokens : List Token) (hk : k ≤ h.front.length) :
    reached 0 (.start ns) (h.fill tokens) k = reached 0 (.start ns) (h.front ++ [h.opens]) k :=
  reached_congr fun _ hj => h.getElem?_front tokens (hj.trans hk)

theorem reached_opens (tokens : List Token) :
    reached 0 (.start ns) (h.fill tokens) (h.front.length + 1) =
      ⟨.fresh (some h.front.length),(h.layout ns).inner :: (h.layout ns).outer,
        (h.layout ns).ns⟩ := by
  rw [reached_succ (h.getElem?_opens tokens),reached_front tokens (Nat.le_refl _),← layout]
  simp only [Layout.move,h.opens_kind,Namespaces.after,Nat.zero_add]

/-- In a body the frames are those of the body by itself, above those around the lambda. -/
theorem reached_body (hk : k ≤ b.tokens.length) :
    reached 0 (.start ns) (h.fill b.tokens) (h.front.length + 1 + k) =
      (bodyRun h.front.length b.tokens k).onto ((h.layout ns).inner :: (h.layout ns).outer)
        (h.layout ns).ns := by
  rw [reached_add,drop_fill,reached_opens,Nat.zero_add]
  exact reached_onto (List.cons_ne_nil _ _) h.closes_kind h.back hk

/-- Behind a lambda the layout is the one around it, whatever its body left open. -/
theorem reached_back (k : Nat) :
    reached 0 (.start ns) (h.fill b.tokens) (h.front.length + 2 + k + b.tokens.length) =
      reached (h.front.length + 2 + b.tokens.length) (h.layout ns) h.back k := by
  have hl : reached 0 (.start ns) (h.fill b.tokens) (h.front.length + 1 + b.tokens.length + 1) =
      h.layout ns := by
    rw [reached_succ (h.getElem?_closes b.tokens),reached_body (Nat.le_refl _)]
    rw [Layout.enter_of_not_startsStatement _ h.closes_startsStatement]
    simp only [Layout.move,h.closes_kind,Layout.onto,bodyRun_length_outer,List.nil_append,
      Namespaces.after]
  rw [Nat.add_right_comm] at hl
  rw [Nat.add_right_comm,reached_add,drop_back,hl,Nat.zero_add]

/-- The place of a token of a body. -/
theorem place_body (h : Hole) (ns : Option Text) (ht : b.tokens[k]? = some t) :
    (places 0 (.start ns) (h.fill b.tokens))[h.front.length + 1 + k]? =
      some {(bodyRun h.front.length b.tokens k).place t with
        ns := Namespaces.ofToken (h.layout ns).ns t} := by
  have hk := (List.getElem?_eq_some_iff.mp ht).1
  have hs := (b.plain t (List.mem_of_getElem? ht)).2
  rw [getElem?_places,h.getElem?_body hk,ht,reached_body hk.le]
  rw [Option.map_some,Layout.enter_of_not_startsStatement _ hs]
  exact congrArg some (Layout.onto_place (bodyRun_outer_ne_nil _ ht))

/-- The place of the brace that closes the lambda. -/
theorem place_closes :
    (places 0 (.start ns) (h.fill b.tokens))[h.front.length + 1 + b.tokens.length]? =
      some ⟨(h.layout ns).inner.brace,Namespaces.ofToken (h.layout ns).ns h.closes,false,false,
        none⟩ := by
  rw [getElem?_places,h.getElem?_closes,reached_body (Nat.le_refl _),Option.map_some]
  rw [Layout.enter_of_not_startsStatement _ h.closes_startsStatement]
  simp [Layout.place,Layout.scope,Layout.opener?,h.closes_kind,Layout.onto,bodyRun_length_outer,
    Kind.isAssign]

end Hole

/-! Places outside a body -/

/-- Room for `n` tokens behind index `p`. -/
def widened (p n : Nat) (j : Nat) : Nat := if j ≤ p then j else j + n

section
variable {p n i j : Nat}

theorem widened_of_le (h : j ≤ p) : widened p n j = j := if_pos h

theorem widened_of_lt (h : p < j) : widened p n j = j + n := if_neg (Nat.not_le_of_lt h)

theorem widened_injective (p n : Nat) : Function.Injective (widened p n) := by
  intro i j h
  rw [widened,widened] at h
  split_ifs at h <;> omega

/-- Only behind index `p` is there a gap. -/
theorem widened_succ (h : i ≠ p) : widened p n (i + 1) = widened p n i + 1 := by
  rw [widened,widened]
  split_ifs <;> omega

theorem adjacent_widened (h : i ≠ p + 1) : Adjacent (widened p n) i := by
  intro j
  rw [widened,widened]
  split_ifs <;> omega

end

namespace Hole
variable {h : Hole} {ns : Option Text} {b : Body} {i k n : Nat} {t : Token}

/-- In front of the lambda no index changes. -/
theorem front_renumbered (hk : k ≤ h.front.length) :
    (reached 0 (.start ns) (h.front ++ [h.opens]) k).renumbered (widened h.front.length n) =
      reached 0 (.start ns) (h.front ++ [h.opens]) k := by
  refine (reached_renumbered _ (fun j hj => ?_) (Layout.start ns)).symm
  rw [Nat.zero_add]
  exact ⟨widened_of_le (by omega),adjacent_widened (by omega)⟩

theorem layout_renumbered :
    (h.layout ns).renumbered (widened h.front.length n) = h.layout ns := by
  rw [layout,← Layout.renumbered_enter,front_renumbered (Nat.le_refl _)]

theorem back_renumbered (k : Nat) :
    (reached (h.front.length + 2) (h.layout ns) h.back k).renumbered (widened h.front.length n) =
      reached (h.front.length + 2 + n) (h.layout ns) h.back k := by
  rw [← reached_renumbered (l := h.front.length + 2 + n) _ fun j hj => ⟨?_,?_⟩]
  · rw [layout_renumbered]
  · rw [widened_of_lt (by omega)]
    omega
  · exact adjacent_widened (by omega)

/-- A token of a text with an empty hole stands in front of the hole or behind it. -/
theorem around_cases (h : Hole) (i : Nat) :
    i ≤ h.front.length ∨ i = h.front.length + 1 ∨ ∃ k, i = h.front.length + 2 + k := by
  rcases lt_trichotomy i (h.front.length + 1) with hi | hi | hi
  · exact .inl (Nat.le_of_lt_succ hi)
  · exact .inr (.inl hi)
  · exact .inr (.inr ⟨i - (h.front.length + 2),by omega⟩)

theorem getElem?_around (h : Hole) (tokens : List Token) (i : Nat) :
    (h.fill tokens)[widened h.front.length tokens.length i]? = (h.fill [])[i]? := by
  rcases h.around_cases i with hi | rfl | ⟨k,rfl⟩
  · rw [widened_of_le hi,h.getElem?_front tokens hi,h.getElem?_front [] hi]
  · rw [widened_of_lt (Nat.lt_succ_self _),h.getElem?_closes]
    exact (h.getElem?_closes []).symm
  · rw [widened_of_lt (by omega),h.getElem?_back]
    exact (h.getElem?_back [] k).symm

/-- Outside a body each token has the place that it has around an empty body. -/
theorem place_around (h : Hole) (ns : Option Text) (b : Body) (i : Nat) :
    (places 0 (.start ns) (h.fill b.tokens))[widened h.front.length b.tokens.length i]? =
      ((places 0 (.start ns) (h.fill []))[i]?).map
        (·.renumbered (widened h.front.length b.tokens.length)) := by
  rcases h.around_cases i with hi | rfl | ⟨k,rfl⟩
  · rw [widened_of_le hi,getElem?_places,getElem?_places,reached_front _ hi,reached_front _ hi,
      h.getElem?_front b.tokens hi,h.getElem?_front [] hi,Option.map_map]
    congr 1
    funext t
    rw [Function.comp,← Layout.renumbered_place,← Layout.renumbered_enter,front_renumbered hi]
  · have hempty : (places 0 (.start ns) (h.fill []))[h.front.length + 1]? = some
        ⟨(h.layout ns).inner.brace,Namespaces.ofToken (h.layout ns).ns h.closes,false,false,none⟩ :=
      place_closes (b := .empty)
    have hbrace : (h.layout ns).inner.brace.map (widened h.front.length b.tokens.length) =
        (h.layout ns).inner.brace := congrArg (·.inner.brace) layout_renumbered
    rw [widened_of_lt (Nat.lt_succ_self _),place_closes,hempty,Option.map_some,Place.renumbered]
    rw [hbrace]
    rfl
  · have hempty : reached 0 (.start ns) (h.fill []) (h.front.length + 2 + k) =
        reached (h.front.length + 2) (h.layout ns) h.back k := reached_back (b := .empty) k
    have hback : (h.fill [])[h.front.length + 2 + k]? = h.back[k]? := h.getElem?_back [] k
    rw [widened_of_lt (by omega),getElem?_places,getElem?_places,reached_back,hempty,
      h.getElem?_back,hback,Option.map_map]
    congr 1
    funext t
    rw [Function.comp,← Layout.renumbered_place,← Layout.renumbered_enter,back_renumbered]

end Hole

end BracketLayout
end QScope
