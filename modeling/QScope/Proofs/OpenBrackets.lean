import QScope.Proofs.BracketMatching
import QScope.Proofs.LambdaScopes

/-! # Open brackets: which brackets and braces are open in front of a token, and what they hold

A closing bracket closes the nearest open bracket of its shape in the innermost lambda, together
with all that was opened behind it, and is passed over when there is none. What an open bracket
holds is seen from the tokens next to it. -/
namespace QScope.BracketLayout
open Assignments (kindAt)

/-- Whether the token at an index opens a statement. -/
def opensStatement (tokens : List Token) (i : Nat) : Bool := tokens[i]?.any (·.startsStatement)

/-- Whether a token is passed over in search of an open bracket of some kind: it is none, and no
brace, behind which there is another lambda. -/
def isPassed (tokens : List Token) (kind : Kind) (j : Nat) : Bool :=
  kindAt tokens j != some kind && kindAt tokens j != some .openBrace

/-- What remains of the open brackets and braces when the nearest one of a kind is closed. -/
def closed (tokens : List Token) (kind : Kind) (js : List Nat) : List Nat :=
  match js.dropWhile (isPassed tokens kind) with
  | [] => js
  | j :: rest => if kindAt tokens j = some kind then rest else js

/-- What is open behind the token at index `i`. -/
def openBehind (tokens : List Token) (i : Nat) (js : List Nat) : List Nat :=
  match kindAt tokens i with
  | some .openBrace | some .openParen | some .openBracket => i :: js
  | some .closeBrace => closed tokens .openBrace js
  | some .closeParen => closed tokens .openParen js
  | some .closeBracket => closed tokens .openBracket js
  | _ => js

/-- The brackets and braces that are open in front of the token at an index, the innermost first.
None are at the beginning of a statement. -/
def openBefore (tokens : List Token) : Nat → List Nat
  | 0 => []
  | i + 1 =>
    if opensStatement tokens (i + 1) then [] else openBehind tokens i (openBefore tokens i)

/-- The bracket or brace that a token stands directly inside. -/
def level (tokens : List Token) (i : Nat) : Option Nat := (openBefore tokens i).head?

/-- The brackets open around a token in its lambda. -/
def bracketsAround (tokens : List Token) (i : Nat) : List Nat :=
  (openBefore tokens i).takeWhile fun j => kindAt tokens j != some .openBrace

/-- A round bracket directly in front of a square one opens a table literal. -/
def OpensTable (tokens : List Token) (j : Nat) : Prop :=
  kindAt tokens j = some .openParen ∧ kindAt tokens (j + 1) = some .openBracket

/-- A square bracket directly behind a token of some kind, in the same statement. -/
def OpensBehind (tokens : List Token) (kind : Kind) (j : Nat) : Prop :=
  kindAt tokens j = some .openBracket ∧ opensStatement tokens j = false ∧
    ∃ k, j = k + 1 ∧ kindAt tokens k = some kind

/-- The square bracket directly behind the round one of a table literal opens its keys. -/
def OpensKeys (tokens : List Token) (j : Nat) : Prop := OpensBehind tokens .openParen j

/-- A square bracket directly behind the brace of a lambda opens its parameters. -/
def OpensParams (tokens : List Token) (j : Nat) : Prop := OpensBehind tokens .openBrace j

section
variable {tokens : List Token} {i j k : Nat} {t : Token} {kind : Kind} {js rest : List Nat}

/-! One token at a time -/

theorem closed_suffix (tokens : List Token) (kind : Kind) (js : List Nat) :
    closed tokens kind js <:+ js := by
  rw [closed]
  split
  · exact List.suffix_rfl
  · rename_i j rest h
    split
    · exact (List.suffix_cons j rest).trans (h ▸ List.dropWhile_suffix _)
    · exact List.suffix_rfl

theorem openBehind_suffix (tokens : List Token) (i : Nat) (js : List Nat) :
    openBehind tokens i js <:+ i :: js := by
  have hclosed := fun kind => (closed_suffix tokens kind js).trans (List.suffix_cons i js)
  rw [openBehind]
  split
  · exact List.suffix_rfl
  · exact List.suffix_rfl
  · exact List.suffix_rfl
  · exact hclosed .openBrace
  · exact hclosed .openParen
  · exact hclosed .openBracket
  · exact List.suffix_cons i js

theorem openBefore_suffix (tokens : List Token) (i : Nat) :
    openBefore tokens (i + 1) <:+ i :: openBefore tokens i := by
  rw [openBefore]
  split
  · exact List.nil_suffix
  · exact openBehind_suffix tokens i _

theorem lt_of_mem_openBefore (h : j ∈ openBefore tokens i) : j < i := by
  induction i with
  | zero => exact absurd h List.not_mem_nil
  | succ i ih =>
    rcases List.mem_cons.mp ((openBefore_suffix tokens i).subset h) with rfl | h
    · exact j.lt_succ_self
    · exact Nat.lt_succ_of_lt (ih h)

/-- Outside an open bracket is what was open in front of it. -/
theorem openBefore_of_suffix (h : j :: rest <:+ openBefore tokens i) :
    openBefore tokens j = rest := by
  induction i with
  | zero => exact absurd (List.suffix_nil.mp h) (List.cons_ne_nil j rest)
  | succ i ih =>
    rcases List.suffix_cons_iff.mp (h.trans (openBefore_suffix tokens i)) with h | h
    · obtain ⟨rfl,rfl⟩ := List.cons.inj h
      rfl
    · exact ih h

theorem openBefore_of_opensStatement (h : opensStatement tokens i = true) :
    openBefore tokens i = [] := by
  cases i with
  | zero => rfl
  | succ i => rw [openBefore,if_pos h]

theorem opensStatement_of_mem (h : j ∈ openBefore tokens i) : opensStatement tokens i = false := by
  refine Bool.eq_false_iff.mpr fun hs => ?_
  rw [openBefore_of_opensStatement hs] at h
  cases h

/-- A bracket or brace is open right behind itself. -/
theorem openBefore_of_opener (h : opensStatement tokens (i + 1) = false)
    (hk : kindAt tokens i = some .openBrace ∨ kindAt tokens i = some .openParen ∨
      kindAt tokens i = some .openBracket) :
    openBefore tokens (i + 1) = i :: openBefore tokens i := by
  rw [openBefore,h]
  rcases hk with hk | hk | hk <;> rw [openBehind,hk] <;> rfl

/-! The stack of the layout -/

/-- The kind of the tokens that open round or square brackets. -/
def shape (round : Bool) : Kind := if round then .openParen else .openBracket

theorem shape_ne_openBrace (round : Bool) : shape round ≠ .openBrace := by
  cases round <;> exact nofun

/-- A search through the brackets of a lambda goes by their shapes. -/
theorem dropWhile_brackets {bs : List (Nat × Role)}
    (hb : ∀ b ∈ bs, kindAt tokens b.1 = some (shape b.2.isRound)) (round : Bool) :
    (bs.map (·.1) ++ js).dropWhile (isPassed tokens (shape round)) =
      match bs.dropWhile fun b => b.2.isRound != round with
      | [] => js.dropWhile (isPassed tokens (shape round))
      | b :: rest => b.1 :: (rest.map (·.1) ++ js) := by
  induction bs with
  | nil => rfl
  | cons b bs ih =>
    obtain ⟨hk,hb⟩ := List.forall_mem_cons.mp hb
    have hpassed : isPassed tokens (shape round) b.1 = (b.2.isRound != round) := by
      rw [isPassed,hk]
      cases b.2.isRound <;> cases round <;> rfl
    rw [List.map_cons,List.cons_append,List.dropWhile_cons,List.dropWhile_cons,hpassed]
    split
    · exact ih hb
    · rfl

/-- No bracket is passed by a search for braces. -/
theorem dropWhile_openBrace {bs : List (Nat × Role)}
    (hb : ∀ b ∈ bs, kindAt tokens b.1 = some (shape b.2.isRound)) :
    (bs.map (·.1) ++ js).dropWhile (isPassed tokens .openBrace) =
      js.dropWhile (isPassed tokens .openBrace) := by
  induction bs with
  | nil => rfl
  | cons b bs ih =>
    obtain ⟨hk,hb⟩ := List.forall_mem_cons.mp hb
    have hpassed : isPassed tokens .openBrace b.1 = true := by
      rw [isPassed,hk]
      cases b.2.isRound <;> rfl
    rw [List.map_cons,List.cons_append,List.dropWhile_cons_of_pos hpassed]
    exact ih hb

/-- A layout that agrees with the tokens in front of index `i`. -/
structure Layout.Tracks (tokens : List Token) (i : Nat) (s : Layout) : Prop where
  sound : s.Sound tokens i
  nested : s.Nested (enclosing tokens i)
  opened : s.opened = openBefore tokens i

namespace Layout.Tracks
variable {s : Layout}

theorem shapes (h : s.Tracks tokens i) :
    ∀ b ∈ s.inner.brackets, kindAt tokens b.1 = some (shape b.2.isRound) :=
  fun b hb => (h.sound.inner.brackets b hb).shape

/-- Outside every lambda there is nothing around the brackets. -/
theorem outer_of_brace (h : s.Tracks tokens i) (hb : s.inner.brace = none) : s.outer = [] := by
  have hn := h.nested
  rw [Layout.Nested,List.map_cons,hb] at hn
  cases he : enclosing tokens i with
  | nil =>
    rw [he] at hn
    exact List.map_eq_nil_iff.mp (List.cons.inj hn).2
  | cons j js =>
    rw [he] at hn
    cases (List.cons.inj hn).1

theorem brace_of_outer (h : s.Tracks tokens i) (ho : s.outer = []) : s.inner.brace = none := by
  have hn := h.nested
  rw [h.nested.eq_nil ho,Layout.Nested,ho] at hn
  exact (List.cons.inj hn).1

theorem opened_eq (s : Layout) : s.opened =
    s.inner.brackets.map (·.1) ++ (s.inner.brace.toList ++ s.outer.flatMap Frame.opened) := by
  rw [Layout.opened,List.flatMap_cons,Frame.opened,List.append_assoc]

/-- A search for a bracket that is not in the innermost lambda finds its brace or nothing. -/
theorem closed_outside (h : s.Tracks tokens i) {round : Bool}
    (hn : s.inner.fromNearest round = []) : closed tokens (shape round) s.opened = s.opened := by
  have hd : s.opened.dropWhile (isPassed tokens (shape round)) =
      (s.inner.brace.toList ++ s.outer.flatMap Frame.opened).dropWhile
        (isPassed tokens (shape round)) := by
    rw [opened_eq,dropWhile_brackets h.shapes,show s.inner.brackets.dropWhile _ = [] from hn]
  rw [closed,hd]
  cases hb : s.inner.brace with
  | none =>
    rw [h.outer_of_brace hb]
    rfl
  | some j =>
    have hk := (h.sound.inner.brace j hb).2
    have hpassed : isPassed tokens (shape round) j = false := by
      rw [isPassed,hk,bne_self_eq_false,Bool.and_false]
    rw [Option.toList_some,List.singleton_append,
      List.dropWhile_cons_of_neg (Bool.eq_false_iff.mp hpassed)]
    exact if_neg fun he => shape_ne_openBrace round (Option.some.inj (he.symm.trans hk))

/-- A closing bracket leaves open what its frame says. -/
theorem closed_shape (h : s.Tracks tokens i) (round : Bool) (ns : Option Text) :
    closed tokens (shape round) s.opened =
      Layout.opened ⟨s.inner.close round,s.outer,ns⟩ := by
  cases hn : s.inner.fromNearest round with
  | nil =>
    rw [h.closed_outside hn,Frame.close,hn]
    rfl
  | cons b rest =>
    have hnearest : s.inner.nearest? round = some b.1 := by
      rw [Frame.nearest?,hn]
      rfl
    have hd : s.opened.dropWhile (isPassed tokens (shape round)) =
        b.1 :: (rest.map (·.1) ++ (s.inner.brace.toList ++ s.outer.flatMap Frame.opened)) := by
      rw [opened_eq,dropWhile_brackets h.shapes,
        show s.inner.brackets.dropWhile _ = b :: rest from hn]
    have hk : kindAt tokens b.1 = some (shape round) := (h.sound.inner.nearest? hnearest).2
    rw [closed,hd]
    dsimp only
    rw [if_pos hk,opened_eq,Frame.close,hn]

/-- A closing brace leaves open what the frames around its own say. -/
theorem closed_openBrace (h : s.Tracks tokens i) :
    closed tokens .openBrace s.opened =
      if s.outer = [] then s.opened else s.outer.flatMap Frame.opened := by
  rw [closed,opened_eq,dropWhile_openBrace h.shapes]
  cases hb : s.inner.brace with
  | none =>
    rw [h.outer_of_brace hb]
    rfl
  | some j =>
    have hk := (h.sound.inner.brace j hb).2
    have hpassed : isPassed tokens .openBrace j = false := by
      rw [isPassed,hk,bne_self_eq_false,Bool.and_false]
    have ho : s.outer ≠ [] := fun ho => by
      rw [h.brace_of_outer ho] at hb
      cases hb
    rw [Option.toList_some,List.singleton_append,
      List.dropWhile_cons_of_neg (Bool.eq_false_iff.mp hpassed),if_neg ho]
    exact if_pos hk

/-- What is open behind a token is open in the layout behind it. -/
theorem opened_move (h : s.Tracks tokens i) (ht : tokens[i]? = some t) (following : Option Token) :
    (s.move i t following).opened = openBehind tokens i s.opened := by
  rw [openBehind,Assignments.kindAt_eq_some ht,Layout.move]
  cases hk : t.kind with
  | openBrace => rfl
  | openParen => rfl
  | openBracket => rfl
  | closeBrace =>
    dsimp only
    rw [h.closed_openBrace]
    cases s.outer <;> rfl
  | closeParen => exact (h.closed_shape true _).symm
  | closeBracket => exact (h.closed_shape false _).symm
  | keyword =>
    dsimp only
    split
    · rfl
    · split <;> rfl
  | _ => rfl

end Layout.Tracks

theorem opensStatement_eq (ht : tokens[i]? = some t) :
    opensStatement tokens i = t.startsStatement := by
  rw [opensStatement,ht,Option.any_some]

/-- Each token finds a layout that agrees with the tokens in front of it. -/
theorem tracks_reached (ns : Option Text) (ht : tokens[i]? = some t) :
    ((reached 0 (.start ns) tokens i).enter t).Tracks tokens i := by
  have hi := (List.getElem?_eq_some_iff.mp ht).1
  have hsound := (reached_sound ns hi.le).enter t
  refine ⟨hsound,nested_reached ns ht,?_⟩
  induction i generalizing t with
  | zero =>
    rw [reached,Layout.enter]
    split <;> rfl
  | succ i ih =>
    have hu : tokens[i]? = some tokens[i] := List.getElem?_eq_getElem (Nat.lt_of_succ_lt hi)
    have hlt := Nat.lt_of_succ_lt hi
    have hs := (reached_sound ns hlt.le).enter tokens[i]
    have htracks : ((reached 0 (.start ns) tokens i).enter tokens[i]).Tracks tokens i :=
      ⟨hs,nested_reached ns hu,ih hu hlt hs⟩
    rw [openBefore,opensStatement_eq ht,← htracks.opened]
    cases hstart : t.startsStatement with
    | true => exact Layout.opened_enter_of_startsStatement _ hstart
    | false =>
      rw [Layout.enter_of_not_startsStatement _ hstart,reached_succ hu,Nat.zero_add]
      exact htracks.opened_move hu _

/-! What brackets hold -/

/-- A bracket whose role is the one seen from the tokens next to it. -/
structure Classified (tokens : List Token) (b : Nat × Role) : Prop where
  table : b.2 = .table ↔ OpensTable tokens b.1
  keys : b.2 = .keys ↔ OpensKeys tokens b.1
  params : b.2 = .params ↔ OpensParams tokens b.1

/-- What a token stands directly inside, behind the given brackets of a frame. -/
def Frame.levelIn (f : Frame) (bs : List (Nat × Role)) : Option Nat :=
  (bs.head?.map (·.1)).or f.brace

namespace Layout.Tracks
variable {s : Layout}

/-- The innermost open bracket or brace is one of the innermost lambda. -/
theorem level_eq (h : s.Tracks tokens i) :
    level tokens i = s.inner.levelIn s.inner.brackets := by
  rw [level,← h.opened,opened_eq,List.head?_append,List.head?_map,List.head?_append,
    Frame.levelIn]
  cases hb : s.inner.brace with
  | none =>
    rw [h.outer_of_brace hb]
    rfl
  | some j => rfl

theorem level_of_head? (h : s.Tracks tokens i) {b : Nat × Role}
    (hb : s.inner.brackets.head? = some b) : level tokens i = some b.1 := by
  rw [h.level_eq,Frame.levelIn,hb]
  rfl

theorem exists_head? (h : s.Tracks tokens i) (hl : level tokens i = some j)
    (hk : kindAt tokens j ≠ some .openBrace) :
    ∃ role, s.inner.brackets.head? = some (j,role) := by
  rw [h.level_eq,Frame.levelIn] at hl
  cases hb : s.inner.brackets.head? with
  | none =>
    rw [hb] at hl
    exact absurd (h.sound.inner.brace j hl).2 hk
  | some b =>
    rw [hb] at hl
    obtain rfl := Option.some.inj hl
    exact ⟨b.2,rfl⟩

/-- A token right behind the brace of its lambda. -/
theorem brace_iff (h : s.Tracks tokens i) : s.inner.brace.any (· + 1 == i) = true ↔
    opensStatement tokens i = false ∧ ∃ k, i = k + 1 ∧ kindAt tokens k = some .openBrace := by
  rw [Option.any_eq_true]
  constructor
  · rintro ⟨k,hk,hi⟩
    have hmem : k ∈ openBefore tokens i := by
      rw [← h.opened,opened_eq,hk]
      simp
    exact ⟨opensStatement_of_mem hmem,k,(beq_iff_eq.mp hi).symm,(h.sound.inner.brace k hk).2⟩
  · rintro ⟨hs,k,rfl,hk⟩
    refine ⟨k,?_,beq_self_eq_true _⟩
    have hl : level tokens (k + 1) = some k := by
      rw [level,openBefore_of_opener hs (.inl hk)]
      rfl
    rw [h.level_eq,Frame.levelIn] at hl
    cases hb : s.inner.brackets.head? with
    | none => rwa [hb] at hl
    | some b =>
      rw [hb] at hl
      obtain rfl := Option.some.inj hl
      have hshape := h.shapes b (List.mem_of_mem_head? hb)
      rw [hk] at hshape
      exact absurd (Option.some.inj hshape).symm (shape_ne_openBrace _)

/-- A token right behind the round bracket of a table literal. -/
theorem table_iff (h : s.Tracks tokens i) (hc : ∀ b ∈ s.inner.brackets, Classified tokens b)
    (hi : kindAt tokens i = some .openBracket) :
    (∃ k, s.inner.brackets.head? = some (k,.table) ∧ k + 1 = i) ↔ OpensKeys tokens i := by
  constructor
  · rintro ⟨k,hk,rfl⟩
    have hmem := List.mem_of_mem_head? hk
    have hopen := List.mem_of_mem_head? (h.level_of_head? hk)
    exact ⟨hi,opensStatement_of_mem hopen,k,rfl,h.shapes _ hmem⟩
  · rintro ⟨-,hs,k,rfl,hk⟩
    have hl : level tokens (k + 1) = some k := by
      rw [level,openBefore_of_opener hs (.inr (.inl hk))]
      rfl
    obtain ⟨role,hrole⟩ := h.exists_head? hl fun he => by
      rw [hk] at he
      cases he
    have htable : role = .table := (hc _ (List.mem_of_mem_head? hrole)).table.mpr ⟨hk,hi⟩
    exact ⟨k,htable ▸ hrole,rfl⟩

theorem classified_square (h : s.Tracks tokens i)
    (hc : ∀ b ∈ s.inner.brackets, Classified tokens b) (hi : kindAt tokens i = some .openBracket) :
    Classified tokens (i,s.inner.squareRole i) := by
  have hparams : s.inner.brace.any (· + 1 == i) = true ↔ OpensParams tokens i :=
    h.brace_iff.trans (and_iff_right hi).symm
  have hkeys := h.table_iff hc hi
  have hnot : ¬OpensTable tokens i := by
    rintro ⟨hk,-⟩
    rw [hi] at hk
    cases hk
  rw [Frame.squareRole]
  split
  · rename_i hb
    have hp := hparams.mp hb
    refine ⟨iff_of_false (by simp) hnot,iff_of_false (by simp) ?_,iff_of_true rfl hp⟩
    -- one token is not both a brace and a round bracket
    rintro ⟨-,-,k,rfl,hk⟩
    obtain ⟨-,-,k',he,hk'⟩ := hp
    obtain rfl := Nat.succ.inj he
    rw [hk] at hk'
    cases hk'
  · rename_i hb
    have hp := mt hparams.mpr hb
    split
    · rename_i k hk
      split
      · rename_i hki
        exact ⟨iff_of_false (by simp) hnot,iff_of_true rfl (hkeys.mp ⟨k,hk,hki⟩),
          iff_of_false (by simp) hp⟩
      · rename_i hki
        refine ⟨iff_of_false (by simp) hnot,iff_of_false (by simp) fun hks => ?_,
          iff_of_false (by simp) hp⟩
        obtain ⟨k',hk',rfl⟩ := hkeys.mpr hks
        rw [hk] at hk'
        obtain ⟨rfl,-⟩ := Prod.mk.inj (Option.some.inj hk')
        exact hki rfl
    · rename_i hne
      refine ⟨iff_of_false (by simp) hnot,iff_of_false (by simp) fun hks => ?_,
        iff_of_false (by simp) hp⟩
      obtain ⟨k,hk,-⟩ := hkeys.mpr hks
      exact hne k hk

end Layout.Tracks

theorem classified_round (hi : kindAt tokens i = some .openParen) :
    Classified tokens (i,Frame.roundRole tokens[i + 1]?) := by
  have hnot : ∀ kind, ¬OpensBehind tokens kind i := by
    rintro kind ⟨hk,-⟩
    rw [hi] at hk
    cases hk
  have htable : tokens[i + 1]?.any (·.kind == .openBracket) = true ↔ OpensTable tokens i := by
    rw [OpensTable,and_iff_right hi,kindAt]
    cases tokens[i + 1]? <;> simp
  rw [Frame.roundRole]
  split
  · rename_i hf
    exact ⟨iff_of_true rfl (htable.mp hf),iff_of_false (by simp) (hnot _),
      iff_of_false (by simp) (hnot _)⟩
  · rename_i hf
    exact ⟨iff_of_false (by simp) (mt htable.mpr hf),iff_of_false (by simp) (hnot _),
      iff_of_false (by simp) (hnot _)⟩

/-- A token opens at most one bracket in its lambda. -/
theorem Frame.mem_moved {f : Frame} {b : Nat × Role} {following : Option Token}
    (h : b ∈ (f.moved i t following).brackets) : b ∈ f.brackets ∨
      t.kind = .openParen ∧ b = (i,Frame.roundRole following) ∨
      t.kind = .openBracket ∧ b = (i,f.squareRole i) := by
  have hclose : ∀ round, b ∈ (f.close round).brackets → b ∈ f.brackets := by
    intro round hb
    rw [close] at hb
    split at hb
    · exact hb
    · rename_i c rest hr
      exact mem_of_fromNearest (hr ▸ List.mem_cons_of_mem c hb)
  rw [moved] at h
  split at h
  · rename_i hk
    exact (List.mem_cons.mp h).elim (fun h => .inr (.inl ⟨hk,h⟩)) .inl
  · rename_i hk
    exact (List.mem_cons.mp h).elim (fun h => .inr (.inr ⟨hk,h⟩)) .inl
  · exact .inl (hclose true h)
  · exact .inl (hclose false h)
  · exact .inl h
  · split at h
    · exact .inl h
    · split at h <;> exact .inl h
  · exact .inl h

theorem classified_move {s : Layout} (h : s.Tracks tokens i)
    (hc : ∀ f ∈ s.inner :: s.outer, ∀ b ∈ f.brackets, Classified tokens b)
    (ht : tokens[i]? = some t) :
    ∀ f ∈ (s.move i t tokens[i + 1]?).inner :: (s.move i t tokens[i + 1]?).outer,
      ∀ b ∈ f.brackets, Classified tokens b := by
  obtain ⟨hinner,houter⟩ := List.forall_mem_cons.mp hc
  obtain ⟨-,hm⟩ | ⟨-,-,hm⟩ | ⟨-,f,fs,ho,hm⟩ | ⟨-,-,hm⟩ := s.move_cases i t tokens[i + 1]?
  · rw [hm]
    exact List.forall_mem_cons.mpr ⟨nofun,hc⟩
  · rw [hm]
    exact hc
  · rw [hm,← ho]
    exact houter
  · rw [hm]
    refine List.forall_mem_cons.mpr ⟨fun b hb => ?_,houter⟩
    rcases Frame.mem_moved hb with hb | ⟨hk,rfl⟩ | ⟨hk,rfl⟩
    · exact hinner b hb
    · exact classified_round (hk ▸ Assignments.kindAt_eq_some ht)
    · exact h.classified_square hinner (hk ▸ Assignments.kindAt_eq_some ht)

/-- Every open bracket has the role seen from the tokens next to it. -/
theorem classified_reached (ns : Option Text) (ht : tokens[i]? = some t) :
    ∀ f ∈ ((reached 0 (.start ns) tokens i).enter t).inner ::
      ((reached 0 (.start ns) tokens i).enter t).outer, ∀ b ∈ f.brackets, Classified tokens b := by
  have hstart : ∀ ns, ∀ f ∈ (Layout.start ns).inner :: (Layout.start ns).outer,
      ∀ b ∈ f.brackets, Classified tokens b :=
    fun ns => List.forall_mem_cons.mpr ⟨nofun,nofun⟩
  induction i generalizing t with
  | zero =>
    rw [reached,Layout.enter]
    split <;> exact hstart _
  | succ i ih =>
    have hi := Nat.lt_of_succ_lt (List.getElem?_eq_some_iff.mp ht).1
    have hu : tokens[i]? = some tokens[i] := List.getElem?_eq_getElem hi
    rw [Layout.enter]
    split
    · exact hstart _
    · rw [reached_succ hu,Nat.zero_add]
      exact classified_move (tracks_reached ns hu) (ih hu) hu

end
end QScope.BracketLayout
