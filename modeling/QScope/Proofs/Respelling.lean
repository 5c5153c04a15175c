import Mathlib.Data.List.Forall2
import QScope.Proofs.Lookahead
import QScope.Proofs.Placement

/-! # Respelling: a name can give way to another without disturbing the lexemes around it -/
namespace QScope.Lexing
open CharacterClasses TokenExtents Texts

/-! Names -/

/-- What makes a name of a character: a letter, or a dot before one. -/
def OpensName (c : Char) (t : Text) : Prop :=
  isNameStart c = true ∨ c = '.' ∧ startsWith isNameStart t = true

/-- A text that is one name from its first character through its last. -/
inductive IsName : Text → Prop
  | mk {c : Char} {x : Text} (opens : OpensName c x) (run : nameRun x = x.length) : IsName (c :: x)

theorem nameRun_cons_eq_length {c : Char} {x : Text} : nameRun (c :: x) = (c :: x).length ↔
    (isWordChar c || c == '.' && startsWith isNameStart x) = true ∧ nameRun x = x.length := by
  rw [nameRun,List.length_cons]
  split
  · rename_i h
    simp [h]
  · rename_i h
    simp [h]

theorem nameRun_of_isWordChar {x : Text} (h : ∀ c ∈ x, isWordChar c = true) :
    nameRun x = x.length := by
  induction x with
  | nil => rfl
  | cons c x ih =>
    obtain ⟨hc,hx⟩ := List.forall_mem_cons.mp h
    exact nameRun_cons_eq_length.mpr ⟨by rw [hc,Bool.true_or],ih hx⟩

theorem mem_of_nameRun {x : Text} (h : nameRun x = x.length) {d : Char} (hd : d ∈ x) :
    isWordChar d = true ∨ d = '.' := by
  induction x with
  | nil => cases hd
  | cons c x ih =>
    obtain ⟨hc,hx⟩ := nameRun_cons_eq_length.mp h
    rcases List.mem_cons.mp hd with rfl | hd
    · rw [Bool.or_eq_true,Bool.and_eq_true,beq_iff_eq] at hc
      exact hc.imp_right And.left
    · exact ih hx hd

/-- No run of a name ends with a dot. -/
theorem getLast?_of_nameRun {x : Text} (h : nameRun x = x.length) {d : Char}
    (hd : x.getLast? = some d) : isWordChar d = true := by
  induction x with
  | nil => cases hd
  | cons c x ih =>
    obtain ⟨hc,hx⟩ := nameRun_cons_eq_length.mp h
    cases x with
    | nil =>
      obtain rfl : c = d := Option.some.inj hd
      simpa [startsWith] using hc
    | cons b x => exact ih hx (by rwa [List.getLast?_cons_cons] at hd)

theorem nameRun_eq_zero_of_append {x u : Text} (h : nameRun (x ++ u) = x.length) :
    nameRun u = 0 := by
  induction x with
  | nil => exact h
  | cons c x ih =>
    rw [List.cons_append,nameRun] at h
    split at h
    · exact ih (by simpa using h)
    · cases h

/-- A text that is a run goes on with that of the text behind it. -/
theorem nameRun_append_of_run {x : Text} (hx : nameRun x = x.length) (u : Text) :
    nameRun (x ++ u) = x.length + nameRun u := by
  induction x with
  | nil => exact (Nat.zero_add _).symm
  | cons c x ih =>
    obtain ⟨hc,hx⟩ := nameRun_cons_eq_length.mp hx
    rw [List.cons_append,nameRun,ih hx,List.length_cons,if_pos,Nat.add_right_comm]
    cases x with
    | nil => simpa [startsWith] using Or.inl hc
    | cons b x => exact hc

theorem nameRun_append_of_eq_zero {x u : Text} (hx : nameRun x = x.length) (hu : nameRun u = 0) :
    nameRun (x ++ u) = x.length := by
  rw [nameRun_append_of_run hx,hu,Nat.add_zero]

theorem startsWith_take_nameRun (t : Text) :
    startsWith isNameStart (t.take (nameRun t)) = startsWith isNameStart t := by
  cases t with
  | nil => rfl
  | cons c t =>
    rw [nameRun]
    split
    · rfl
    · rename_i hc
      rw [startsWith_cons]
      refine (Bool.eq_false_iff.mpr fun h => hc ?_).symm
      rw [isWordChar_of_isNameStart h,Bool.true_or]

theorem nameRun_take (t : Text) :
    nameRun (t.take (nameRun t)) = (t.take (nameRun t)).length := by
  fun_induction nameRun t with
  | case1 => rfl
  | case2 c t hc ih =>
    rw [List.take_succ_cons]
    refine nameRun_cons_eq_length.mpr ⟨?_,ih⟩
    rwa [startsWith_take_nameRun]
  | case3 => rfl

/-- What opens a name is one with all that goes on with it. -/
theorem OpensName.isName {c : Char} {t : Text} (h : OpensName c t) :
    IsName (c :: t.take (nameRun t)) := by
  refine .mk (h.imp_right fun h => ⟨h.1,?_⟩) (nameRun_take t)
  rw [startsWith_take_nameRun,h.2]

theorem IsName.ne_nil {x : Text} (h : IsName x) : x ≠ [] := by
  cases h with
  | mk opens run => exact List.cons_ne_nil _ _

theorem IsName.mem {x : Text} (h : IsName x) {d : Char} (hd : d ∈ x) :
    isWordChar d = true ∨ d = '.' := by
  cases h with
  | mk opens run =>
    rcases List.mem_cons.mp hd with rfl | hd
    · exact opens.imp isWordChar_of_isNameStart And.left
    · exact mem_of_nameRun run hd

theorem IsName.getLast? {x : Text} (h : IsName x) {d : Char} (hd : x.getLast? = some d) :
    isWordChar d = true := by
  cases h with
  | @mk c x opens run =>
    cases x with
    | nil =>
      obtain rfl : c = d := Option.some.inj hd
      exact isWordChar_of_isNameStart (opens.resolve_right fun h => by cases h.2)
    | cons b x => exact getLast?_of_nameRun run (by rwa [List.getLast?_cons_cons] at hd)

/-- A class of characters with neither word characters nor the dot has none of a name. -/
theorem IsName.notMem {x : Text} (h : IsName x) {d : Char} (hw : isWordChar d = false)
    (hd : d ≠ '.') : d ∉ x := fun hm => by
  rcases h.mem hm with h | h
  · rw [hw] at h
    cases h
  · exact hd h

theorem IsName.newline_notMem {x : Text} (h : IsName x) : '\n' ∉ x :=
  h.notMem (by decide) (by decide)

theorem IsName.quote_notMem {x : Text} (h : IsName x) : '"' ∉ x := h.notMem (by decide) (by decide)

theorem IsName.backslash_notMem {x : Text} (h : IsName x) : '\\' ∉ x :=
  h.notMem (by decide) (by decide)

theorem IsName.isBlank {x : Text} (h : IsName x) {d : Char} (hd : d ∈ x) : isBlank d = false := by
  rcases h.mem hd with hw | rfl
  · exact isBlank_of_isWordChar hw
  · decide

/-- No name in front of a text is longer than what goes on with one there. -/
theorem IsName.length_le {x u : Text} {c : Char} (h : IsName x) (hx : x <+: c :: u) :
    x.length ≤ nameRun u + 1 := by
  obtain ⟨z,hz⟩ := hx
  cases h with
  | mk opens run =>
    rw [List.cons_append] at hz
    rw [← (List.cons.inj hz).2,nameRun_append_of_run run,List.length_cons]
    omega

/-! Identifiers -/

/-- Kinds that no operator and no bracket has. -/
def Wordlike (kind : Kind) : Prop :=
  kind = .identifier ∨ kind = .keyword ∨ kind = .command ∨ kind = .string ∨ kind = .character

section
variable {kind : Kind}

theorem singleKind?_ne (h : Wordlike kind) (c : Char) : singleKind? c ≠ some kind := by
  unfold singleKind?
  repeat' split
  all_goals rcases h with rfl | rfl | rfl | rfl | rfl <;> rintro ⟨⟩

theorem pairKind?_ne (h : Wordlike kind) (c d : Char) : pairKind? c d ≠ some kind := by
  rw [pairKind?]
  repeat' split
  all_goals rcases h with rfl | rfl | rfl | rfl | rfl <;> rintro ⟨⟩

theorem punctuation_ne (h : Wordlike kind) (c : Char) (rest : Text) (error : Option LexicalError) :
    (punctuation c rest).shape ≠ .token kind error := by
  rw [punctuation]
  split
  · rename_i kind hk
    obtain ⟨d,-,hk⟩ := Option.bind_eq_some_iff.mp hk
    rintro ⟨⟩
    exact pairKind?_ne h c d hk
  · split
    · rename_i kind hk
      rintro ⟨⟩
      exact singleKind?_ne h c hk
    · rintro ⟨⟩
      rcases h with h | h | h | h | h <;> cases h

end

/-- A token is a command, a name, or of a kind that neither has. -/
theorem OpensToken.kind_cases {p c : Char} {rest : Text} {e : Extent} {kind : Kind}
    {error : Option LexicalError} (h : OpensToken p c rest e) (hs : e.shape = .token kind error) :
    kind = .command ∧ p = '\n' ∧ (∃ d line, trimRight (firstLine (c :: rest)) = '\\' :: d :: line ∧
        e = ⟨.token .command none,line.length + 1⟩) ∨
      OpensName c rest ∧ e = Lexing.name c rest ∨
      kind ≠ .command ∧ kind ≠ .identifier ∧ kind ≠ .keyword := by
  cases h with
  | command d line hp hline =>
    cases hs
    exact .inl ⟨rfl,hp,d,line,hline,rfl⟩
  | name hn => exact .inr (.inl ⟨hn,rfl⟩)
  | punctuation =>
    have hne : ∀ {w : Kind}, Wordlike w → kind ≠ w := fun hw hk =>
      punctuation_ne hw c rest error (hk ▸ hs)
    exact .inr (.inr ⟨hne (.inr (.inr (.inl rfl))),hne (.inl rfl),hne (.inr (.inl rfl))⟩)
  | string =>
    right
    right
    rw [Lexing.string] at hs
    split at hs
    · cases hs
      split <;> exact ⟨Kind.noConfusion,Kind.noConfusion,Kind.noConfusion⟩
    · cases hs
      exact ⟨Kind.noConfusion,Kind.noConfusion,Kind.noConfusion⟩
  | symbol | number =>
    cases hs
    exact .inr (.inr ⟨Kind.noConfusion,Kind.noConfusion,Kind.noConfusion⟩)

section
variable {p c : Char} {rest : Text} {error : Option LexicalError}

/-- Only names are identifiers or keywords. -/
theorem name_of_word {kind : Kind} (h : (lexeme p c rest).shape = .token kind error)
    (hk : kind = .identifier ∨ kind = .keyword) :
    OpensName c rest ∧ lexeme p c rest = name c rest := by
  rcases (opensToken (by rw [h]; rfl)).kind_cases h with ⟨rfl,-⟩ | hn | ⟨-,hi,hw⟩
  · rcases hk with hk | hk <;> cases hk
  · exact hn
  · exact absurd hk (not_or.mpr ⟨hi,hw⟩)

theorem name_of_identifier (h : (lexeme p c rest).shape = .token .identifier error) :
    OpensName c rest ∧ lexeme p c rest = name c rest := name_of_word h (.inl rfl)

/-- Commands open lines, and take them up to the blanks at their ends. -/
theorem form_of_command (h : (lexeme p c rest).shape = .token .command error) :
    p = '\n' ∧ ∃ d line, trimRight (firstLine (c :: rest)) = '\\' :: d :: line ∧
      lexeme p c rest = ⟨.token .command none,line.length + 1⟩ := by
  rcases (opensToken (by rw [h]; rfl)).kind_cases h with ⟨-,hp⟩ | ⟨-,hn⟩ | ⟨hk,-⟩
  · exact hp
  · rw [hn,name] at h
    dsimp only at h
    split at h <;> cases h
  · exact absurd rfl hk

/-- The text of a command, with the blanks that end its line. -/
theorem line_of_command {x r : Text} (h : lexeme p c (x ++ r) = ⟨.token .command error,x.length⟩) :
    p = '\n' ∧ error = none ∧ c = '\\' ∧ ∃ b s, r = b ++ s ∧ (∀ d ∈ b, isBlank d = true) ∧
      '\n' ∉ c :: x ++ b ∧ (s = [] ∨ ∃ s', s = '\n' :: s') ∧
      firstLine (c :: (x ++ r)) = c :: x ++ b ∧ trimRight (c :: x ++ b) = c :: x := by
  obtain ⟨hp,d,line,htrim,hlex⟩ := form_of_command (by rw [h])
  rw [h,Extent.mk.injEq] at hlex
  obtain ⟨b,hb,hblank⟩ := exists_blank_append (firstLine (c :: (x ++ r)))
  obtain ⟨s,hs,hend⟩ := exists_firstLine_append (c :: (x ++ r))
  -- What is trimmed and the lexeme are beginnings of one text and equally long.
  have himage : trimRight (firstLine (c :: (x ++ r))) = c :: x := by
    have hp := (isPrefix_trimRight _).trans (isPrefix_firstLine (c :: (x ++ r)))
    have hlength : (trimRight (firstLine (c :: (x ++ r)))).length = (c :: x).length := by
      rw [htrim,List.length_cons,List.length_cons,List.length_cons,hlex.2]
    have hx : c :: x <+: c :: (x ++ r) := List.prefix_append (c :: x) r
    exact (List.prefix_of_prefix_length_le hp hx hlength.le).eq_of_length hlength
  rw [himage] at hb
  rw [hb,← List.cons_append,List.append_assoc] at hs
  refine ⟨hp,(Shape.token.inj hlex.1).2,?_,b,s,List.append_cancel_left hs,hblank,?_,hend,hb,?_⟩
  · rw [himage] at htrim
    exact (List.cons.inj htrim).1
  · exact hb ▸ newline_notMem_firstLine _
  · rw [← hb,himage]

end

theorem startsWith_append {q : Char → Bool} {x : Text} (h : startsWith q x = true) (u : Text) :
    startsWith q (x ++ u) = true := by
  cases x with
  | nil => cases h
  | cons c x => exact h

theorem OpensName.ne {c k : Char} {t : Text} (h : OpensName c t) (hl : isNameStart k = false)
    (hd : k ≠ '.') : c ≠ k := by
  rintro rfl
  rcases h with h | ⟨h,-⟩
  · rw [hl] at h
    cases h
  · exact hd h

theorem OpensName.isGap {c : Char} {t : Text} (h : OpensName c t) : isGap c = false := by
  rcases h with h | ⟨rfl,-⟩
  · apply Bool.eq_false_iff.mpr
    intro hg
    rw [blind_isNameStart.gap c hg] at h
    cases h
  · rfl

theorem OpensName.not_opensNumber {c : Char} {t : Text} (h : OpensName c t) :
    (isDigit c || c == '.' && startsWith isDigit t) = false := by
  rcases h with h | ⟨rfl,h⟩
  · have hc : c ≠ '.' := by
      rintro rfl
      cases h
    simp [isDigit_of_isNameStart h,hc]
  · cases t with
    | nil => cases h
    | cons d t => simpa [startsWith_cons] using ⟨by decide,isDigit_of_isNameStart h⟩

/-- What opens a name is read as one. -/
theorem lexeme_of_opensName {c : Char} {t : Text} (h : OpensName c t) (p : Char) :
    lexeme p c t = name c t := by
  have hname : (isNameStart c || c == '.' && startsWith isNameStart t) = true := by
    simpa [OpensName] using h
  have hw : withinLine p c t = name c t := by
    rw [withinLine,h.isGap,if_neg Bool.false_ne_true,
      if_neg fun hc => h.ne (by decide) (by decide) hc.1,
      if_neg (h.ne (by decide) (by decide)),if_neg (h.ne (by decide) (by decide)),
      h.not_opensNumber,if_neg Bool.false_ne_true,hname,if_pos rfl]
  have hl := lineForm?_eq_none (h.ne (k := '/') (by decide) (by decide))
    (h.ne (k := '\\') (by decide) (by decide)) t
  rw [lexeme,hl,Option.getD_none,ite_self,hw]

/-- Where no name goes on, a name that is no keyword is read as an identifier. -/
theorem lexeme_of_isName {c : Char} {x v : Text} (h : IsName (c :: x)) (hk : c :: x ∉ Keywords.all)
    (hv : nameRun v = 0) (p : Char) : lexeme p c (x ++ v) = ⟨.token .identifier none,x.length⟩ := by
  obtain ⟨opens,run⟩ := h
  have ho : OpensName c (x ++ v) := opens.imp_right fun h => ⟨h.1,startsWith_append h.2 v⟩
  rw [lexeme_of_opensName ho,name,nameRun_append_of_eq_zero run hv,List.take_left,
    if_neg (by simpa using hk)]

/-! Texts with other names -/

/-- A lexeme and what takes its place: itself, or a name for a name. One that opens with a dot gives
way to another such only. -/
inductive Respelled : Lexeme → Lexeme → Prop
  | kept (l : Lexeme) : Respelled l l
  | name {x y : Text} (old : IsName x) (new : IsName y) (plain : y ∉ Keywords.all)
      (dots : x.head? = some '.' → y.head? = some '.') :
      Respelled ⟨.token .identifier none,x⟩ ⟨.token .identifier none,y⟩

theorem Respelled.eq_of_ne {l l' : Lexeme} (h : Respelled l l')
    (hs : l.shape ≠ .token .identifier none) : l' = l := by
  cases h with
  | kept => rfl
  | name => exact absurd rfl hs

/-- Texts without quotes and backslashes close nothing, and a backslash takes one character. -/
theorem stringRun_append_eq_none {y : Text} (hq : '"' ∉ y) (hb : '\\' ∉ y) (s : Text) :
    stringRun (y ++ s) = none ↔ stringRun s = none := by
  induction y with
  | nil => rfl
  | cons c y ih =>
    rw [List.mem_cons,not_or] at hq hb
    rw [List.cons_append,stringRun_cons (Ne.symm hq.1) (Ne.symm hb.1),Option.map_eq_none_iff,
      ih hq.2 hb.2]

theorem stringRun_swap {x y : Text} (hx : IsName x) (hy : IsName y) (z s : Text) :
    stringRun (z ++ (x ++ s)) = none ↔ stringRun (z ++ (y ++ s)) = none := by
  have hrun : ∀ {y : Text}, IsName y → (stringRun (y ++ s) = none ↔ stringRun s = none) :=
    fun hy => stringRun_append_eq_none hy.quote_notMem hy.backslash_notMem s
  have hescape : ∀ {y : Text}, IsName y →
      (stringRun ('\\' :: (y ++ s)) = none ↔ stringRun s = none) := by
    intro y hy
    obtain ⟨c,r,rfl⟩ := List.exists_cons_of_ne_nil hy.ne_nil
    have hq := hy.quote_notMem
    have hb := hy.backslash_notMem
    rw [List.mem_cons,not_or] at hq hb
    rw [List.cons_append,stringRun,Option.map_eq_none_iff,stringRun_append_eq_none hq.2 hb.2]
  fun_induction stringRun z with
  | case1 => exact (hrun hx).trans (hrun hy).symm
  | case2 z => rfl
  | case3 c z ih => simpa [stringRun] using ih
  | case4 c z hq he ih =>
    by_cases hc : c = '\\'
    · subst hc
      cases z with
      | cons d z => exact absurd rfl (he d z rfl)
      | nil => exact (hescape hx).trans (hescape hy).symm
    · rw [List.cons_append,List.cons_append,stringRun_cons hq hc,stringRun_cons hq hc,
        Option.map_eq_none_iff,Option.map_eq_none_iff]
      exact ih

section
variable {x y u v : Text}

theorem alike_of_isName (hx : IsName x) (hy : IsName y)
    (hd : x.head? = some '.' → y.head? = some '.') (u v : Text) : Alike (x ++ u) (y ++ v) := by
  obtain ⟨hx,-⟩ := hx
  obtain ⟨hy,-⟩ := hy
  have hdot : ∀ {t : Text}, OpensName '.' t → ∃ a r, t = a :: r ∧ isNameStart a = true := by
    intro t h
    cases t with
    | nil => cases (h.resolve_left nofun).2
    | cons a r => exact ⟨a,r,rfl,(h.resolve_left nofun).2⟩
  rename_i c s d t
  rw [List.head?_cons,List.head?_cons,Option.some.injEq,Option.some.injEq] at hd
  by_cases hc : c = '.'
  · obtain rfl := hd hc
    subst hc
    obtain ⟨a,s,rfl,ha⟩ := hdot hx
    obtain ⟨b,t,rfl,hb⟩ := hdot hy
    exact .same '.' (.letter (s ++ u) (t ++ v) ha hb)
  · have ha := hx.resolve_right fun h => hc h.1
    by_cases he : d = '.'
    · subst he
      obtain ⟨b,t,rfl,hb⟩ := hdot hy
      exact .dotted (s ++ u) (t ++ v) ha hb
    · exact .letter (s ++ u) (t ++ v) ha (hy.resolve_right fun h => he h.1)

theorem firstLine_append_ne_nil (hx : IsName x) (u : Text) : firstLine (x ++ u) ≠ [] := by
  have hn := hx.newline_notMem
  rw [firstLine_append hn]
  exact List.append_ne_nil_of_left_ne_nil hx.ne_nil _

theorem all_isBlank_append (hx : IsName x) (u : Text) :
    (firstLine (x ++ u)).all isBlank = false := by
  have hn := hx.newline_notMem
  obtain ⟨c,r,rfl⟩ := List.exists_cons_of_ne_nil hx.ne_nil
  rw [firstLine_append hn,List.cons_append,List.all_cons,hx.isBlank List.mem_cons_self,
    Bool.false_and]

theorem Follows.append_left (h : Follows u v) (x : Text) : Follows (x ++ u) (x ++ v) where
  alike := h.alike.append_left x
  nil hn := by
    obtain ⟨rfl,hu⟩ := List.append_eq_nil_iff.mp hn
    rw [h.nil hu,List.append_nil]
  lineEnd hl := by
    by_cases hx : '\n' ∈ x
    · rwa [firstLine_append_of_mem hx,← firstLine_append_of_mem hx u]
    · rw [firstLine_append hx] at hl ⊢
      obtain ⟨rfl,hu⟩ := List.append_eq_nil_iff.mp hl
      rw [h.lineEnd hu,List.append_nil]
  blank := by
    by_cases hx : '\n' ∈ x
    · rw [firstLine_append_of_mem hx,firstLine_append_of_mem hx]
    · rw [firstLine_append hx,firstLine_append hx,List.all_append,List.all_append,h.blank]
  unclosed z hz := by
    rw [← List.append_assoc] at hz ⊢
    exact h.unclosed _ hz

theorem follows_of_isName (h : Follows u v) (hx : IsName x) (hy : IsName y)
    (hd : x.head? = some '.' → y.head? = some '.') : Follows (x ++ u) (y ++ v) where
  alike := alike_of_isName hx hy hd u v
  nil hn := absurd (List.append_eq_nil_iff.mp hn).1 hx.ne_nil
  lineEnd hl := absurd hl (firstLine_append_ne_nil hx u)
  blank := by rw [all_isBlank_append hx,all_isBlank_append hy]
  unclosed z hz := by
    rw [← stringRun_swap hx hy,← List.append_assoc]
    rw [← List.append_assoc] at hz
    exact h.unclosed _ hz

end

theorem follows_of_respelled {ls ls' : List Lexeme} (h : List.Forall₂ Respelled ls ls') :
    Follows (spelling ls) (spelling ls') := by
  induction h with
  | nil => exact ⟨⟨.gap nofun nofun,id,rfl,fun _ => id⟩,id⟩
  | cons hl h ih =>
    rw [spelling_cons,spelling_cons]
    cases hl with
    | kept => exact ih.append_left _
    | name old new plain dots => exact follows_of_isName ih old new dots

/-- Characters that look alike to whatever stands behind them. -/
def AlikeBehind (p q : Char) : Prop := p = q ∨ opensComment p = false ∧ opensComment q = false

theorem lexeme_of_alikeBehind {p q : Char} (h : AlikeBehind p q) (c : Char) (rest : Text) :
    lexeme p c rest = lexeme q c rest := by
  rcases h with rfl | ⟨hp,hq⟩
  · rfl
  · have hn : ∀ {p : Char}, opensComment p = false → p ≠ '\n' := by
      rintro p hp rfl
      cases hp
    rw [lexeme,lexeme,if_neg (hn hp),if_neg (hn hq),withinLine,withinLine,hp,hq]

theorem opensComment_of_isWordChar {c : Char} (h : isWordChar c = true) :
    opensComment c = false := by
  apply Bool.eq_false_iff.mpr
  intro ho
  simp only [opensComment,Bool.or_eq_true,beq_iff_eq] at ho
  rcases ho with (rfl | rfl) | rfl <;> cases h

theorem IsName.opensComment {c : Char} {x : Text} (h : IsName (c :: x)) :
    opensComment (x.getLastD c) = false := by
  refine opensComment_of_isWordChar (h.getLast? ?_)
  rw [List.getLast?_cons,List.getLastD_eq_getLast?]

/-- With other names in the place of some, a text is read as the same lexemes. -/
theorem lexemes_respelled {p q : Char} (hpq : AlikeBehind p q) (t : Text) {ls : List Lexeme}
    (h : List.Forall₂ Respelled (lexemes p t) ls) : lexemes q (spelling ls) = ls := by
  fun_induction lexemes p t generalizing q ls with
  | case1 =>
    cases h
    rw [spelling_nil,lexemes]
  | case2 p c rest e =>
    rename_i ih
    have hlen : (rest.take e.more).length = e.more := List.length_take_of_le (lexeme_le p c rest)
    have hrest : rest.take e.more ++ rest.drop e.more = rest := List.take_append_drop _ _
    cases h with
    | cons hl h =>
      rename_i l' ls
      have hf := follows_of_respelled h
      rw [spelling_lexemes] at hf
      -- What stands in the place of a lexeme is again read as one, whatever follows it.
      have hnext : ∀ {d : Char} {x : Text} {e' : Extent}, l' = ⟨e'.shape,d :: x⟩ →
          lexeme q d (x ++ spelling ls) = e' → e'.more = x.length →
          AlikeBehind ((rest.take e.more).getLastD c) (x.getLastD d) →
          lexemes q (spelling (l' :: ls)) = l' :: ls := by
        rintro d x e' rfl he hm hb
        rw [spelling_cons,List.cons_append,lexemes]
        simp only [he,hm,List.take_left,List.drop_left,ih hb h]
      generalize hl₀ : (⟨e.shape,c :: rest.take e.more⟩ : Lexeme) = l at hl
      cases hl with
      | kept l =>
        have he : lexeme q c (rest.take e.more ++ spelling ls) = e := by
          rw [← lexeme_of_alikeBehind hpq,lexeme_append hf,hrest]
          rw [hrest,hlen]
        exact hnext hl₀.symm he hlen.symm (Or.inl rfl)
      | @name x y old new plain dots =>
        obtain ⟨hs,hx⟩ := Lexeme.mk.inj hl₀
        obtain ⟨ho,hname⟩ := name_of_identifier hs
        have hu : nameRun (rest.drop e.more) = 0 := by
          refine nameRun_eq_zero_of_append (x := rest.take e.more) ?_
          rw [hrest,hlen]
          exact (congrArg Extent.more hname).symm
        obtain ⟨d,r,rfl⟩ := List.exists_cons_of_ne_nil new.ne_nil
        have hv := hf.alike.nameRun_eq_zero hu
        subst hx
        exact hnext rfl (lexeme_of_isName new plain hv q) rfl
          (Or.inr ⟨old.opensComment,new.opensComment⟩)

end QScope.Lexing
