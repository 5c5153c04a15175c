import QScope.Lexing
import QScope.Proofs.Lines

/-! # Lexeme ends: the forms of a lexeme, and why only gaps end with a newline -/
namespace QScope
open CharacterClasses TokenExtents Texts

namespace TokenExtents

theorem getLast?_take_stringRun {t : Text} {n : Nat} (h : stringRun t = some n) :
    (t.take n).getLast? = some '"' := by
  fun_induction stringRun t generalizing n with
  | case1 => simp at h
  | case2 t =>
    obtain rfl := Option.some.inj h
    rfl
  | case3 c t ih =>
    obtain ⟨m,hm,rfl⟩ := Option.map_eq_some_iff.mp h
    simp [List.getLast?_cons,ih hm]
  | case4 c t _ _ ih =>
    obtain ⟨m,hm,rfl⟩ := Option.map_eq_some_iff.mp h
    simp [List.getLast?_cons,ih hm]

theorem newline_notMem_symbolRun (handle : Bool) (t : Text) :
    '\n' ∉ t.take (symbolRun handle t) := by
  fun_induction symbolRun handle t with
  | case1 => simp
  | case2 handle t ih => simpa using ih
  | case3 handle c t hc hw ih =>
    have hn : '\n' ≠ c := by
      rintro rfl
      revert hw
      cases handle <;> decide
    simpa [hn] using ih
  | case4 => simp

theorem newline_notMem_nameRun (t : Text) : '\n' ∉ t.take (nameRun t) := by
  fun_induction nameRun t with
  | case1 => simp
  | case2 c t hw ih =>
    have hn : '\n' ≠ c := by
      rintro rfl
      simp [show isWordChar '\n' = false by decide] at hw
    simpa [hn] using ih
  | case3 => simp

theorem newline_notMem_numberRun (t : Text) : '\n' ∉ t.take (numberRun t) := by
  fun_induction numberRun t with
  | case1 => simp
  | case2 c hc =>
    have hn : '\n' ≠ c := by
      rintro rfl
      revert hc
      decide
    simpa using hn
  | case3 => simp
  | case4 c s t hc ih =>
    have hn : '\n' ≠ c := by
      rintro rfl
      simp [joinsNumber,show isDigit '\n' = false by decide] at hc
    simpa [hn] using ih
  | case5 c s t hc he ih =>
    have hs : '\n' ≠ s := by
      rintro rfl
      simp [isSign] at he
    simp only [Bool.and_eq_true,decide_eq_true_eq] at he
    simpa [he.1.1,hs] using ih
  | case6 => simp

theorem newline_notMem_takeWhile {p : Char → Bool} (h : p '\n' = false) (t : Text) :
    '\n' ∉ t.take (t.takeWhile p).length := by
  rw [← List.prefix_iff_eq_take.mp (List.takeWhile_prefix p)]
  intro hm
  simp [List.mem_takeWhile_imp hm] at h

theorem newline_notMem_numberExtent (t : Text) : '\n' ∉ t.take (numberExtent t).1 := by
  have ha : isAlphanumeric '\n' = false := by decide
  unfold numberExtent
  split
  · rename_i t
    rw [byteNumber,run,run,Nat.add_assoc,Nat.add_comm 2,List.take_succ_cons,List.take_succ_cons,
      List.take_add]
    simp only [List.mem_cons,List.mem_append,not_or]
    exact ⟨by decide,by decide,newline_notMem_takeWhile (by decide) t,
      newline_notMem_takeWhile ha _⟩
  · rw [decimalNumber,List.take_add,List.mem_append,not_or]
    exact ⟨newline_notMem_numberRun t,newline_notMem_takeWhile ha _⟩

end TokenExtents

namespace Lexing

def Shape.isToken : Shape → Bool
  | token _ _ => true
  | blank | lineComment | blockComment | scriptEnd => false

@[simp] theorem isToken_string (rest : Text) : (string rest).shape.isToken = true := by
  rw [string]
  split <;> rfl

@[simp] theorem isToken_punctuation (c : Char) (rest : Text) :
    (punctuation c rest).shape.isToken = true := by
  rw [punctuation]
  split
  · rfl
  · split <;> rfl

/-- A text that opens with a given lexeme. -/
theorem lexemes_of_lexeme {p c : Char} {x r : Text} {shape : Shape}
    (h : lexeme p c (x ++ r) = ⟨shape,x.length⟩) :
    lexemes p (c :: x ++ r) = ⟨shape,c :: x⟩ :: lexemes (x.getLastD c) r := by
  rw [List.cons_append,lexemes,h]
  simp

/-- The gaps that `c` opens behind `previous`, with what makes each of them. -/
inductive OpensGap (previous c : Char) (rest : Text) : Extent → Prop
  | blank (h : isGap c = true) : OpensGap previous c rest ⟨.blank,0⟩
  | lineComment (h : c = '/') (hp : opensComment previous = true) :
      OpensGap previous c rest ⟨.lineComment,(firstLine rest).length⟩
  | blockComment (hp : previous = '\n') (h : trimRight (firstLine (c :: rest)) = ['/']) :
      OpensGap previous c rest ⟨.blockComment,(TokenExtents.blockComment (c :: rest)).length - 1⟩
  | scriptEnd (hp : previous = '\n') (h : trimRight (firstLine (c :: rest)) = ['\\']) :
      OpensGap previous c rest ⟨.scriptEnd,rest.length⟩

/-- The tokens that `c` opens behind `previous`, with what makes each of them. -/
inductive OpensToken (previous c : Char) (rest : Text) : Extent → Prop
  | command (d : Char) (line : Text) (hp : previous = '\n')
      (h : trimRight (firstLine (c :: rest)) = '\\' :: d :: line) (hd : isBlank d = false) :
      OpensToken previous c rest ⟨.token .command none,line.length + 1⟩
  | string (h : c = '"') : OpensToken previous c rest (string rest)
  | symbol (h : c = '\x60') : OpensToken previous c rest (symbol rest)
  | number (h : isDigit c = true ∨ c = '.' ∧ startsWith isDigit rest = true) :
      OpensToken previous c rest (number c rest)
  | name (h : isNameStart c = true ∨ c = '.' ∧ startsWith isNameStart rest = true) :
      OpensToken previous c rest (name c rest)
  | punctuation (hg : isGap c = false) : OpensToken previous c rest (punctuation c rest)

theorem OpensGap.isToken_shape {previous c : Char} {rest : Text} {e : Extent}
    (h : OpensGap previous c rest e) : e.shape.isToken = false := by
  cases h <;> rfl

theorem OpensToken.isToken_shape {previous c : Char} {rest : Text} {e : Extent}
    (h : OpensToken previous c rest e) : e.shape.isToken = true := by
  cases h with
  | string => exact isToken_string rest
  | punctuation => exact isToken_punctuation c rest
  | command => rfl
  | symbol => rfl
  | number => rfl
  | name => rfl

/-- Every lexeme within a line is a blank, a line comment or a token. -/
theorem withinLine_opens (previous c : Char) (rest : Text) :
    (isGap c = true ∧ withinLine previous c rest = ⟨.blank,0⟩) ∨
    (c = '/' ∧ opensComment previous = true ∧
      withinLine previous c rest = ⟨.lineComment,(firstLine rest).length⟩) ∨
    OpensToken previous c rest (withinLine previous c rest) := by
  rw [withinLine]
  split
  · exact Or.inl ⟨‹_›,rfl⟩
  rename_i hg
  right
  split
  · rename_i h
    exact Or.inl ⟨h.1,h.2,rfl⟩
  right
  split
  · exact .string ‹_›
  split
  · exact .symbol ‹_›
  split
  · rename_i h
    exact .number (by simpa using h)
  split
  · rename_i h
    exact .name (by simpa using h)
  exact .punctuation (by simpa using hg)

theorem lexeme_opens (previous c : Char) (rest : Text) :
    OpensGap previous c rest (lexeme previous c rest) ∨
      OpensToken previous c rest (lexeme previous c rest) := by
  have hwithin : OpensGap previous c rest (withinLine previous c rest) ∨
      OpensToken previous c rest (withinLine previous c rest) := by
    rcases withinLine_opens previous c rest with ⟨h,he⟩ | ⟨h,hp,he⟩ | h
    · exact Or.inl (he ▸ .blank h)
    · exact Or.inl (he ▸ .lineComment h hp)
    · exact Or.inr h
  rw [lexeme]
  split
  · rename_i hp
    cases h : lineForm? (c :: rest) with
    | none => exact hwithin
    | some e =>
      rw [lineForm?] at h
      split at h
      · obtain rfl := Option.some.inj h
        exact Or.inl (.blockComment hp ‹_›)
      · obtain rfl := Option.some.inj h
        exact Or.inl (.scriptEnd hp ‹_›)
      · rename_i d line hl
        split at h
        · cases h
        · rename_i hd
          obtain rfl := Option.some.inj h
          exact Or.inr (.command d line hp hl (by simpa using hd))
      · cases h
  · exact hwithin

theorem opensGap {previous c : Char} {rest : Text}
    (h : (lexeme previous c rest).shape.isToken = false) :
    OpensGap previous c rest (lexeme previous c rest) := by
  apply (lexeme_opens previous c rest).resolve_right
  intro ht
  rw [ht.isToken_shape] at h
  cases h

theorem opensToken {previous c : Char} {rest : Text}
    (h : (lexeme previous c rest).shape.isToken = true) :
    OpensToken previous c rest (lexeme previous c rest) := by
  apply (lexeme_opens previous c rest).resolve_left
  intro hg
  rw [hg.isToken_shape] at h
  cases h

theorem pairKind?_isSome {c d : Char} {kind : Kind} (h : pairKind? c d = some kind) :
    d = ':' ∨ d = '=' ∨ d = '>' := by
  rw [pairKind?] at h
  split at h
  · rename_i hd
    simp only [Bool.and_eq_true,decide_eq_true_eq] at hd
    exact Or.inl hd.2
  split at h
  · rename_i hd
    simp only [Bool.and_eq_true,decide_eq_true_eq] at hd
    exact Or.inl hd.2
  split at h
  · rename_i hd
    simp only [pairs,List.contains_eq_mem,List.map_cons,List.map_nil,List.mem_cons,
      List.not_mem_nil,or_false,decide_eq_true_eq] at hd
    rcases hd with hd | hd | hd <;> simp_all
  split at h
  · rename_i hd
    simp only [Bool.and_eq_true,decide_eq_true_eq] at hd
    exact Or.inl hd.2
  · cases h

theorem newline_notMem_number {c : Char} (hc : c ≠ '\n') (rest : Text) :
    '\n' ∉ c :: rest.take (number c rest).more := by
  have h := newline_notMem_numberExtent (c :: rest)
  rw [number]
  cases hn : (numberExtent (c :: rest)).1 with
  | zero => simpa using hc.symm
  | succ n => simpa [hn] using h

theorem newline_notMem_punctuation {c : Char} (hc : c ≠ '\n') (rest : Text) :
    '\n' ∉ c :: rest.take (punctuation c rest).more := by
  rw [punctuation]
  split
  · rename_i kind hk
    obtain ⟨d,hd,hp⟩ := Option.bind_eq_some_iff.mp hk
    obtain ⟨t,rfl⟩ := List.head?_eq_some_iff.mp hd
    rcases pairKind?_isSome hp with rfl | rfl | rfl <;> simpa using hc.symm
  · split <;> simpa using hc.symm

theorem newline_notMem_lineComment (rest : Text) :
    '\n' ∉ '/' :: rest.take (firstLine rest).length := by
  rw [← List.prefix_iff_eq_take.mp (isPrefix_firstLine rest)]
  simp [newline_notMem_firstLine]

/-- No token ends with a newline. -/
theorem OpensToken.getLast?_ne {previous c : Char} {rest : Text} {e : Extent}
    (h : OpensToken previous c rest e) : (c :: rest.take e.more).getLast? ≠ some '\n' := by
  intro hn
  have hmem := List.mem_of_getLast? hn
  cases h with
  | command d line hp h hd =>
    have hpre := (isPrefix_trimRight _).trans (isPrefix_firstLine (c :: rest))
    have ht := List.prefix_iff_eq_take.mp hpre
    rw [h] at ht
    have hl : (trimRight (firstLine (c :: rest))).getLast? = some '\n' := by
      rw [h,ht]
      exact hn
    have := getLast?_trimRight hl
    rw [isBlank_newline] at this
    cases this
  | string h =>
    subst h
    rw [Lexing.string] at hn hmem
    split at hn
    · rename_i n hs
      have hq := getLast?_take_stringRun hs
      rw [List.getLast?_cons,hq] at hn
      cases hn
    · rename_i hs
      rw [hs] at hmem
      rw [← List.prefix_iff_eq_take.mp (isPrefix_firstLine rest)] at hmem
      simp [newline_notMem_firstLine] at hmem
  | symbol h =>
    subst h
    simp [Lexing.symbol,newline_notMem_symbolRun] at hmem
  | number h =>
    have hc : c ≠ '\n' := by
      rintro rfl
      revert h
      simp [show isDigit '\n' = false by decide]
    exact absurd hmem (newline_notMem_number hc rest)
  | name h =>
    have hc : '\n' ≠ c := by
      rintro rfl
      revert h
      simp [show isNameStart '\n' = false by decide]
    simp [Lexing.name,hc,newline_notMem_nameRun] at hmem
  | punctuation hg =>
    have hc : c ≠ '\n' := by
      rintro rfl
      simp [isGap] at hg
    exact absurd hmem (newline_notMem_punctuation hc rest)

end Lexing
end QScope
