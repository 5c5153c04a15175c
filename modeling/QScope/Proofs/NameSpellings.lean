import QScope.Proofs.CursorLookup
import QScope.Proofs.LambdaNamespaces
import QScope.Proofs.PathNames

/-! # Name spellings: names are segments joined by single dots

The lexer takes a dot along with no more than a look at the character behind it. This leaves no
segment empty, so that the dots of a name tell how many segments it has. -/
namespace QScope

namespace Texts
variable {separator : Char}

theorem join_cons (separator : Char) (part : Text) (parts : List Text) :
    join [separator] (part :: parts) = part ++ parts.flatMap (separator :: ·) := by
  induction parts generalizing part with
  | nil => simp [join]
  | cons next parts ih =>
    have hnext := ih next
    rw [join] at hnext ⊢
    rw [List.intercalate_cons_cons,hnext]
    simp

theorem join_concat {parts : List Text} (h : parts ≠ []) (last : Text) :
    join [separator] (parts ++ [last]) = join [separator] parts ++ separator :: last := by
  obtain ⟨part,parts,rfl⟩ := List.exists_cons_of_ne_nil h
  simp [join_cons]

end Texts

namespace DottedNames
open CharacterClasses TokenExtents Lexing

/-- A letter with the word characters behind it. -/
inductive IsSegment : Text → Prop
  | mk {c : Char} {x : Text} (letter : isNameStart c = true)
      (word : ∀ d ∈ x, isWordChar d = true) : IsSegment (c :: x)

/-- One or more segments, with or without a dot in front of them. -/
@[ext] structure Spelling where
  dotted : Bool
  segments : List Text
  nonempty : segments ≠ []
  sound : ∀ s ∈ segments, IsSegment s

namespace Spelling

def text (n : Spelling) : Text :=
  (if n.dotted then ['.'] else []) ++ Texts.join ['.'] n.segments

/-- All segments but the last, joined by dots. -/
def path (n : Spelling) : Text := Texts.join ['.'] n.segments.dropLast

def last (n : Spelling) : Text := n.segments.getLast n.nonempty

end Spelling

section
variable {s x r : Text} {segments : List Text}

theorem IsSegment.isWordChar (h : IsSegment s) : ∀ d ∈ s, isWordChar d = true := by
  cases h with
  | mk letter word => exact List.forall_mem_cons.mpr ⟨isWordChar_of_isNameStart letter,word⟩

theorem IsSegment.dot_notMem (h : IsSegment s) : '.' ∉ s := fun hd => by
  cases h.isWordChar '.' hd

theorem IsSegment.startsWith_append (h : IsSegment s) (r : Text) :
    startsWith isNameStart (s ++ r) = true := by
  cases h with
  | mk letter word => exact letter

/-- Segments with a dot in front of each go on with a name to their end. -/
theorem nameRun_flatMap (h : ∀ s ∈ segments, IsSegment s) :
    nameRun (segments.flatMap ('.' :: ·)) = (segments.flatMap ('.' :: ·)).length := by
  induction segments with
  | nil => rfl
  | cons s segments ih =>
    obtain ⟨hs,h⟩ := List.forall_mem_cons.mp h
    rw [List.flatMap_cons,List.cons_append]
    refine nameRun_cons_eq_length.mpr ⟨?_,?_⟩
    · simp [hs.startsWith_append]
    · rw [nameRun_append_of_run (nameRun_of_isWordChar hs.isWordChar),ih h,List.length_append]

/-- What goes on with a name is word characters, and then segments with a dot in front of each. -/
theorem exists_segments_of_nameRun (h : nameRun x = x.length) :
    ∃ (word : Text) (segments : List Text), x = word ++ segments.flatMap ('.' :: ·) ∧
      (∀ d ∈ word, isWordChar d = true) ∧ ∀ s ∈ segments, IsSegment s := by
  induction x with
  | nil => exact ⟨[],[],rfl,nofun,nofun⟩
  | cons c x ih =>
    obtain ⟨hc,hx⟩ := nameRun_cons_eq_length.mp h
    obtain ⟨word,segments,rfl,hword,hsegments⟩ := ih hx
    rw [Bool.or_eq_true,Bool.and_eq_true,beq_iff_eq] at hc
    rcases hc with hc | ⟨rfl,hletter⟩
    · exact ⟨c :: word,segments,rfl,List.forall_mem_cons.mpr ⟨hc,hword⟩,hsegments⟩
    · -- the letter behind the dot is that of a segment
      cases word with
      | nil => cases segments <;> cases hletter
      | cons d word =>
        have hs : IsSegment (d :: word) := .mk hletter (List.forall_mem_cons.mp hword).2
        exact ⟨[],(d :: word) :: segments,rfl,nofun,List.forall_mem_cons.mpr ⟨hs,hsegments⟩⟩

namespace Spelling
variable {n : Spelling}

theorem text_of_not_dotted (h : n.dotted = false) : n.text = Texts.join ['.'] n.segments := by
  simp [text,h]

theorem text_of_dotted (h : n.dotted = true) : n.text = '.' :: Texts.join ['.'] n.segments := by
  simp [text,h]

/-- The first segment is followed by the others, with a dot in front of each. -/
theorem exists_join_eq (n : Spelling) : ∃ s others, n.segments = s :: others ∧ IsSegment s ∧
    (∀ o ∈ others, IsSegment o) ∧
      Texts.join ['.'] n.segments = s ++ others.flatMap ('.' :: ·) := by
  obtain ⟨s,others,h⟩ := List.exists_cons_of_ne_nil n.nonempty
  obtain ⟨hs,ho⟩ := List.forall_mem_cons.mp (h ▸ n.sound)
  exact ⟨s,others,h,hs,ho,by rw [h,Texts.join_cons]⟩

theorem isName (n : Spelling) : IsName n.text := by
  obtain ⟨s,others,-,hs,ho,hjoin⟩ := n.exists_join_eq
  have hrun := nameRun_append_of_run (nameRun_of_isWordChar hs.isWordChar)
    (others.flatMap ('.' :: ·))
  rw [nameRun_flatMap ho,← List.length_append] at hrun
  cases hd : n.dotted with
  | true =>
    rw [text_of_dotted hd,hjoin]
    exact .mk (.inr ⟨rfl,hs.startsWith_append _⟩) hrun
  | false =>
    rw [text_of_not_dotted hd,hjoin]
    cases hs with
    | mk letter word => exact .mk (.inl letter) (nameRun_cons_eq_length.mp hrun).2

/-- A name without a dot in front opens with a letter. -/
theorem head?_text (n : Spelling) : n.text.head? = some '.' ↔ n.dotted = true := by
  cases hd : n.dotted with
  | true => simp [text_of_dotted hd]
  | false =>
    obtain ⟨s,others,-,hs,-,hjoin⟩ := n.exists_join_eq
    rw [text_of_not_dotted hd,hjoin]
    cases hs with
    | mk letter word =>
      refine iff_of_false (fun h => ?_) Bool.false_ne_true
      obtain rfl := Option.some.inj h
      cases letter

theorem split_join_segments (n : Spelling) :
    Texts.split '.' (Texts.join ['.'] n.segments) = n.segments :=
  Texts.split_join n.nonempty fun s hs => (n.sound s hs).dot_notMem

/-- A name is spelled in one way. -/
theorem text_injective : Function.Injective text := by
  intro n m h
  have hd : n.dotted = m.dotted := by
    rw [Bool.eq_iff_iff,← n.head?_text,← m.head?_text,h]
  have hjoin : Texts.join ['.'] n.segments = Texts.join ['.'] m.segments := by
    rw [text,text,hd] at h
    exact List.append_cancel_left h
  ext1
  · exact hd
  · rw [← n.split_join_segments,hjoin,m.split_join_segments]

theorem exists_text_eq (h : IsName x) : ∃ n : Spelling, n.text = x := by
  obtain ⟨opens,run⟩ := h
  rename_i c x
  have hrun : nameRun (c :: x) = (c :: x).length := by
    refine nameRun_cons_eq_length.mpr ⟨?_,run⟩
    rcases opens with h | ⟨rfl,h⟩
    · rw [isWordChar_of_isNameStart h,Bool.true_or]
    · rw [h]
      rfl
  obtain ⟨word,segments,hx,hword,hsegments⟩ := exists_segments_of_nameRun hrun
  cases word with
  | cons d word =>
    obtain ⟨rfl,rfl⟩ := List.cons.inj hx
    have hletter : isNameStart c = true := opens.resolve_right fun hd => by
      cases hd.1 ▸ hword c List.mem_cons_self
    have hs : IsSegment (c :: word) := .mk hletter (List.forall_mem_cons.mp hword).2
    refine ⟨⟨false,(c :: word) :: segments,List.cons_ne_nil _ _,
      List.forall_mem_cons.mpr ⟨hs,hsegments⟩⟩,?_⟩
    simp [text,Texts.join_cons]
  | nil =>
    cases segments with
    | nil => cases hx
    | cons s segments =>
      refine ⟨⟨true,s :: segments,List.cons_ne_nil _ _,hsegments⟩,?_⟩
      simp [text,Texts.join_cons,hx]

theorem path_last (h : 2 ≤ n.segments.length) :
    Texts.join ['.'] n.segments = n.path ++ '.' :: n.last := by
  have hne : n.segments.dropLast ≠ [] := by
    rw [← List.length_pos_iff,List.length_dropLast]
    omega
  rw [path,← Texts.join_concat hne,last,List.dropLast_append_getLast]

theorem dot_notMem_last (n : Spelling) : '.' ∉ n.last :=
  (n.sound _ (List.getLast_mem n.nonempty)).dot_notMem

theorem text_eq_qualify (hd : n.dotted = true) (h : 2 ≤ n.segments.length) :
    n.text = qualify n.path n.last := by
  rw [text_of_dotted hd,path_last h]
  rfl

/-- The dots of a name tell whether it has a namespace in front. -/
theorem isQualified_text (n : Spelling) :
    isQualified n.text = true ↔ n.dotted = true ∧ 2 ≤ n.segments.length := by
  constructor
  · intro h
    obtain ⟨path,name,htext,-⟩ := exists_qualify h
    have hd : n.dotted = true := by
      rw [← n.head?_text,htext]
      rfl
    refine ⟨hd,?_⟩
    -- a single segment has no dot
    obtain ⟨s,others,hsegments,hs,-⟩ := n.exists_join_eq
    cases others with
    | cons o others => simp [hsegments]
    | nil =>
      rw [text_of_dotted hd,hsegments,Texts.join_cons,List.flatMap_nil,List.append_nil] at htext
      refine absurd ?_ hs.dot_notMem
      rw [(List.cons.inj htext).2]
      simp
  · rintro ⟨hd,h⟩
    rw [text_eq_qualify hd h,isQualified_qualify]

theorem split_text (h : isQualified n.text = true) :
    n.text = qualify n.path n.last ∧ split n.text = (some n.path,n.last) := by
  obtain ⟨hd,hlength⟩ := n.isQualified_text.mp h
  have htext := text_eq_qualify hd hlength
  exact ⟨htext,htext ▸ split_qualify n.path n.dot_notMem_last⟩

end Spelling
end
end DottedNames

/-- Identifiers and keywords are read as names. -/
def Kind.IsNamed (kind : Kind) : Prop := kind = .identifier ∨ kind = .keyword

namespace Annotating
open CharacterClasses DottedNames Lexing Resolution TokenExtents Texts

/-- The names in a text. Each has one spelling, which goes on as far as any name does there, and
the dots of that tell what stands before its last segment. -/
structure NamesSpelled (t : Text) (tokens : List AnnotatedToken) : Prop where
  taken : ∀ i x, tokens[i]? = some x → ∃ s, Takes t tokens i s x ∧ x.image = slice t s.1 s.2
  spelled : ∀ x ∈ tokens, x.kind.IsNamed → ∃! n : Spelling, n.text = x.image
  stops : ∀ i s x, Takes t tokens i s x → x.kind.IsNamed → ∀ c, t[s.2]? = some c →
    isWordChar c = false ∧ ¬(c = '.' ∧ startsWith isNameStart (t.drop (s.2 + 1)) = true)
  longest : ∀ i s x, Takes t tokens i s x → x.kind.IsNamed → ∀ n : Spelling,
    n.text <+: t.drop s.1 → n.text.length ≤ x.image.length
  qualified : ∀ x ∈ tokens, x.isIdentifier = true → ∀ n : Spelling, n.text = x.image →
    (x.isQualified = true ↔ n.dotted = true ∧ 2 ≤ n.segments.length)
  parts : ∀ x ∈ tokens, x.isQualified = true → ∀ n : Spelling, n.text = x.image →
    split x.image = (some n.path,n.last) ∧ x.ns = some n.path ∧
      x.image = '.' :: n.path ++ '.' :: n.last

section
variable {file t : Text} {i : Nat} {s : Nat × Nat} {x : AnnotatedToken}

theorem describes_of_takes (h : Takes t (parse file t) i s x) : Describes file t s x.toToken :=
  h.describes (map_toToken_parse file t ▸ tokenize_described file t)

/-- The text at the slice of a name, with all that goes on with the name. -/
theorem exists_run_of_takes (h : Takes t (parse file t) i s x) (hk : x.kind.IsNamed) :
    ∃ c y r, x.image = c :: y ∧ t.drop s.1 = c :: (y ++ r) ∧ t.drop s.2 = r ∧
      OpensName c (y ++ r) ∧ nameRun (y ++ r) = y.length := by
  have hd := describes_of_takes h
  obtain ⟨hlt,hle⟩ := h.within
  obtain ⟨as,bs,hls,hstart,-⟩ :=
    locate_eq_of_mem (toToken_mem_tokenize (List.mem_of_getElem? h.token))
  obtain ⟨c,y,r,ht,himage,-,hlex⟩ := exists_of_lexemes_eq hls
  dsimp only at himage
  obtain ⟨ho,hname⟩ := name_of_word (by rw [hlex]) hk
  have hfirst : s.1 = (spelling as).length := by
    refine (Position.ofOffset_inj (t := t) (by omega) ?_).mp ?_
    · simp [ht]
    · rw [← hd.start,hstart,ht,Position.ofOffset_append]
  have hlast : s.2 = s.1 + (c :: y).length := by
    have hlength := congrArg List.length hd.image
    rw [slice,List.length_drop,List.length_take_of_le hle,himage] at hlength
    omega
  refine ⟨c,y,r,himage,?_,?_,ho,congrArg Extent.more (hname.symm.trans hlex)⟩
  · rw [hfirst,ht,List.drop_left,List.cons_append]
  · rw [hlast,← List.drop_drop,hfirst,ht,List.drop_left,List.drop_left]

theorem isName_of_takes (h : Takes t (parse file t) i s x) (hk : x.kind.IsNamed) :
    IsName x.image := by
  obtain ⟨c,y,r,himage,-,-,ho,hrun⟩ := exists_run_of_takes h hk
  have hname := ho.isName
  rwa [hrun,List.take_left,← himage] at hname

end

theorem parse_namesSpelled (file t : Text) : NamesSpelled t (parse file t) := by
  have htaken : ∀ {i x}, (parse file t)[i]? = some x → ∃ s, Takes t (parse file t) i s x :=
    fun hi => exists_takes (map_toToken_parse file t ▸ tokenize_described file t) hi
  constructor
  case taken =>
    intro i x hi
    obtain ⟨s,hs⟩ := htaken hi
    exact ⟨s,hs,(describes_of_takes hs).image⟩
  case spelled =>
    intro x hx hk
    obtain ⟨i,hi⟩ := List.mem_iff_getElem?.mp hx
    obtain ⟨s,hs⟩ := htaken hi
    obtain ⟨n,hn⟩ := Spelling.exists_text_eq (isName_of_takes hs hk)
    exact ⟨n,hn,fun m hm => Spelling.text_injective (hm.trans hn.symm)⟩
  case stops =>
    intro i s x hs hk c hc
    obtain ⟨-,y,r,-,-,hr,-,hrun⟩ := exists_run_of_takes hs hk
    have hstop : nameRun r = 0 := nameRun_eq_zero_of_append hrun
    rw [← hr,List.drop_eq_getElem?_toList_append,hc] at hstop
    simpa using nameRun_eq_zero.mp hstop
  case longest =>
    intro i s x hs hk n hn
    obtain ⟨c,y,r,himage,ht,-,-,hrun⟩ := exists_run_of_takes hs hk
    rw [himage,List.length_cons,← hrun]
    exact n.isName.length_le (ht ▸ hn)
  case qualified =>
    intro x hx hi n hn
    rw [AnnotatedToken.isQualified_eq hi,← hn,n.isQualified_text]
  case parts =>
    intro x hx hq n hn
    obtain ⟨hi,hq⟩ := Bool.and_eq_true_iff.mp hq
    rw [← hn] at hq
    obtain ⟨htext,hsplit⟩ := Spelling.split_text hq
    rw [hn] at htext hsplit
    refine ⟨hsplit,?_,htext⟩
    obtain ⟨ns,hns⟩ := ns_of_parse hx
    rw [hns,Namespaces.ofToken,if_pos ⟨beq_iff_eq.mp hi,by rw [htext]; rfl⟩,hsplit]

/-- A dot without a letter behind it is no part of a name. -/
example : (tokenize [] ".a.b..c.1 .d.".toList).map (·.image) =
    [".a.b",".",".c",".1",".d","."].map String.toList := by
  decide +kernel

end Annotating
end QScope
