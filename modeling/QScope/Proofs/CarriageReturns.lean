import QScope.CommandLine
import QScope.Proofs.FileNames
import QScope.Proofs.LineEnds
import QScope.Proofs.LineSplitting
import QScope.Proofs.ServerRuns

/-! # Carriage returns: a text is read alike with and without them in front of its newlines -/
namespace QScope
open CharacterClasses TokenExtents Texts

namespace Texts
variable {s t : Text}

/-- A text with a carriage return in front of each newline. -/
def withReturns : Text → Text
  | [] => []
  | c :: t => if c = '\n' then '\r' :: '\n' :: withReturns t else c :: withReturns t

theorem withReturns_cons {c : Char} (hc : c ≠ '\n') (t : Text) :
    withReturns (c :: t) = c :: withReturns t := by
  rw [withReturns,if_neg hc]

theorem withReturns_append (s t : Text) :
    withReturns (s ++ t) = withReturns s ++ withReturns t := by
  induction s with
  | nil => rfl
  | cons c s ih => by_cases hc : c = '\n' <;> simp [withReturns,hc,ih]

theorem withReturns_of_notMem (h : '\n' ∉ t) : withReturns t = t := by
  induction t with
  | nil => rfl
  | cons c t ih =>
    rw [List.mem_cons,not_or] at h
    rw [withReturns_cons (Ne.symm h.1),ih h.2]

theorem withReturns_append_newline (h : '\n' ∉ s) (t : Text) :
    withReturns (s ++ '\n' :: t) = s ++ '\r' :: '\n' :: withReturns t := by
  rw [withReturns_append,withReturns_of_notMem h,withReturns,if_pos rfl]

theorem firstLine_withReturns (h : '\n' ∈ t) :
    firstLine (withReturns t) = firstLine t ++ ['\r'] := by
  obtain ⟨a,b,rfl,ha⟩ := List.eq_append_cons_of_mem h
  have hr : '\n' ∉ a ++ ['\r'] := by simp [ha]
  rw [withReturns_append_newline ha,firstLine_append_newline ha]
  simpa using firstLine_append_newline hr (withReturns b)

theorem isBlank_return : ∀ c ∈ ['\r'], isBlank c = true :=
  List.forall_mem_singleton.mpr (by decide)

theorem trimRight_firstLine_withReturns (t : Text) :
    trimRight (firstLine (withReturns t)) = trimRight (firstLine t) := by
  by_cases h : '\n' ∈ t
  · rw [firstLine_withReturns h,trimRight_append_blank _ isBlank_return]
  · rw [withReturns_of_notMem h]

theorem getLastD_withReturns (t : Text) (d : Char) :
    (withReturns t).getLastD d = t.getLastD d := by
  rcases List.eq_nil_or_concat t with rfl | ⟨s,c,rfl⟩
  · rfl
  · rw [List.concat_eq_append,withReturns_append,List.getLastD_concat]
    by_cases hc : c = '\n' <;> simp [withReturns,hc]

/-- Read with its carriage returns as newlines it is the text again. -/
theorem newlines_withReturns (h : '\r' ∉ t) : SourceLines.newlines (withReturns t) = t := by
  induction t with
  | nil => rfl
  | cons c t ih =>
    rw [List.mem_cons,not_or] at h
    by_cases hc : c = '\n'
    · rw [withReturns,if_pos hc,SourceLines.newlines,ih h.2,hc]
    · rw [withReturns_cons hc,SourceLines.newlines,ih h.2]
      · exact fun _ he => absurd he.symm h.1
      · exact fun he => h.1 he.symm

end Texts

namespace Position

theorem advance_withReturns (p : Position) (t : Text) :
    p.advance (withReturns t) = p.advance t := by
  induction t generalizing p with
  | nil => rfl
  | cons c t ih =>
    by_cases hc : c = '\n'
    · rw [withReturns,if_pos hc,hc]
      exact ih _
    · rw [withReturns_cons hc]
      exact ih _

end Position

namespace TokenExtents

theorem blockComment_withReturns (t : Text) :
    blockComment (withReturns t) = withReturns (blockComment t) := by
  induction t using lineInduction with
  | last s h =>
    rw [withReturns_of_notMem h,blockComment_of_notMem h,withReturns_of_notMem h]
  | line s t h ih =>
    have hr : '\n' ∉ s ++ ['\r'] := by simp [h]
    have hs := blockComment_append_newline hr (withReturns t)
    rw [trimRight_append_blank _ isBlank_return,List.append_assoc,List.singleton_append] at hs
    rw [withReturns_append_newline h,hs,blockComment_append_newline h,withReturns_append_newline h]
    split
    · simp [withReturns]
    · simp [ih]

/-- A carriage return closes no string, and a backslash may as well take it along as the newline
behind it. -/
theorem isSome_stringRun_withReturns (t : Text) :
    (stringRun (withReturns t)).isSome = (stringRun t).isSome := by
  fun_induction stringRun t with
  | case1 => rfl
  | case2 t => rfl
  | case3 c t ih =>
    by_cases hc : c = '\n'
    · simpa [withReturns,hc,stringRun] using ih
    · simpa [withReturns,hc,stringRun] using ih
  | case4 c t hq he ih =>
    by_cases hn : c = '\n'
    · simpa [withReturns,hn,stringRun] using ih
    by_cases hb : c = '\\'
    · cases t with
      | nil => rw [hb]; rfl
      | cons d t => exact absurd rfl (he d t hb)
    · rw [withReturns_cons hn,Lexing.stringRun_cons hq hb,Option.isSome_map,Option.isSome_map,ih]

theorem isSome_stringRun_append_withReturns (s t : Text) :
    (stringRun (s ++ withReturns t)).isSome = (stringRun (s ++ t)).isSome := by
  fun_induction stringRun s with
  | case1 => exact isSome_stringRun_withReturns t
  | case2 s => rfl
  | case3 c s ih => simpa [stringRun] using ih
  | case4 c s hq he ih =>
    by_cases hb : c = '\\'
    · cases s with
      | nil => simpa [withReturns,hb] using isSome_stringRun_withReturns ('\\' :: t)
      | cons d s => exact absurd rfl (he d s hb)
    · rw [List.cons_append,List.cons_append,Lexing.stringRun_cons hq hb,
        Lexing.stringRun_cons hq hb,Option.isSome_map,Option.isSome_map,ih]

end TokenExtents

namespace Lexing
variable {p c : Char} {x r : Text}

theorem alike_withReturns (t : Text) : Alike t (withReturns t) := by
  by_cases h : '\n' ∈ t
  · obtain ⟨a,b,rfl,ha⟩ := List.eq_append_cons_of_mem h
    rw [withReturns_append_newline ha]
    refine Alike.append_left (.gap ?_ ?_) a
    · rintro c ⟨⟩
      rfl
    · rintro c ⟨⟩
      rfl
  · rw [withReturns_of_notMem h]
    simpa using Alike.append_left (.gap nofun nofun : Alike [] []) t

/-- A lexeme cannot tell the end of a line from one with a carriage return, unless it takes the rest
of its line. -/
theorem adjoins_withReturns (t : Text) : Adjoins t (withReturns t) where
  alike := alike_withReturns t
  nil := by
    rintro rfl
    rfl
  blank := by
    by_cases h : '\n' ∈ t
    · rw [firstLine_withReturns h,List.all_append]
      simp [show isBlank '\r' = true by decide]
    · rw [withReturns_of_notMem h]
  unclosed s hs := by
    rw [← Option.not_isSome_iff_eq_none] at hs ⊢
    rwa [isSome_stringRun_append_withReturns]

/-! One lexeme -/

/-- What is not a line of its own under `/` is a comment up to the end of any such line. -/
theorem lexeme_lineComment {rest : Text} (h : (lexeme p '/' rest).shape = .lineComment)
    (rest' : Text)
    (ht : trimRight (firstLine ('/' :: rest')) = trimRight (firstLine ('/' :: rest))) :
    lexeme p '/' rest' = ⟨.lineComment,(firstLine rest').length⟩ := by
  have hopens : opensComment p = true := by
    have ho : OpensGap p '/' rest _ := opensGap (by rw [h]; rfl)
    generalize lexeme p '/' rest = e at h ho
    cases ho with
    | lineComment hc hp => exact hp
    | blank | blockComment | scriptEnd => cases h
  have hw : withinLine p '/' rest' = ⟨.lineComment,(firstLine rest').length⟩ := by
    rw [withinLine,if_neg (by decide),if_pos ⟨rfl,hopens⟩]
  rw [lexeme]
  split
  · rename_i hp
    rw [lexeme,if_pos hp] at h
    have htrim : trimRight (firstLine ('/' :: rest)) = '/' :: trimRight (firstLine rest) := by
      rw [← List.singleton_append,firstLine_append (by decide)]
      exact trimRight_cons (by decide) _
    cases hr : trimRight (firstLine rest) with
    | nil =>
      rw [lineForm?_of_slash (by rw [htrim,hr])] at h
      cases h
    | cons d line =>
      rw [lineForm?_of_two (by rw [ht,htrim,hr]),if_neg (by simp),Option.getD_none,hw]
  · exact hw

theorem locate_lineComment_withReturns (h : lexeme p '/' (x ++ r) = ⟨.lineComment,x.length⟩)
    (hn : (firstLine (x ++ r)).length = x.length) (file : Text) (i : Nat) (pos : Position) :
    locate file i pos (lexemes p (withReturns ('/' :: x ++ r))) =
      locate file i (pos.advance ('/' :: x)) (lexemes (x.getLastD '/') (withReturns r)) := by
  have hline : firstLine (x ++ r) = x := by
    have hp := List.prefix_iff_eq_take.mp (isPrefix_firstLine (x ++ r))
    rwa [hn,List.take_left] at hp
  have hx : '\n' ∉ '/' :: x := by
    have := newline_notMem_firstLine (x ++ r)
    rw [hline] at this
    simpa using this
  rcases r with _ | ⟨d,r⟩
  · have hg := locate_gap h rfl file i pos
    rw [List.append_nil] at hg ⊢
    rwa [withReturns_of_notMem hx]
  · obtain rfl : d = '\n' := getElem?_firstLine (t := x ++ d :: r) (by rw [hline]; simp)
    have hw : withReturns ('/' :: x ++ '\n' :: r) =
        '/' :: (x ++ ['\r']) ++ '\n' :: withReturns r := by
      rw [withReturns_append_newline hx]
      simp
    have hxr : '\n' ∉ x ++ ['\r'] := by simpa using hx
    have hl : lexeme p '/' (x ++ ['\r'] ++ '\n' :: withReturns r) =
        ⟨.lineComment,(x ++ ['\r']).length⟩ := by
      have ht := trimRight_firstLine_withReturns ('/' :: x ++ '\n' :: r)
      rw [hw] at ht
      rw [lexeme_lineComment (congrArg Extent.shape h) (x ++ ['\r'] ++ '\n' :: withReturns r) ht,
        firstLine_append_newline hxr]
    rw [hw,locate_gap hl rfl,List.getLastD_concat,← List.cons_append,Position.advance_append,
      withReturns,if_pos rfl,locate_isGap (by decide) (x.getLastD '/')]
    rfl

theorem ne_newline_of_trimRight {t : Text} (h : trimRight (firstLine (c :: t)) ≠ []) :
    c ≠ '\n' := by
  rintro rfl
  exact h rfl

theorem locate_blockComment_withReturns (hp : p = '\n')
    (hm : trimRight (firstLine (c :: (x ++ r))) = ['/'])
    (hn : (blockComment (c :: (x ++ r))).length - 1 = x.length) (file : Text) (i : Nat)
    (pos : Position) :
    locate file i pos (lexemes p (withReturns (c :: x ++ r))) =
      locate file i (pos.advance (c :: x)) (lexemes (x.getLastD c) (withReturns r)) := by
  have hc : c ≠ '\n' := ne_newline_of_trimRight (by rw [hm]; simp)
  have hw := withReturns_cons hc
  have hblock : blockComment (c :: (x ++ r)) = c :: x := by
    have hpre := List.prefix_iff_eq_take.mp (isPrefix_blockComment (c :: (x ++ r)))
    have hpos := List.length_pos_iff.mpr (mt blockComment_eq_nil (List.cons_ne_nil c (x ++ r)))
    rwa [show (blockComment (c :: (x ++ r))).length = x.length + 1 by omega,List.take_succ_cons,
      List.take_left] at hpre
  have hl : lexeme p c (withReturns x ++ withReturns r) =
      ⟨.blockComment,(withReturns x).length⟩ := by
    have ht := trimRight_firstLine_withReturns (c :: (x ++ r))
    have hb := blockComment_withReturns (c :: (x ++ r))
    rw [hm,hw,withReturns_append] at ht
    rw [hblock,hw,hw,withReturns_append] at hb
    rw [lexeme,if_pos hp,lineForm?_of_slash ht,Option.getD_some,hb,List.length_cons,
      Nat.add_sub_cancel]
  rw [List.cons_append,hw,withReturns_append,← List.cons_append,locate_gap hl rfl,← hw,
    Position.advance_withReturns,getLastD_withReturns]

theorem locate_scriptEnd_withReturns (hp : p = '\n')
    (hm : trimRight (firstLine (c :: (x ++ r))) = ['\\']) (hn : (x ++ r).length = x.length)
    (file : Text) (i : Nat) (pos : Position) :
    locate file i pos (lexemes p (withReturns (c :: x ++ r))) =
      locate file i (pos.advance (c :: x)) (lexemes (x.getLastD c) (withReturns r)) := by
  obtain rfl : r = [] := by simpa using hn
  have hc : c ≠ '\n' := ne_newline_of_trimRight (by rw [hm]; simp)
  have hw := withReturns_cons hc
  have hl : lexeme p c (withReturns x ++ []) = ⟨.scriptEnd,(withReturns x).length⟩ := by
    have ht := trimRight_firstLine_withReturns (c :: (x ++ []))
    rw [hm,hw,List.append_nil] at ht
    rw [List.append_nil,lexeme,if_pos hp,lineForm?_of_backslash ht]
    rfl
  have h := locate_gap hl rfl file i pos
  rw [List.append_nil,← hw,Position.advance_withReturns,getLastD_withReturns] at h
  rwa [List.append_nil]

/-- A gap is read with the carriage returns in it, and with the one behind it if it takes the rest
of its line. -/
theorem locate_gap_withReturns (hs : (lexeme p c (x ++ r)).shape.isToken = false)
    (hn : (lexeme p c (x ++ r)).more = x.length) (file : Text) (i : Nat) (pos : Position) :
    locate file i pos (lexemes p (withReturns (c :: x ++ r))) =
      locate file i (pos.advance (c :: x)) (lexemes (x.getLastD c) (withReturns r)) := by
  have ho := opensGap hs
  generalize he : lexeme p c (x ++ r) = e at hs hn ho
  cases ho with
  | blank hg =>
    obtain rfl := List.length_eq_zero_iff.mp hn.symm
    by_cases hc : c = '\n'
    · subst hc
      exact (locate_isGap (by decide) p _ file i pos).trans (locate_isGap hg '\r' _ file i _)
    · rw [List.cons_append,List.nil_append,withReturns_cons hc,locate_isGap hg]
      rfl
  | lineComment hc hp =>
    subst hc
    exact locate_lineComment_withReturns (by rw [he]; exact congrArg _ hn) hn file i pos
  | blockComment hp hm => exact locate_blockComment_withReturns hp hm hn file i pos
  | scriptEnd hp hm => exact locate_scriptEnd_withReturns hp hm hn file i pos

/-- Tokens that carriage returns leave alone: they hold no newline, and do not take the rest of
their line. -/
def Intact (l : Lexeme) : Prop :=
  l.shape.isToken = true → '\n' ∉ l.text ∧ l.shape.takesLine = false

/-- Carriage returns move no token of a text. -/
theorem locate_withReturns (file : Text) (i : Nat) (pos : Position) {p : Char} {t : Text}
    (h : ∀ l ∈ lexemes p t, Intact l) :
    locate file i pos (lexemes p (withReturns t)) = locate file i pos (lexemes p t) := by
  fun_induction lexemes p t generalizing i pos with
  | case1 => rw [withReturns,lexemes]
  | case2 p c rest e ih =>
    have hle : e.more ≤ rest.length := lexeme_le p c rest
    obtain ⟨x,r,rfl,hx⟩ : ∃ x r, rest = x ++ r ∧ e.more = x.length :=
      ⟨_,_,(List.take_append_drop e.more rest).symm,(List.length_take_of_le hle).symm⟩
    rw [hx,List.take_left,List.drop_left] at h ih ⊢
    rw [List.forall_mem_cons] at h
    have he : lexeme p c (x ++ r) = ⟨e.shape,x.length⟩ := by rw [← hx]
    rw [← List.cons_append]
    cases hs : e.shape.isToken with
    | false =>
      rw [← lexemes_of_lexeme he,locate_gap_withReturns hs hx,locate_gap he hs,ih i _ h.2]
    | true =>
      obtain ⟨hnl,hl⟩ := h.1 hs
      have hv : lexeme p c (x ++ withReturns r) = ⟨e.shape,x.length⟩ := by
        rw [(adjoins_withReturns r).lexeme_append _ hx,he]
        intro hline
        rw [hl] at hline
        cases hline
      rw [withReturns_append,withReturns_of_notMem hnl,lexemes_of_lexeme hv,locate,locate]
      cases hsh : e.shape with
      | token kind error => rw [ih _ _ h.2]
      | blank | lineComment | blockComment | scriptEnd => rw [hsh] at hs; cases hs

/-- Every lexeme that is a token is found among the tokens. -/
theorem exists_mem_locate {ls : List Lexeme} {l : Lexeme} (h : l ∈ ls) {kind : Kind}
    {error : Option LexicalError} (hs : l.shape = .token kind error) (file : Text) (i : Nat)
    (pos : Position) :
    ∃ token ∈ locate file i pos ls, token.image = l.text ∧ token.error = error := by
  obtain ⟨as,bs,rfl⟩ := List.append_of_mem h
  rw [locate_append,locate,hs]
  exact ⟨_,List.mem_append_right _ List.mem_cons_self,rfl,rfl⟩

theorem intact_of_tokens {file t : Text} (hn : ∀ token ∈ tokenize file t, '\n' ∉ token.image)
    (he : ∀ token ∈ tokenize file t, token.error ≠ some .unterminatedString) :
    ∀ l ∈ lexemes '\n' t, Intact l := by
  intro l hl ht
  cases hs : l.shape with
  | token kind error =>
    obtain ⟨token,htoken,himage,herror⟩ := exists_mem_locate hl hs file 0 .origin
    refine ⟨himage ▸ hn token htoken,?_⟩
    have := he token htoken
    rw [herror] at this
    rcases error with _ | _ | _ | _
    · rfl
    · exact absurd rfl this
    · rfl
    · rfl
  | blank | lineComment | blockComment | scriptEnd => rw [hs] at ht; cases ht

end Lexing

/-- Carriage returns in front of the newlines of a text do not show: its tokens are the same, and so
are the places and the findings that a server has for the text as it stands and a command line for
a file of it. -/
structure IgnoresReturns (t : Text) : Prop where
  tokens : ∀ file, Lexing.tokenize file (withReturns t) = Lexing.tokenize file t
  places : ∀ (s : LanguageServer.Server) (uri : Text) (tree : FileTree) (name : Text),
    tree.fileNamed? name = some (withReturns t) →
      ∃ tokens, CommandLine.parseFile tree name = some tokens ∧
        (s.receive (.opened uri (withReturns t))).tokens uri = tokens.map (·.inFile uri)
  findings : ∀ (s : LanguageServer.Server) (uri : Text) (tree : FileTree) (name : Text),
    tree.fileNamed? name = some (withReturns t) → s.settings.linting = true →
      ∃ found, CommandLine.lintFiles tree s.disabled [name] = some [⟨name,found⟩] ∧
        (s.receive (.opened uri (withReturns t))).publish (.opened uri (withReturns t)) =
          [⟨uri,found.map Editing.notice⟩]

theorem tokenize_ignoresReturns {file t : Text} (hr : '\r' ∉ t)
    (hn : ∀ token ∈ Lexing.tokenize file t, '\n' ∉ token.image)
    (he : ∀ token ∈ Lexing.tokenize file t, token.error ≠ some .unterminatedString) :
    IgnoresReturns t := by
  have htokens : ∀ file, Lexing.tokenize file (withReturns t) = Lexing.tokenize file t :=
    fun file => Lexing.locate_withReturns file 0 .origin (Lexing.intact_of_tokens hn he)
  have hparse : ∀ file, Annotating.parse file (withReturns t) = Annotating.parse file t :=
    fun file => congrArg Annotating.annotate (htokens file)
  have hserver : ∀ (s : LanguageServer.Server) (uri name : Text),
      (s.receive (.opened uri (withReturns t))).tokens uri =
        (Annotating.parse name t).map (·.inFile uri) := by
    intro s uri name
    rw [← Annotating.parse_inFile name uri,← hparse uri]
    exact congrArg (Annotating.parse uri) (s.text_store uri _)
  have hfile : ∀ (tree : FileTree) (name : Text), tree.fileNamed? name = some (withReturns t) →
      CommandLine.parseFile tree name = some (Annotating.parse name t) := by
    intro tree name h
    rw [CommandLine.parseFile,h,Option.map_some,newlines_withReturns hr]
  refine ⟨htokens,fun s uri tree name h => ?_,fun s uri tree name h hlint => ?_⟩
  · exact ⟨_,hfile tree name h,hserver s uri name⟩
  · refine ⟨Linting.lint s.disabled (Annotating.parse name t),?_,?_⟩
    · rw [CommandLine.lintFiles,List.mapM_cons,hfile tree name h]
      rfl
    · rw [LanguageServer.Server.publish,hserver s uri name,Editing.notices_inFile]
      exact if_pos hlint

/-- Comments of both kinds, a command, a number and a string that end with their lines. -/
def mixedLines : Text := "a:1. / b\n\\d .n\n/\n\"\n\\\nc:\"d\"\n\\\n\"".toList

theorem ignoresReturns_mixedLines : '\r' ∉ mixedLines ∧
    (∀ token ∈ Lexing.tokenize [] mixedLines,
      '\n' ∉ token.image ∧ token.error ≠ some .unterminatedString) ∧
    (Lexing.tokenize [] (withReturns mixedLines)).map (·.image) =
      ["a",":","1.","\\d .n","c",":","\"d\""].map String.toList ∧
    IgnoresReturns mixedLines := by
  have hr : '\r' ∉ mixedLines := by decide
  have h : ∀ token ∈ Lexing.tokenize [] mixedLines,
      '\n' ∉ token.image ∧ token.error ≠ some .unterminatedString := by decide +kernel
  have hi : IgnoresReturns mixedLines := tokenize_ignoresReturns hr
    (fun token ht => (h token ht).1) fun token ht => (h token ht).2
  refine ⟨hr,h,?_,hi⟩
  rw [hi.tokens]
  decide +kernel

end QScope
