import QScope.Proofs.Lines
import QScope.Proofs.Offsets
import QScope.Proofs.PathNames
import QScope.SourceExcerpts

/-! # Line ends: newlines number the lines of a text, and more than newlines end those of a file

A text is cut at its newlines, and each of these lines may be several lines of the file that holds
it. -/
namespace QScope

namespace Texts
variable {s t line : Text} {k : Nat}

theorem head?_split (t : Text) : (split '\n' t).head? = some (firstLine t) := by
  induction t with
  | nil => rfl
  | cons c t ih =>
    rw [split,firstLine]
    by_cases hc : c = '\n'
    · simp [hc]
    · obtain ⟨part,parts,hparts⟩ := List.exists_cons_of_ne_nil (split_ne_nil '\n' t)
      rw [hparts,List.head?_cons,Option.some.injEq] at ih
      simp [hc,hparts,ih,firstLine]

/-- The line that an offset stands in, by the newlines in front of it. -/
theorem getElem?_split (s t : Text) :
    (split '\n' (s ++ t))[s.count '\n']? = some (behindLast '\n' s ++ firstLine t) := by
  induction s with
  | nil => simp [← List.head?_eq_getElem?,head?_split]
  | cons c s ih =>
    by_cases hc : c = '\n'
    · have hb : behindLast '\n' ('\n' :: s) = behindLast '\n' s := behindLast_append_cons '\n' [] s
      simp [hc,split,hb,ih]
    · obtain ⟨part,parts,hparts⟩ := List.exists_cons_of_ne_nil (split_ne_nil '\n' (s ++ t))
      rw [hparts] at ih
      rw [List.cons_append,split,if_neg hc,hparts,List.count_cons_of_ne hc]
      by_cases hs : '\n' ∈ s
      · obtain ⟨n,hn⟩ := Nat.exists_eq_succ_of_ne_zero (List.count_pos_iff.mpr hs).ne'
        rw [hn] at ih ⊢
        simpa [behindLast_cons_of_mem c hs] using ih
      · have hcs : '\n' ∉ c :: s := by simp [hs,Ne.symm hc]
        rw [List.count_eq_zero.mpr hs,behindLast_of_notMem hs] at ih
        rw [List.count_eq_zero.mpr hs,behindLast_of_notMem hcs]
        simpa using ih

/-- A line with a newline in front of it and another one behind it, or the end of the text. -/
theorem exists_of_getElem?_split (h : (split '\n' t)[k]? = some line) :
    ∃ behind, t = ((split '\n' t).take k).flatMap (· ++ ['\n']) ++ (line ++ behind) ∧
      (behind = [] ∨ behind.head? = some '\n') := by
  induction t using lineInduction generalizing k with
  | last s hs =>
    rw [split_of_notMem hs] at h ⊢
    cases k with
    | zero => exact ⟨[],by simpa using h,.inl rfl⟩
    | succ k => simp at h
  | line s t hs ih =>
    rw [split_append_cons hs] at h ⊢
    cases k with
    | zero => exact ⟨'\n' :: t,by simpa using h,.inr rfl⟩
    | succ k =>
      obtain ⟨behind,ht,hb⟩ := ih h
      exact ⟨behind,by simpa using ht,hb⟩

end Texts

namespace SourceLines
variable {s t line : Text} {c : Char} {ls : List Text}

theorem newlines_eq_self (h : '\r' ∉ t) : newlines t = t := by
  fun_induction newlines t with
  | case1 => rfl
  | case2 => simp at h
  | case3 => simp at h
  | case4 c t _ _ ih => rw [ih (List.not_mem_of_not_mem_cons h)]

theorem mem_of_mem_newlines (h : c ∈ newlines t) : c = '\n' ∨ c ∈ t := by
  fun_induction newlines t with
  | case1 => cases h
  | case2 t ih => rcases List.mem_cons.mp h with rfl | h <;> simp_all
  | case3 t _ ih =>
    rcases List.mem_cons.mp h with rfl | h
    · exact .inl rfl
    · exact (ih h).imp_right (List.mem_cons_of_mem _)
  | case4 d t _ _ ih =>
    rcases List.mem_cons.mp h with rfl | h
    · exact .inr List.mem_cons_self
    · exact (ih h).imp_right (List.mem_cons_of_mem _)

/-- What stands in front of the first line end. -/
def firstPart (t : Text) : Text := t.takeWhile (!isLineEnd ·)

theorem headD_lines (t : Text) : (lines t).headD [] = firstPart t := by
  induction t with
  | nil => rfl
  | cons c t ih =>
    cases hc : isLineEnd c with
    | true => simp [lines,firstPart,hc]
    | false => cases hl : lines t <;> simp_all [lines,firstPart]

theorem lines_cons (hc : isLineEnd c = false) (t : Text) :
    lines (c :: t) = (c :: firstPart t) :: (lines t).tail := by
  rw [lines,hc,← headD_lines]
  cases lines t <;> rfl

theorem head?_lines (h : t ≠ []) : (lines t).head? = some (firstPart t) := by
  cases t with
  | nil => exact absurd rfl h
  | cons c t =>
    cases hc : isLineEnd c with
    | true => simp [lines,firstPart,hc]
    | false => simp [lines_cons hc,firstPart,hc]

theorem firstPart_of_intact (h : ∀ c ∈ t, isLineEnd c = false) : firstPart t = t :=
  List.takeWhile_eq_self_iff.mpr fun c hc => by simp [h c hc]

/-- A newline ends the first part wherever it ends the text. -/
theorem firstPart_append (h : t = [] ∨ t.head? = some '\n') (s : Text) :
    firstPart (s ++ t) = firstPart s := by
  rcases h with rfl | h
  · rw [List.append_nil]
  · obtain ⟨rest,rfl⟩ := List.head?_eq_some_iff.mp h
    induction s with
    | nil => rfl
    | cons c s ih => cases hc : isLineEnd c <;> simp_all [firstPart]

/-- Behind a newline the lines go on as if nothing stood in front. -/
theorem lines_append_newline (s t : Text) :
    lines (s ++ '\n' :: t) = lines (s ++ ['\n']) ++ lines t := by
  induction s with
  | nil => rfl
  | cons c s ih =>
    cases hc : isLineEnd c with
    | true => simp [lines,hc,ih]
    | false =>
      have hne : lines (s ++ ['\n']) ≠ [] := fun h => by
        have hhead := head?_lines (List.concat_ne_nil '\n' s)
        rw [h] at hhead
        cases hhead
      rw [List.cons_append,List.cons_append,lines_cons hc,lines_cons hc,firstPart_append (.inr rfl),
        firstPart_append (.inr rfl),ih,List.tail_append_of_ne_nil hne,List.cons_append]

theorem lines_flatMap (ls : List Text) (t : Text) :
    lines (ls.flatMap (· ++ ['\n']) ++ t) = ls.flatMap (fun l => lines (l ++ ['\n'])) ++ lines t := by
  induction ls with
  | nil => rfl
  | cons l ls ih =>
    have hl : (l :: ls).flatMap (· ++ ['\n']) ++ t =
        l ++ '\n' :: (ls.flatMap (· ++ ['\n']) ++ t) := by
      simp
    rw [hl,lines_append_newline,ih,List.flatMap_cons,List.append_assoc]

/-- A line of a text is several lines of its file when it holds line ends itself. -/
theorem length_lines_concat (s : Text) :
    (lines (s ++ ['\n'])).length = s.countP isLineEnd + 1 := by
  induction s with
  | nil => rfl
  | cons c s ih =>
    cases hc : isLineEnd c with
    | true => simp [lines,hc,ih]
    | false => simp [lines_cons hc,hc,ih]

theorem lines_concat_of_intact (h : ∀ c ∈ s, isLineEnd c = false) : lines (s ++ ['\n']) = [s] := by
  induction s with
  | nil => rfl
  | cons c s ih =>
    obtain ⟨hc,hs⟩ := List.forall_mem_cons.mp h
    simp [lines_cons hc,firstPart_append,firstPart_of_intact hs,ih hs]

/-- The lines of a file are parts of it, and no line end is in any of them. -/
theorem isInfix_of_mem_lines (h : line ∈ lines t) :
    line <:+: t ∧ ∀ c ∈ line, isLineEnd c = false := by
  induction t generalizing line with
  | nil => cases h
  | cons c t ih =>
    have hrest : ∀ l ∈ lines t, l <:+: c :: t ∧ ∀ c ∈ l, isLineEnd c = false := fun l hl =>
      ⟨(ih hl).1.trans (List.suffix_cons c t).isInfix,(ih hl).2⟩
    cases hc : isLineEnd c with
    | true =>
      rw [lines,hc] at h
      rcases List.mem_cons.mp h with rfl | h
      · exact ⟨List.nil_infix,nofun⟩
      · exact hrest line h
    | false =>
      rw [lines_cons hc] at h
      rcases List.mem_cons.mp h with rfl | h
      · have hpart := List.takeWhile_prefix (!isLineEnd ·) (l := t)
        refine ⟨(List.cons_prefix_cons.mpr ⟨rfl,hpart⟩).isInfix,?_⟩
        refine List.forall_mem_cons.mpr ⟨hc,fun d hd => ?_⟩
        simpa using List.mem_takeWhile_imp hd
      · exact hrest line (List.mem_of_mem_tail h)

/-- The lines of a file that stand within a line of the text. -/
theorem isInfix_of_mem_lines_concat (h : line ∈ lines (s ++ ['\n'])) : line <:+: s := by
  obtain ⟨hpart,hends⟩ := isInfix_of_mem_lines h
  rcases List.infix_concat_iff.mp hpart with hend | hpart
  · rcases List.suffix_concat_iff.mp hend with rfl | ⟨u,rfl,-⟩
    · exact List.nil_infix
    · exact absurd (hends '\n' (by simp)) (by decide)
  · exact hpart

theorem length_flatMap_lines (ls : List Text) :
    (ls.flatMap fun l => lines (l ++ ['\n'])).length = ls.length + ls.flatten.countP isLineEnd := by
  induction ls with
  | nil => rfl
  | cons l ls ih =>
    simp only [List.flatMap_cons,List.length_append,length_lines_concat,ih,List.length_cons,
      List.flatten_cons,List.countP_append]
    omega

section
variable {k : Nat}

/-- Where the lines in front hold newlines only, lines of the text and lines of the file have the
same numbers. -/
theorem getElem?_lines_of_intact (h : (Texts.split '\n' t)[k]? = some line) (hne : line ≠ [])
    (hi : ∀ l ∈ (Texts.split '\n' t).take k, ∀ c ∈ l, isLineEnd c = false) :
    (lines t)[k]? = some (firstPart line) := by
  obtain ⟨behind,ht,hb⟩ := Texts.exists_of_getElem?_split h
  have hlength := List.length_take_of_le (List.getElem?_eq_some_iff.mp h).1.le
  have hlines : ((Texts.split '\n' t).take k).flatMap (fun l => lines (l ++ ['\n'])) =
      (Texts.split '\n' t).take k := by
    rw [List.flatMap_congr fun l hl => lines_concat_of_intact (hi l hl)]
    exact List.flatMap_singleton' _
  have ht := congrArg lines ht
  rw [lines_flatMap,hlines] at ht
  rw [ht,List.getElem?_append_right hlength.le,hlength,Nat.sub_self,← List.head?_eq_getElem?,
    head?_lines (List.append_ne_nil_of_left_ne_nil hne behind),firstPart_append hb]

/-- Where a line in front holds another line end, the number belongs to a part of such a line. -/
theorem exists_of_displaced (h : (Texts.split '\n' t)[k]? = some line)
    (hd : ∃ l ∈ (Texts.split '\n' t).take k, ∃ c ∈ l, isLineEnd c = true) :
    ∃ shown, (lines t)[k]? = some shown ∧ ∃ l ∈ (Texts.split '\n' t).take k, shown <:+: l := by
  obtain ⟨behind,ht,-⟩ := Texts.exists_of_getElem?_split h
  have hlength := List.length_take_of_le (List.getElem?_eq_some_iff.mp h).1.le
  have ht := congrArg lines ht
  rw [lines_flatMap] at ht
  generalize (Texts.split '\n' t).take k = earlier at *
  have hk : k < (earlier.flatMap fun l => lines (l ++ ['\n'])).length := by
    obtain ⟨l,hl,c,hc,he⟩ := hd
    have hpos := List.countP_pos_iff.mpr ⟨c,List.mem_flatten_of_mem hl hc,he⟩
    rw [length_flatMap_lines,hlength]
    omega
  obtain ⟨l,hl,hshown⟩ := List.mem_flatMap.mp (List.getElem_mem hk)
  refine ⟨_,?_,l,hl,isInfix_of_mem_lines_concat hshown⟩
  rw [ht,List.getElem?_append_left hk,List.getElem?_eq_getElem hk]

end

end SourceLines
end QScope
