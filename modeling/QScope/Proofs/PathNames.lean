import Mathlib.Data.List.Lex
import QScope.FileTrees

/-! # Path names: what is below a directory, and the names by which it is found

A directory's name with the names from there to an entry leads to that entry, however the directory
was spelled, and paths are listed in the order of their names. -/
namespace QScope

namespace Texts

theorem split_ne_nil (separator : Char) (t : Text) : split separator t ≠ [] := by
  fun_cases split separator t <;> exact List.cons_ne_nil _ _

theorem separator_notMem_split (separator : Char) (t : Text) :
    ∀ part ∈ split separator t, separator ∉ part := by
  fun_induction split separator t with
  | case1 => simp
  | case2 t ih => exact List.forall_mem_cons.mpr ⟨List.not_mem_nil,ih⟩
  | case3 c t hc hs ih => exact absurd hs (split_ne_nil separator t)
  | case4 c t hc first parts hs ih =>
    rw [hs] at ih
    obtain ⟨hfirst,hparts⟩ := List.forall_mem_cons.mp ih
    refine List.forall_mem_cons.mpr ⟨?_,hparts⟩
    exact List.not_mem_cons_of_ne_of_not_mem (Ne.symm hc) hfirst

theorem split_of_notMem {separator : Char} {part : Text} (h : separator ∉ part) :
    split separator part = [part] := by
  induction part with
  | nil => rfl
  | cons c part ih =>
    obtain ⟨hc,h⟩ := List.ne_and_not_mem_of_not_mem_cons h
    rw [split,if_neg (Ne.symm hc),ih h]

theorem split_append_cons {separator : Char} {part : Text} (h : separator ∉ part) (t : Text) :
    split separator (part ++ separator :: t) = part :: split separator t := by
  induction part with
  | nil => rw [List.nil_append,split,if_pos rfl]
  | cons c part ih =>
    obtain ⟨hc,h⟩ := List.ne_and_not_mem_of_not_mem_cons h
    rw [List.cons_append,split,if_neg (Ne.symm hc),ih h]

/-- Parts without the separator are got back from what they are joined to. -/
theorem split_join {separator : Char} {parts : List Text} (hne : parts ≠ [])
    (h : ∀ part ∈ parts, separator ∉ part) : split separator (join [separator] parts) = parts := by
  induction parts with
  | nil => exact absurd rfl hne
  | cons part parts ih =>
    obtain ⟨hpart,h⟩ := List.forall_mem_cons.mp h
    cases parts with
    | nil =>
      rw [join,List.intercalate_singleton]
      exact split_of_notMem hpart
    | cons next parts =>
      rw [join,List.intercalate_cons_cons,List.append_assoc,List.singleton_append,
        split_append_cons hpart]
      exact congrArg (part :: ·) (ih (List.cons_ne_nil _ _) h)

end Texts

namespace PathName
variable {n : PathName} {tree : FileTree} {p q : Path} {names : List Text} {t : Text}

/-- Names that are neither empty nor a single dot, without slashes. -/
def IsShort (n : PathName) : Prop := ∀ name ∈ n.names, name ≠ [] ∧ name ≠ ['.'] ∧ '/' ∉ name

theorem isShort_ofText (t : Text) : (ofText t).IsShort := by
  intro name h
  obtain ⟨hm,hn⟩ := List.mem_filter.mp h
  rw [Bool.and_eq_true,bne_iff_ne,bne_iff_ne] at hn
  exact ⟨hn.1,hn.2,Texts.separator_notMem_split _ _ _ hm⟩

theorem split_names (h : n.IsShort) :
    (Texts.split '/' (Texts.join ['/'] n.names)).filter (fun n => n != [] && n != ['.']) =
      n.names := by
  by_cases hn : n.names = []
  · rw [hn]
    rfl
  · rw [Texts.split_join hn fun name hm => (h name hm).2.2]
    refine List.filter_eq_self.mpr fun name hm => ?_
    rw [Bool.and_eq_true,bne_iff_ne,bne_iff_ne]
    exact ⟨(h name hm).1,(h name hm).2.1⟩

theorem head?_join (h : n.IsShort) (hn : n.names ≠ []) :
    (Texts.join ['/'] n.names).head? ≠ some '/' := by
  obtain ⟨name,names,hnames⟩ := List.exists_cons_of_ne_nil hn
  obtain ⟨hne,-,hslash⟩ := h name (hnames ▸ List.mem_cons_self)
  obtain ⟨c,rest,rfl⟩ := List.exists_cons_of_ne_nil hne
  have hc : c ≠ '/' := fun hc => hslash (hc ▸ List.mem_cons_self)
  rw [hnames,Texts.join]
  cases names with
  | nil => simpa using hc
  | cons next names => simpa [List.intercalate_cons_cons] using hc

/-- A short name is read back from its text. -/
theorem ofText_toText (h : n.IsShort) : ofText n.toText = n := by
  obtain ⟨absolute,names⟩ := n
  cases absolute with
  | true =>
    rw [toText,if_pos rfl,ofText,Texts.split,if_pos rfl]
    exact congrArg (PathName.mk true) (split_names h)
  | false =>
    by_cases hn : names = []
    · subst hn
      rfl
    · rw [toText,if_neg Bool.false_ne_true,if_neg (by simpa using hn),ofText,split_names h]
      exact congrArg (PathName.mk · names) (beq_eq_false_iff_ne.mpr (head?_join h hn))

end PathName

namespace FileTree
variable {tree : FileTree} {p q place : Path} {name t : Text} {names more : List Text}

/-- The paths that are listed: those of the entries and that of the working directory. -/
def paths (tree : FileTree) : List Path := tree.here :: tree.entries.map (·.1)

/-- A name that something can have in a directory. -/
def IsEntryName (name : Text) : Prop := name ≠ [] ∧ name ≠ ['.'] ∧ name ≠ ['.','.'] ∧ '/' ∉ name

instance : DecidablePred IsEntryName := fun name =>
  inferInstanceAs (Decidable (name ≠ [] ∧ name ≠ ['.'] ∧ name ≠ ['.','.'] ∧ '/' ∉ name))

/-- A tree as file systems have them: everything in it has a proper name and stands in
directories. -/
structure Sound (tree : FileTree) : Prop where
  named : ∀ p ∈ tree.paths, ∀ name ∈ p, IsEntryName name
  within : ∀ p ∈ tree.paths, ∀ n < p.length, tree.isDirectory (p.take n) = true

/-- Whatever is there leads to a listed path. -/
theorem isSome_entry_iff : (tree.entry? q).isSome ↔ ∃ p ∈ tree.paths, q <+: p := by
  rw [ entry?]
  split
  · rename_i e he
    obtain ⟨before,behind,hentries,-⟩ := List.lookup_eq_some_iff.mp he
    refine iff_of_true rfl ⟨q,List.mem_cons_of_mem _ ?_,List.prefix_rfl⟩
    rw [hentries]
    simp
  · split
    · rename_i h
      refine iff_of_true rfl ?_
      rw [Bool.or_eq_true,List.isPrefixOf_iff_prefix,List.any_eq_true] at h
      rcases h with h | ⟨e,he,h⟩
      · exact ⟨tree.here,List.mem_cons_self,h⟩
      · exact ⟨e.1,List.mem_cons_of_mem _ (List.mem_map_of_mem he),List.isPrefixOf_iff_prefix.mp h⟩
    · rename_i h
      refine iff_of_false Bool.false_ne_true ?_
      rintro ⟨p,hp,hq⟩
      refine h ?_
      rw [Bool.or_eq_true,List.isPrefixOf_iff_prefix,List.any_eq_true]
      rcases List.mem_cons.mp hp with rfl | hp
      · exact .inl hq
      · obtain ⟨e,he,rfl⟩ := List.mem_map.mp hp
        exact .inr ⟨e,he,List.isPrefixOf_iff_prefix.mpr hq⟩

/-- Below a directory is what its path leads to, other than itself. -/
theorem mem_below : q ∈ tree.below p ↔ p <+: q ∧ q ≠ p ∧ (tree.entry? q).isSome := by
  rw [below,List.mem_eraseDups,List.mem_flatMap,isSome_entry_iff]
  constructor
  · rintro ⟨r,hr,hq⟩
    split at hq
    · rename_i hpr
      obtain ⟨n,hn,rfl⟩ := List.mem_map.mp hq
      rw [List.mem_range] at hn
      refine ⟨?_,fun h => ?_,r,hr,List.take_prefix _ _⟩
      · exact List.prefix_take_iff.mpr ⟨List.isPrefixOf_iff_prefix.mp hpr,by omega⟩
      · have hlength := congrArg List.length h
        rw [List.length_take] at hlength
        omega
    · cases hq
  · rintro ⟨hpq,hne,r,hr,hqr⟩
    refine ⟨r,hr,?_⟩
    rw [if_pos (List.isPrefixOf_iff_prefix.mpr (hpq.trans hqr)),List.mem_map]
    have hlength : p.length < q.length :=
      hpq.length_le.lt_of_ne fun h => hne (hpq.eq_of_length h).symm
    refine ⟨q.length - p.length - 1,List.mem_range.mpr ?_,?_⟩
    · have := hqr.length_le
      omega
    · rw [show p.length + (q.length - p.length - 1) + 1 = q.length by omega]
      exact (List.prefix_iff_eq_take.mp hqr).symm

theorem nodup_eraseDups {α : Type} [BEq α] [LawfulBEq α] (l : List α) : l.eraseDups.Nodup := by
  induction hn : l.length using Nat.strongRecOn generalizing l with
  | ind n ih =>
    cases l with
    | nil => exact .nil
    | cons a l =>
      rw [List.eraseDups_cons]
      refine List.nodup_cons.mpr ⟨fun h => ?_,ih _ ?_ _ rfl⟩
      · simp [List.mem_eraseDups] at h
      · exact hn ▸ Nat.lt_succ_of_le (List.length_filter_le _ _)

theorem nodup_below (tree : FileTree) (p : Path) : (tree.below p).Nodup := nodup_eraseDups _

/-! What path texts lead to -/

theorem follow_append (tree : FileTree) (p : Path) (names more : List Text) :
    tree.follow p (names ++ more) = (tree.follow p names).bind (tree.follow · more) := by
  rw [follow,List.foldlM_append]
  rfl

theorem descend_isDirectory (h : tree.descend p name = some q) : tree.isDirectory p = true := by
  rw [descend] at h
  split at h
  · assumption
  · cases h

/-- Empty names and single dots lead nowhere else. -/
theorem follow_filter (h : tree.follow p names = some q) :
    tree.follow p (names.filter fun n => n != [] && n != ['.']) = some q := by
  induction names generalizing p with
  | nil => exact h
  | cons name names ih =>
    rw [follow,List.foldlM_cons] at h
    obtain ⟨r,hr,h⟩ := Option.bind_eq_some_iff.mp h
    rw [List.filter_cons]
    split
    · rw [follow,List.foldlM_cons]
      exact Option.bind_eq_some_iff.mpr ⟨r,hr,ih h⟩
    · rename_i hname
      have hname : name = [] ∨ name = ['.'] := by simpa [or_iff_not_imp_left] using hname
      rw [descend,if_pos (descend_isDirectory hr),if_pos hname] at hr
      exact Option.some.inj hr ▸ ih h

/-- What a path text leads to is found by its shortest spelling too. -/
theorem locate?_ofText (h : tree.locate? t = some place) :
    (PathName.ofText t).locate? tree = some place := by
  rw [FileTree.locate?] at h
  split at h
  · cases h
  · exact follow_filter h

namespace Sound

/-- From a directory the names below it lead to what is there. -/
theorem follow_below (hs : tree.Sound) (h : (tree.entry? (p ++ names)).isSome) :
    tree.follow p names = some (p ++ names) := by
  obtain ⟨r,hr,hpr⟩ := isSome_entry_iff.mp h
  induction names generalizing p with
  | nil => rw [List.append_nil]; rfl
  | cons name names ih =>
    have hp : p <+: r := (List.prefix_append p (name :: names)).trans hpr
    have hlength := hpr.length_le
    rw [List.length_append,List.length_cons] at hlength
    have hdirectory : tree.isDirectory p = true := by
      rw [List.prefix_iff_eq_take.mp hp]
      exact hs.within r hr p.length (by omega)
    obtain ⟨hempty,hdot,hdots,-⟩ := hs.named r hr name (hpr.subset (by simp))
    have hsome : (tree.entry? (p ++ [name])).isSome :=
      isSome_entry_iff.mpr ⟨r,hr,((List.prefix_append _ names).trans (by simpa using hpr))⟩
    have hstep : tree.descend p name = some (p ++ [name]) := by
      rw [descend,if_pos hdirectory,if_neg (not_or.mpr ⟨hempty,hdot⟩),if_neg hdots,if_pos hsome]
    rw [List.append_cons] at h hpr ⊢
    rw [follow,List.foldlM_cons,hstep]
    exact ih h hpr

theorem isShort_below (hs : tree.Sound) {n : PathName} (hn : n.IsShort)
    (h : (tree.entry? (p ++ names)).isSome) :
    PathName.IsShort {n with names := n.names ++ names} := by
  obtain ⟨r,hr,hpr⟩ := isSome_entry_iff.mp h
  intro name hname
  rcases List.mem_append.mp hname with hname | hname
  · exact hn name hname
  · obtain ⟨hempty,hdot,-,hslash⟩ := hs.named r hr name (hpr.subset (List.mem_append_right p hname))
    exact ⟨hempty,hdot,hslash⟩

/-- An entry below a directory is the one named by the directory's name and the names from there. -/
theorem fileNamed?_below (hs : tree.Sound) {n : PathName} (hn : n.IsShort)
    (hplace : n.locate? tree = some p) (h : (tree.entry? (p ++ names)).isSome) :
    tree.fileNamed? (PathName.toText {n with names := n.names ++ names}) =
      tree.file? (p ++ names) := by
  rw [fileNamed?,PathName.ofText_toText (hs.isShort_below hn h),PathName.locate?,follow_append]
  rw [PathName.locate?] at hplace
  rw [hplace,Option.bind_some,hs.follow_below h,Option.bind_some]

end Sound
end FileTree

namespace Path

/-- The order of names: by the code points at their first difference. -/
def NameBefore (name other : Text) : Prop :=
  List.Lex (fun c d : Char => c.toNat < d.toNat) name other

/-- The order of paths: by the names at their first difference. -/
def Before (p q : Path) : Prop := List.Lex NameBefore p q

instance : IsStrictTotalOrder Char fun c d => c.toNat < d.toNat where
  irrefl c := Nat.lt_irrefl c.toNat
  trans _ _ _ := Nat.lt_trans
  trichotomous _ _ hcd hdc := Char.toNat_inj.mp (Nat.le_antisymm (not_lt.mp hdc) (not_lt.mp hcd))

theorem isStrictTotalOrder_lex {α : Type} (r : α → α → Prop) [IsStrictTotalOrder α r] :
    IsStrictTotalOrder (List α) (List.Lex r) :=
  {isStrictWeakOrder_of_isOrderConnected,List.Lex.trichotomous r with}

instance : IsStrictTotalOrder Text NameBefore := isStrictTotalOrder_lex _

instance : IsStrictTotalOrder Path Before := isStrictTotalOrder_lex NameBefore

theorem lexicographic_iff {α : Type} [DecidableEq α] {r : α → α → Prop} [Std.Irrefl r]
    {less : α → α → Bool} (hless : ∀ a b, a ≠ b → (less a b = true ↔ r a b)) (p q : List α) :
    lexicographic less p q = true ↔ p = q ∨ List.Lex r p q := by
  induction p generalizing q with
  | nil =>
    refine iff_of_true rfl ?_
    rcases List.lex_nil_or_eq_nil (r := r) q with h | rfl
    · exact .inr h
    · exact .inl rfl
  | cons a p ih =>
    cases q with
    | nil => exact iff_of_false Bool.false_ne_true (by simp)
    | cons b q =>
      rw [lexicographic]
      split
      · rename_i hab
        subst hab
        rw [ih,List.lex_cons_iff,List.cons_inj_right]
      · rename_i hab
        rw [hless a b hab]
        constructor
        · exact fun h => .inr (.rel h)
        · rintro (h | h)
          · exact absurd (List.cons.inj h).1 hab
          · cases h with
            | cons _ => exact absurd rfl hab
            | rel h => exact h

theorem inOrder_iff (p q : Path) : p.inOrder q = true ↔ p = q ∨ p.Before q := by
  refine lexicographic_iff (fun a b hab => ?_) p q
  refine (lexicographic_iff (fun c d _ => decide_eq_true_iff) a b).trans ?_
  exact or_iff_right hab

theorem inOrder_trans (a b c : Path) (hab : a.inOrder b = true) (hbc : b.inOrder c = true) :
    a.inOrder c = true := by
  rw [inOrder_iff] at *
  rcases hab with rfl | hab
  · exact hbc
  · rcases hbc with rfl | hbc
    · exact .inr hab
    · exact .inr (IsTrans.trans (r := Before) a b c hab hbc)

theorem inOrder_total (a b : Path) : (a.inOrder b || b.inOrder a) = true := by
  rw [Bool.or_eq_true,inOrder_iff,inOrder_iff]
  rcases trichotomous_of Before a b with h | h | h
  · exact .inl (.inr h)
  · exact .inl (.inl h)
  · exact .inr (.inr h)

end Path
end QScope
