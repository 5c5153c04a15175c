import QScope.CommandLine
import QScope.LanguageServer
import QScope.Proofs.AssignmentLinks
import QScope.Proofs.EditedNames
import QScope.Proofs.LambdaScopes
import QScope.Proofs.QualifiedNames

/-! # Outline walks: the printed outline goes through the symbols of an editor, roots first

Both look for the names in a lambda among all tokens, from one name to those below it. This comes to
an end because the names in a lambda stand behind those that it is assigned to. -/
namespace QScope

namespace Forest

/-- The trees with the given roots and children, one after the other. -/
def ofTrees {α : Type} : List (α × Forest α) → Forest α
  | [] => empty
  | (a,children) :: ts => tree a children (ofTrees ts)

theorem height_map {α β : Type} (f : α → β) (t : Forest α) : (t.map f).height = t.height := by
  induction t with
  | empty => rfl
  | tree a children rest hc hr => rw [map,height,height,hc,hr]

theorem map_congr_preorder {α β : Type} {f g : α → β} {t : Forest α} (n : Nat)
    (h : ∀ p ∈ t.preorder n, f p.2 = g p.2) : t.map f = t.map g := by
  induction t generalizing n with
  | empty => rfl
  | tree a children rest hc hr =>
    rw [preorder,List.cons_append] at h
    rw [map,map,h (n,a) List.mem_cons_self,
      hc (n + 1) fun p hp => h p (List.mem_cons_of_mem _ (List.mem_append_left _ hp)),
      hr n fun p hp => h p (List.mem_cons_of_mem _ (List.mem_append_right _ hp))]

end Forest

namespace Texts

theorem trim_eq_self {t : Text} (hh : ∀ c, t.head? = some c → CharacterClasses.isBlank c = false)
    (hl : ∀ c, t.getLast? = some c → CharacterClasses.isBlank c = false) : trim t = t := by
  have hleft : ∀ {t : Text}, (∀ c, t.head? = some c → CharacterClasses.isBlank c = false) →
      trimLeft t = t := by
    intro t h
    cases t with
    | nil => rfl
    | cons c t => exact List.dropWhile_cons_of_neg (by rw [h c rfl]; exact Bool.false_ne_true)
  rw [trim,hleft hh,trimRight,hleft (by simpa using hl),List.reverse_reverse]

end Texts

namespace Outlines
open Editing Annotating Lexing

/-- The names assigned in a scope, among all tokens. -/
def assignedIn (tokens : List AnnotatedToken) (scope : Option Nat) : List AnnotatedToken :=
  tokens.filter fun t => t.isAssigned && t.scope == scope

section
variable (tokens : List AnnotatedToken)

/-- The line of an assigned name, and those of the names in the lambda that it is assigned. Without
result if the names are nested in more levels than are left. -/
def linesFrom : Nat → Nat → AnnotatedToken → Option (List Text)
  | 0,_,_ => none
  | levels + 1,depth,t => do
    let below ←
      if t.flags.lambda then (assignedIn tokens t.tangled).mapM (linesFrom levels (depth + 1))
      else some []
    return line depth t :: below.flatten

/-- The symbol of an assigned name, without blanks around the name. -/
def trimmedSymbol (t : AnnotatedToken) : Symbol :=
  ⟨Texts.trim t.canonicalName,if t.flags.amended then some "Amend".toList else none,
    if t.flags.lambda then .object else .variable,t.span.range⟩

/-- The symbol of an assigned name, with those of the names in the lambda that it is assigned. -/
def symbolFrom : Nat → AnnotatedToken → Option (Symbol × Forest Symbol)
  | 0,_ => none
  | levels + 1,t => do
    let children ←
      if t.flags.lambda then (assignedIn tokens t.tangled).mapM (symbolFrom levels) else some []
    return (trimmedSymbol t,.ofTrees children)

/-- The lines that are printed, from the names assigned at the top on. -/
def printedLines (levels : Nat) : Option (List Text) :=
  ((assignedIn tokens none).mapM (linesFrom tokens levels 0)).map (·.flatten)

/-- The symbols that an editor is sent, from the names assigned at the top on. -/
def symbolTrees (levels : Nat) : Option (Forest Symbol) :=
  ((assignedIn tokens none).mapM (symbolFrom tokens levels)).map .ofTrees

end

/-- The line that shows no more of a name than its depth and its symbol. -/
def symbolLine (depth : Nat) (s : Symbol) : Text :=
  List.replicate (2 * depth) ' ' ++ s.name ++
    (if s.kind = .object then " function" else " variable").toList ++
    (if s.detail = some "Amend".toList then " (amend)" else "").toList ++
    ' ' :: Texts.integer (s.range.start.line + 1) ++ ':' ::
    Texts.integer (s.range.start.column + 1)

/-- Tokens of which those in a lambda come behind all that are assigned it. -/
structure Descends (tokens : List AnnotatedToken) : Prop where
  ordered : tokens.Pairwise fun t u => t.index < u.index
  inside : ∀ t ∈ tokens, ∀ u ∈ tokens, t.flags.lambda = true → u.scope = t.tangled →
    t.index < u.index

section
variable {tokens before ts : List AnnotatedToken} {t : AnnotatedToken}

theorem assignedIn_cons_of_pos {scope : Option Nat} (h : t.isAssigned ∧ t.scope = scope) :
    assignedIn (t :: ts) scope = t :: assignedIn ts scope :=
  List.filter_cons_of_pos (by simpa using h)

theorem assignedIn_cons_of_neg {scope : Option Nat} (h : ¬(t.isAssigned ∧ t.scope = scope)) :
    assignedIn (t :: ts) scope = assignedIn ts scope :=
  List.filter_cons_of_neg (by simpa using h)

/-- Behind the name alone are the names in its lambda. -/
theorem Descends.assignedIn_eq (h : Descends (before ++ t :: ts)) (hl : t.flags.lambda = true) :
    assignedIn (before ++ t :: ts) t.tangled = assignedIn ts t.tangled := by
  have hnone : assignedIn (before ++ [t]) t.tangled = [] := by
    refine List.filter_eq_nil_iff.mpr fun u hu hs => ?_
    rw [Bool.and_eq_true,beq_iff_eq] at hs
    have hmem : u ∈ before ++ t :: ts := by
      rw [List.append_cons]
      exact List.mem_append_left _ hu
    have hlt := h.inside t (List.mem_append_right _ List.mem_cons_self) u hmem hl hs.2
    have hle : u.index ≤ t.index := by
      rcases List.mem_append.mp hu with hu | hu
      · exact ((List.pairwise_append.mp h.ordered).2.2 u hu t List.mem_cons_self).le
      · rw [List.mem_singleton.mp hu]
    omega
  rw [List.append_cons,assignedIn,List.filter_append]
  exact (congrArg (· ++ _) hnone).trans (List.nil_append _)

/-- A visit of a name and of all names below it, whatever it finds at each, goes through the
outline, if it may go down as many levels as that has. The induction is on the tokens that are left,
where all the names below stand. -/
theorem visit_eq {β γ : Type} {f : Nat → Nat → AnnotatedToken → Option β}
    {node : Nat → AnnotatedToken → List β → β} {c : List β → γ}
    {s : Nat → Forest AnnotatedToken → γ}
    (hvisit : ∀ n depth t, f (n + 1) depth t =
      (if t.flags.lambda then (assignedIn tokens t.tangled).mapM (f n (depth + 1))
        else some []).map (node depth t))
    (hempty : ∀ depth, c [] = s depth .empty)
    (htree : ∀ depth t below rest children forest, c below = s (depth + 1) children →
      c rest = s depth forest →
      c (node depth t below :: rest) = s depth (.tree t children forest))
    (hd : Descends tokens) (ht : tokens = before ++ ts) {scope : Option Nat} {n : Nat}
    (hn : (ofScope scope ts).height ≤ n) (depth : Nat) :
    ((assignedIn ts scope).mapM (f n depth)).map c = some (s depth (ofScope scope ts)) := by
  induction ts generalizing before scope n depth with
  | nil => exact congrArg some (hempty depth)
  | cons t ts ih =>
    have hts := ht.trans (List.append_cons before t ts)
    rw [ofScope] at hn ⊢
    by_cases hs : t.isAssigned ∧ t.scope = scope
    · rw [if_pos hs,Forest.height,Nat.max_le] at hn
      obtain ⟨m,rfl⟩ := Nat.exists_eq_add_one_of_ne_zero (Nat.ne_zero_of_lt hn.1)
      rw [if_pos hs,assignedIn_cons_of_pos hs,List.mapM_cons]
      obtain ⟨rest,hr,hcollected⟩ := Option.map_eq_some_iff.mp (ih hts hn.2 depth)
      obtain ⟨below,hb,hbelow⟩ : ∃ below,
          (if t.flags.lambda then (assignedIn tokens t.tangled).mapM (f m (depth + 1))
            else some []) = some below ∧
          c below = s (depth + 1) (if t.flags.lambda then ofScope t.tangled ts else .empty) := by
        by_cases hl : t.flags.lambda = true
        · rw [if_pos hl] at hn
          subst ht
          rw [if_pos hl,if_pos hl,hd.assignedIn_eq hl]
          exact Option.map_eq_some_iff.mp (ih hts (Nat.le_of_succ_le_succ hn.1) (depth + 1))
        · rw [if_neg hl,if_neg hl]
          exact ⟨[],rfl,hempty _⟩
      rw [hvisit,hb,hr]
      exact congrArg some (htree depth t below rest _ _ hbelow hcollected)
    · rw [if_neg hs] at hn
      rw [if_neg hs,assignedIn_cons_of_neg hs]
      exact ih hts hn depth

theorem linesFrom_succ (n depth : Nat) (t : AnnotatedToken) : linesFrom tokens (n + 1) depth t =
    (if t.flags.lambda then (assignedIn tokens t.tangled).mapM (linesFrom tokens n (depth + 1))
      else some []).map fun below => line depth t :: below.flatten := by
  rw [linesFrom,Option.map_eq_bind]
  cases t.flags.lambda <;> rfl

theorem symbolFrom_succ (n : Nat) (t : AnnotatedToken) : symbolFrom tokens (n + 1) t =
    (if t.flags.lambda then (assignedIn tokens t.tangled).mapM (symbolFrom tokens n)
      else some []).map fun children => (trimmedSymbol t,.ofTrees children) := by
  rw [symbolFrom,Option.map_eq_bind]
  cases t.flags.lambda <;> rfl

theorem printedLines_eq (h : Descends tokens) {n : Nat} (hn : (outline tokens).height ≤ n) :
    printedLines tokens n = some (lines tokens) := by
  refine visit_eq (c := List.flatten)
    (s := fun depth forest => (forest.preorder depth).map fun p => line p.1 p.2)
    linesFrom_succ (fun _ => rfl) ?_ h (List.nil_append _).symm hn 0
  rintro depth t below rest children forest hbelow hrest
  rw [List.flatten_cons,hbelow,hrest,Forest.preorder,List.map_append]
  rfl

theorem symbolTrees_eq (h : Descends tokens) {n : Nat} (hn : (outline tokens).height ≤ n) :
    symbolTrees tokens n = some ((outline tokens).map trimmedSymbol) := by
  refine visit_eq (f := fun n _ => symbolFrom tokens n) (c := Forest.ofTrees)
    (s := fun _ forest => forest.map trimmedSymbol)
    (fun n _ => symbolFrom_succ n) (fun _ => rfl) ?_ h (List.nil_append _).symm hn 0
  rintro depth t below rest children forest hbelow hrest
  rw [Forest.ofTrees,hbelow,hrest,Forest.map]

/-- An outline is made of assigned names of the tokens. -/
theorem mem_preorder_ofScope {scope : Option Nat} {n d : Nat} {a : AnnotatedToken}
    (h : (d,a) ∈ (ofScope scope ts).preorder n) : a ∈ ts ∧ a.isAssigned = true := by
  induction ts generalizing scope n with
  | nil => cases h
  | cons t ts ih =>
    have htail : ∀ {scope n}, (d,a) ∈ (ofScope scope ts).preorder n →
        a ∈ t :: ts ∧ a.isAssigned = true := fun h => (ih h).imp_left (List.mem_cons_of_mem t)
    rw [ofScope] at h
    split at h
    · rename_i hs
      rw [Forest.preorder,List.mem_append,List.mem_cons] at h
      rcases h with (heq | hc) | hr
      · cases heq
        exact ⟨List.mem_cons_self,hs.1⟩
      · split at hc
        · exact htail hc
        · cases hc
      · exact htail hr
    · exact htail h

end

/-- Names in a lambda stand behind its brace, and so behind all that are assigned the lambda. -/
theorem descends_annotateIn (ns : Option Text) (tokens : List Token) :
    Descends (annotateIn ns tokens) where
  ordered := by
    refine List.pairwise_iff_getElem.mpr fun i j hi hj hij => ?_
    rw [index_annotateIn (List.getElem?_eq_getElem hi),
      index_annotateIn (List.getElem?_eq_getElem hj)]
    exact hij
  inside t ht u hu hl hs := by
    obtain ⟨i,hi⟩ := List.mem_iff_getElem?.mp ht
    obtain ⟨k,hk⟩ := List.mem_iff_getElem?.mp hu
    obtain ⟨v,hv,-⟩ := (lambda_annotateIn hi).mp hl
    obtain ⟨o,ho⟩ := marked_annotateIn hi (.inr (.inr hl))
    obtain ⟨w,hw,-,hlt,htangled⟩ := target_annotateIn ho
    cases hi.symm.trans hw
    rw [hv] at htangled hs
    split at htangled
    · cases htangled
      have hlength : k < tokens.length := by
        rw [← length_annotateIn ns]
        exact (List.getElem?_eq_some_iff.mp hk).1
      have hmem := mem_enclosing_of_scope (List.getElem?_eq_getElem hlength) hk hs
      have hbefore := (BracketLayout.braces_enclosing hlength).before hmem
      rw [index_annotateIn hi,index_annotateIn hk]
      omega
    · cases htangled

theorem descends_parse (file text : Text) : Descends (parse file text) :=
  descends_annotateIn none _

/-- A line shows what the symbol says: its range begins at the position of the name. -/
theorem symbolLine_assignedSymbol {t : AnnotatedToken} (hstart : t.span.start.IsPositive)
    (hstop : t.span.stop.IsPositive) (depth : Nat) :
    symbolLine depth (assignedSymbol t) = line depth t := by
  rw [symbolLine,line,assignedSymbol,Span.range_of_isPositive hstart hstop]
  have hkind : ((if t.flags.lambda then .object else .variable : SymbolKind) = .object) ↔
      t.flags.lambda = true := by
    cases t.flags.lambda <;> simp
  have hdetail : (if t.flags.amended then some "Amend".toList else none) = some "Amend".toList ↔
      t.flags.amended = true := by
    cases t.flags.amended <;> simp
  simp only [hkind,hdetail,Position.zeroBased,Int.sub_add_cancel]

/-- The canonical name is the image, if need be with its namespace between dots in front. -/
theorem exists_canonicalName {t : AnnotatedToken} (hi : t.isIdentifier = true) :
    ∃ front, t.canonicalName = front ++ t.image ∧ (front = [] ∨ front.head? = some '.') := by
  cases hq : t.isQualified with
  | true => exact ⟨[],AnnotatedToken.canonicalName_of_isQualified hq,.inl rfl⟩
  | false =>
    rw [AnnotatedToken.canonicalName_of_plain hi hq]
    cases t.ns with
    | none => exact ⟨[],rfl,.inl rfl⟩
    | some path => exact ⟨'.' :: (path ++ ['.']),by simp [DottedNames.qualify],.inr rfl⟩

/-- Around the name of an identifier there are no blanks. -/
theorem trimmedSymbol_eq {file text : Text} {t : AnnotatedToken} (ht : t ∈ parse file text)
    (hi : t.isIdentifier = true) : trimmedSymbol t = assignedSymbol t := by
  obtain ⟨-,hn,-⟩ := isName_of_parse ht hi
  obtain ⟨front,hname,hfront⟩ := exists_canonicalName hi
  have htrim : Texts.trim t.canonicalName = t.canonicalName := by
    rw [hname]
    refine Texts.trim_eq_self (fun c hc => ?_) (fun c hc => ?_)
    · rcases hfront with rfl | hdot
      · exact hn.isBlank (List.mem_of_mem_head? hc)
      · rw [List.head?_append,hdot,Option.some_or] at hc
        obtain rfl := Option.some.inj hc
        decide
    · rw [List.getLast?_append_of_ne_nil _ hn.ne_nil] at hc
      exact hn.isBlank (List.mem_of_getLast? hc)
  rw [trimmedSymbol,assignedSymbol,htrim]

theorem map_line_eq {file text : Text} {ps : List (Nat × AnnotatedToken)}
    (h : ∀ p ∈ ps, p ∈ (outline (parse file text)).preorder 0) :
    ps.map (fun (n,t) => line n t) =
      (ps.map fun (n,t) => (n,assignedSymbol t)).map fun (n,s) => symbolLine n s := by
  rw [List.map_map]
  refine List.map_congr_left fun p hp => ?_
  have ht := (mem_preorder_ofScope (h p hp)).1
  have hpos := (parse_spanned file text).positive p.2 ht
  exact (symbolLine_assignedSymbol hpos.1 hpos.2 p.1).symm

theorem lines_eq_walk (file text : Text) : lines (parse file text) =
    ((documentSymbols false (parse file text)).preorder 0).map fun (n,s) => symbolLine n s := by
  have hsymbols : (documentSymbols false (parse file text)).preorder 0 = _ :=
    Forest.preorder_map assignedSymbol 0 (outline (parse file text))
  rw [lines,hsymbols,map_line_eq fun _ hp => hp]

theorem linesWithin_eq_walk (file text : Text) (levels : Nat) :
    linesWithin levels (parse file text) =
      (((documentSymbols false (parse file text)).preorder 0).takeWhile
        fun (n,_) => n < levels).map fun (n,s) => symbolLine n s := by
  have hsymbols : (documentSymbols false (parse file text)).preorder 0 = _ :=
    Forest.preorder_map assignedSymbol 0 (outline (parse file text))
  rw [linesWithin,hsymbols,List.takeWhile_map,
    map_line_eq fun _ hp => (List.takeWhile_subset _) hp]
  rfl

/-- The two outlines of a text. Each search comes to its end below as many levels as the tree has,
and the lines are those of the symbols, roots first. The command prints as many of them as the depth
of the tree allows, which is all of them if the tree is small enough for an editor. -/
structure OutlinesAgree (tokens : List AnnotatedToken) : Prop where
  symbols : ∀ levels, (documentSymbols false tokens).height ≤ levels →
    symbolTrees tokens levels = some (documentSymbols false tokens)
  printed : ∀ levels, (documentSymbols false tokens).height ≤ levels →
    printedLines tokens levels = some (lines tokens)
  walk : lines tokens =
    ((documentSymbols false tokens).preorder 0).map fun (depth,s) => symbolLine depth s
  command : CommandLine.outline tokens =
    if (documentSymbols false tokens).height ≤ Limits.printedLevels then
      CommandLine.success (lines tokens)
    else .obstructed .deepNesting (CommandLine.printed
      ((((documentSymbols false tokens).preorder 0).takeWhile fun (depth,_) =>
        depth < Limits.printedLevels).map fun (depth,s) => symbolLine depth s))
  sent : ∀ t, LanguageServer.Reply.ofSymbols (documentSymbols false tokens) = .symbols t →
    CommandLine.outline tokens =
      CommandLine.success ((t.preorder 0).map fun (depth,s) => symbolLine depth s)

end Outlines
end QScope
